import Mathlib.Data.Nat.Digits.Defs
import OpenUnion.Code.Json
import OpenUnion.Numbers.Binary64

/-!
# Prices in text

The worker of the marketplace reads a price off the text of a page: commas become spaces, and the
first number with at most two decimals is the price.
-/

namespace OpenUnion

open Numbers

/-- `currencyFromText`. -/
def currencyFromText (raw : String) : Option String :=
  if includes raw "$" then some "USD"
  else if includes raw "€" then some "EUR"
  else if includes raw "£" then some "GBP"
  else none

/-- The digits that `(?:\.\d{1,2})?` matches. -/
def decimalDigits : List Char → List Char
  | '.' :: behind => (behind.takeWhile Char.isDigit).take 2
  | _ => []

/-- The first match of `/(\d+(?:\.\d{1,2})?)/`: its digits, and those behind the point. -/
def firstNumber (s : List Char) : Option (List Char × List Char) :=
  match s.dropWhile fun c => !c.isDigit with
  | [] => none
  | rest => some (rest.takeWhile Char.isDigit, decimalDigits (rest.dropWhile Char.isDigit))

/-- The number that digits before and behind a decimal point denote. -/
def decimalOf (whole decimals : List Char) : ℚ :=
  Nat.ofDigitChars 10 whole 0 + Nat.ofDigitChars 10 decimals 0 / 10 ^ decimals.length

/-- A comma becomes a space. -/
def spaced (c : Char) : Char := if c = ',' then ' ' else c

/-- `parsePriceNumber`. -/
def parsePriceNumber (raw : String) : Option ℚ :=
  (firstNumber (raw.toList.map spaced)).bind fun m => binary64 (decimalOf m.1 m.2)

end OpenUnion
