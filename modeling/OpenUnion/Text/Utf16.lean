import Mathlib.Data.List.Basic
import OpenUnion.Text.Utf8

/-!
# Strings of code units

A string is a list of code units of 16 bits.  Characters beyond U+FFFF take two of them, a high
and a low surrogate; a surrogate that is not part of such a pair is a code point of its own.

* `codePoints_units`: the code points of a string give back its code units.
* `codePoints_utf16`: a character in front of a string is the first code point.
* `codePoints_unit`: a code unit that does not pair with the next one is a code point.
* `codePoints_append`: strings are read one after the other.
-/

namespace OpenUnion.Text

/-- The first half of a pair. -/
def isHigh (u : UInt16) : Bool := decide (0xd800 ≤ u.toNat ∧ u.toNat ≤ 0xdbff)

/-- The second half of a pair. -/
def isLow (u : UInt16) : Bool := decide (0xdc00 ≤ u.toNat ∧ u.toNat ≤ 0xdfff)

/-- The code units of a character. -/
def utf16 (c : Char) : List UInt16 :=
  if c.toNat < 0x10000 then [UInt16.ofNat c.toNat]
  else [UInt16.ofNat (0xd800 + (c.toNat - 0x10000) / 0x400),
    UInt16.ofNat (0xdc00 + (c.toNat - 0x10000) % 0x400)]

/-- The code units of a text. -/
def unitsOf (text : List Char) : List UInt16 := text.flatMap utf16

/-- A code point of a string. -/
inductive CodePoint where
  | char (c : Char)
  /-- A surrogate without its other half. -/
  | lone (u : UInt16)

/-- The code units of a code point. -/
def CodePoint.units : CodePoint → List UInt16
  | .char c => utf16 c
  | .lone u => [u]

/-- The code point of a unit by itself. -/
def unitPoint (u : UInt16) : CodePoint :=
  if isHigh u || isLow u then .lone u else .char (Char.ofNat u.toNat)

/-- The character of a pair. -/
def pairChar (h l : UInt16) : Char :=
  Char.ofNat (0x10000 + (h.toNat - 0xd800) * 0x400 + (l.toNat - 0xdc00))

/-- The code points of a string. -/
def codePoints : List UInt16 → List CodePoint
  | [] => []
  | [u] => [unitPoint u]
  | h :: l :: rest =>
      if isHigh h && isLow l then .char (pairChar h l) :: codePoints rest
      else unitPoint h :: codePoints (l :: rest)

variable {c : Char} {h l u : UInt16} {s : List UInt16}

/-- The number of a character. -/
theorem char_valid (c : Char) :
    c.toNat < 0xd800 ∨ 0xdfff < c.toNat ∧ c.toNat < 0x110000 := c.valid

theorem unit_toNat {n : ℕ} (hn : n < 0x10000) : (UInt16.ofNat n).toNat = n := by
  simp only [UInt16.toNat_ofNat']
  omega

theorem unit_lt (u : UInt16) : u.toNat < 0x10000 := u.toNat_lt

/-- A unit that is no surrogate is a character. -/
theorem unit_valid (hsur : (isHigh u || isLow u) = false) : u.toNat.isValidChar := by
  have hlt := unit_lt u
  simp only [isHigh, isLow, Bool.or_eq_false_iff, decide_eq_false_iff_not] at hsur
  rw [Nat.isValidChar]
  omega

theorem utf16_unit (hsur : (isHigh u || isLow u) = false) : utf16 (Char.ofNat u.toNat) = [u] := by
  have hnat := toNat_ofNat (unit_valid hsur)
  have hlt := unit_lt u
  rw [utf16, hnat, if_pos hlt, UInt16.ofNat_toNat]

theorem units_unitPoint (u : UInt16) : (unitPoint u).units = [u] := by
  unfold unitPoint
  cases hsur : isHigh u || isLow u with
  | true => simp [CodePoint.units]
  | false => simpa [CodePoint.units] using utf16_unit hsur

/-- The pair of a character beyond U+FFFF. -/
theorem utf16_pairChar (hh : isHigh h = true) (hl : isLow l = true) :
    utf16 (pairChar h l) = [h, l] := by
  simp only [isHigh, isLow, decide_eq_true_eq] at hh hl
  have hnat : (pairChar h l).toNat =
      0x10000 + (h.toNat - 0xd800) * 0x400 + (l.toNat - 0xdc00) := by
    refine toNat_ofNat ?_
    rw [Nat.isValidChar]
    omega
  have hhigh : 0xd800 + ((pairChar h l).toNat - 0x10000) / 0x400 = h.toNat := by omega
  have hlow : 0xdc00 + ((pairChar h l).toNat - 0x10000) % 0x400 = l.toNat := by omega
  rw [utf16, if_neg (by omega), hhigh, hlow, UInt16.ofNat_toNat, UInt16.ofNat_toNat]

/-- The code points of a string give back its code units. -/
theorem codePoints_units (s : List UInt16) : (codePoints s).flatMap CodePoint.units = s := by
  induction s using codePoints.induct with
  | case1 => rfl
  | case2 u => simp [codePoints, units_unitPoint]
  | case3 h l rest hpair ih =>
      rw [codePoints, if_pos hpair, List.flatMap_cons, ih]
      rw [Bool.and_eq_true] at hpair
      rw [CodePoint.units, utf16_pairChar hpair.1 hpair.2]
      rfl
  | case4 h l rest hpair ih =>
      rw [codePoints, if_neg hpair, List.flatMap_cons, ih, units_unitPoint]
      rfl

/-- A unit that does not pair with the next one is a code point. -/
theorem codePoints_unit (hpair : isHigh u = true → ∀ l ∈ s.head?, isLow l = false) :
    codePoints (u :: s) = unitPoint u :: codePoints s := by
  cases s with
  | nil => rfl
  | cons l rest =>
      have hno : ¬ (isHigh u && isLow l) = true := by
        rw [Bool.and_eq_true]
        rintro ⟨hhigh, hlow⟩
        have hfalse := hpair hhigh l rfl
        rw [hlow] at hfalse
        cases hfalse
      rw [codePoints, if_neg hno]

/-- A character in front of a string is the first code point. -/
theorem codePoints_utf16 (c : Char) (s : List UInt16) :
    codePoints (utf16 c ++ s) = .char c :: codePoints s := by
  have hvalid := char_valid c
  rw [utf16]
  split_ifs with hsmall
  · have hnat := unit_toNat hsmall
    have hsur : (isHigh (UInt16.ofNat c.toNat) || isLow (UInt16.ofNat c.toNat)) = false := by
      simp only [isHigh, isLow, hnat, Bool.or_eq_false_iff, decide_eq_false_iff_not]
      omega
    have hhigh : isHigh (UInt16.ofNat c.toNat) = false := (Bool.or_eq_false_iff.mp hsur).1
    have hunit : unitPoint (UInt16.ofNat c.toNat) = .char c := by
      rw [unitPoint, hsur, if_neg (by decide), hnat, Char.ofNat_toNat]
    rw [List.singleton_append, codePoints_unit, hunit]
    intro htrue
    rw [hhigh] at htrue
    cases htrue
  · generalize hv : c.toNat - 0x10000 = v
    have hhigh : (UInt16.ofNat (0xd800 + v / 0x400)).toNat = 0xd800 + v / 0x400 :=
      unit_toNat (by omega)
    have hlow : (UInt16.ofNat (0xdc00 + v % 0x400)).toNat = 0xdc00 + v % 0x400 :=
      unit_toNat (by omega)
    have hpair : (isHigh (UInt16.ofNat (0xd800 + v / 0x400)) &&
        isLow (UInt16.ofNat (0xdc00 + v % 0x400))) = true := by
      simp only [isHigh, isLow, hhigh, hlow, Bool.and_eq_true, decide_eq_true_eq]
      omega
    have hchar : pairChar (UInt16.ofNat (0xd800 + v / 0x400)) (UInt16.ofNat (0xdc00 + v % 0x400)) =
        c := by
      have hcode : 0x10000 + (0xd800 + v / 0x400 - 0xd800) * 0x400 +
          (0xdc00 + v % 0x400 - 0xdc00) = c.toNat := by omega
      rw [pairChar, hhigh, hlow, hcode, Char.ofNat_toNat]
    simp only [List.cons_append, List.nil_append]
    rw [codePoints, if_pos hpair, hchar]

/-- Strings are read one after the other, where no pair is divided between them. -/
theorem codePoints_append {s' : List UInt16} (h : ∀ u ∈ s'.head?, isLow u = false) :
    codePoints (s ++ s') = codePoints s ++ codePoints s' := by
  induction s using codePoints.induct with
  | case1 => rfl
  | case2 u => exact codePoints_unit fun _ => h
  | case3 u l rest hpair ih =>
      rw [List.cons_append, List.cons_append, codePoints, codePoints, if_pos hpair, if_pos hpair,
        ih, List.cons_append]
  | case4 u l rest hpair ih =>
      rw [List.cons_append, List.cons_append, codePoints, codePoints, if_neg hpair, if_neg hpair,
        ← List.cons_append, ih, List.cons_append]

end OpenUnion.Text
