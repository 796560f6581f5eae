import Mathlib.Algebra.GroupWithZero.Nat
import Mathlib.Data.List.Infix
import Mathlib.Data.List.TakeWhile

/-!
# Texts and JSON values

The functions of strings the code uses, on the characters of a string, and the values
`JSON.parse` returns.  A number is kept as the text that prints it, and the members of an
object are in insertion order.
-/

namespace OpenUnion

/-- The white space that `trim` removes. -/
def isWhiteSpace (c : Char) : Bool :=
  let n := c.toNat
  decide (9 ≤ n ∧ n ≤ 13 ∨ n = 0x20 ∨ n = 0xa0 ∨ n = 0x1680 ∨ 0x2000 ≤ n ∧ n ≤ 0x200a ∨
    n = 0x2028 ∨ n = 0x2029 ∨ n = 0x202f ∨ n = 0x205f ∨ n = 0x3000 ∨ n = 0xfeff)

/-- `trim` of a string. -/
def trimmed (s : String) : String :=
  String.ofList (((s.toList.dropWhile isWhiteSpace).reverse.dropWhile isWhiteSpace).reverse)

/-- Without white space there is nothing to trim. -/
theorem trimmed_of_plain {s : String} (h : ∀ c ∈ s.toList, isWhiteSpace c = false) :
    trimmed s = s := by
  have hfront : s.toList.dropWhile isWhiteSpace = s.toList :=
    List.dropWhile_eq_self_iff.mpr fun hlen => by
      simpa using h _ (List.getElem_mem hlen)
  have hback : s.toList.reverse.dropWhile isWhiteSpace = s.toList.reverse :=
    List.dropWhile_eq_self_iff.mpr fun hlen => by
      simpa using h _ (List.mem_reverse.mp (List.getElem_mem hlen))
  rw [trimmed, hfront, hback, List.reverse_reverse, String.ofList_toList]

/-- `s.includes(t)`. -/
def includes (s t : String) : Bool := decide (t.toList <:+: s.toList)

/-- `s.startsWith(t)`. -/
def startsWith (s t : String) : Bool := decide (t.toList <+: s.toList)

/-- `s.slice(0, n)`. -/
def sliced (s : String) (n : Nat) : String := String.ofList (s.toList.take n)

/-- A JSON value. -/
inductive Json where
  | null
  | bool (b : Bool)
  | num (text : String)
  | str (s : String)
  | arr (elems : List Json)
  | obj (fields : List (String × Json))

namespace Json

/-- `value?.[key]`, of the values that have named members. -/
def get? : Json → String → Option Json
  | .obj fields, key => fields.lookup key
  | _, _ => none

/-- `typeof value?.[key] === "string" ? value[key] : ""`. -/
def stringAt (j : Json) (key : String) : String :=
  match j.get? key with
  | some (.str s) => s
  | _ => ""

def isNull : Json → Bool
  | .null => true
  | _ => false

mutual

/-- `String(value)`. -/
def toText : Json → String
  | .null => "null"
  | .bool true => "true"
  | .bool false => "false"
  | .num text => text
  | .str s => s
  | .arr elems => elemsText elems
  | .obj _ => "[object Object]"

/-- The elements of an array, joined with commas; `null` prints as nothing. -/
def elemsText : List Json → String
  | [] => ""
  | [j] => if j.isNull then "" else j.toText
  | j :: js => (if j.isNull then "" else j.toText) ++ "," ++ elemsText js

end

/-- `String(value?.[key] ?? fallback)`. -/
def textAt (j : Json) (key fallback : String) : String :=
  match j.get? key with
  | none | some .null => fallback
  | some v => v.toText

/-- The value counts as true. -/
def truthy : Json → Bool
  | .null => false
  | .bool b => b
  | .num text => decide (text ≠ "0")
  | .str s => decide (s ≠ "")
  | .arr _ | .obj _ => true

/-- `{ ...fields, [key]: value }`. -/
def setMember (fields : List (String × Json)) (key : String) (value : Json) :
    List (String × Json) :=
  match fields with
  | [] => [(key, value)]
  | (k, v) :: rest => if k = key then (k, value) :: rest else (k, v) :: setMember rest key value

/-- A hexadecimal digit. -/
def hexDigit (n : Nat) : Char := Char.ofNat (if n < 10 then 48 + n else 87 + n)

/-- A character inside a JSON string. -/
def escaped (c : Char) : List Char :=
  if c = '"' then ['\\', '"']
  else if c = '\\' then ['\\', '\\']
  else if c = '\n' then ['\\', 'n']
  else if c = '\r' then ['\\', 'r']
  else if c = '\t' then ['\\', 't']
  else if c.toNat = 8 then ['\\', 'b']
  else if c.toNat = 12 then ['\\', 'f']
  else if c.toNat < 32 then ['\\', 'u', '0', '0', hexDigit (c.toNat / 16), hexDigit (c.toNat % 16)]
  else [c]

/-- A JSON string. -/
def quoted (s : String) : List Char := '"' :: s.toList.flatMap escaped ++ ['"']

mutual

/-- `JSON.stringify`. -/
def stringify : Json → List Char
  | .null => "null".toList
  | .bool true => "true".toList
  | .bool false => "false".toList
  | .num text => text.toList
  | .str s => quoted s
  | .arr elems => '[' :: stringifyElems elems ++ [']']
  | .obj fields => '\x7b' :: stringifyFields fields ++ ['\x7d']

def stringifyElems : List Json → List Char
  | [] => []
  | [j] => j.stringify
  | j :: js => j.stringify ++ ',' :: stringifyElems js

def stringifyFields : List (String × Json) → List Char
  | [] => []
  | [(k, v)] => quoted k ++ ':' :: v.stringify
  | (k, v) :: rest => quoted k ++ ':' :: v.stringify ++ ',' :: stringifyFields rest

end

/-- The bytes of a text in UTF-8. -/
def utf8Bytes (cs : List Char) : Nat := (cs.map Char.utf8Size).sum

/-- `Buffer.byteLength(JSON.stringify(value), 'utf8')`. -/
@[irreducible] def byteLength (j : Json) : Nat := utf8Bytes j.stringify

mutual

/-- How deep a value is nested; a value without members is 0 deep. -/
def depth : Json → Nat
  | .arr (j :: js) => elemsDepth (j :: js) + 1
  | .obj (f :: fs) => fieldsDepth (f :: fs) + 1
  | _ => 0

def elemsDepth : List Json → Nat
  | [] => 0
  | j :: js => max j.depth (elemsDepth js)

def fieldsDepth : List (String × Json) → Nat
  | [] => 0
  | (_, v) :: rest => max v.depth (fieldsDepth rest)

end

mutual

/-- The keys of the objects in a value. -/
def keys : Json → List String
  | .arr elems => elemsKeys elems
  | .obj fields => fieldsKeys fields
  | _ => []

def elemsKeys : List Json → List String
  | [] => []
  | j :: js => j.keys ++ elemsKeys js

def fieldsKeys : List (String × Json) → List String
  | [] => []
  | (k, v) :: rest => k :: (v.keys ++ fieldsKeys rest)

end

end Json

end OpenUnion
