import OpenUnion.Code.Descriptors

/-!
# The sensitive-key walk

`hasSensitiveKeys` with the limit it is given.  The routes leave the limit to its default, the
number of the environment variable, and that is a number like any other: it may be negative, a
fraction, infinite or not a number at all.

The members of an array are entries as well; their keys are digits, which no sensitive word
contains.
-/

namespace OpenUnion.Walk

/-- A number of the language, as a limit. -/
inductive Limit where
  | nan
  | negInfinity
  | infinity
  | finite (q : ℚ)

/-- `depth > maxDepth`. -/
def Limit.exceededBy (depth : ℕ) : Limit → Bool
  | .nan | .infinity => false
  | .negInfinity => true
  | .finite q => decide (q < depth)

section

variable (toLowerCase : String → String) (maxDepth : Limit)

/-- A key with one of the words in it. -/
def isSensitive (k : String) : Bool :=
  let key := toLowerCase k
  includes key "token" || includes key "secret" || includes key "password"

mutual

/-- `hasSensitiveKeys`. -/
def hasSensitiveKeys : Json → ℕ → Bool
  | .arr elems, depth => maxDepth.exceededBy depth || elemsSensitive elems (depth + 1)
  | .obj fields, depth => maxDepth.exceededBy depth || fieldsSensitive fields (depth + 1)
  | .null, depth | .bool _, depth | .num _, depth | .str _, depth => maxDepth.exceededBy depth

/-- The loop over the entries of an array. -/
def elemsSensitive : List Json → ℕ → Bool
  | [], _ => false
  | v :: rest, depth => hasSensitiveKeys v depth || elemsSensitive rest depth

/-- The loop over the entries of an object. -/
def fieldsSensitive : List (String × Json) → ℕ → Bool
  | [], _ => false
  | (k, v) :: rest, depth =>
      isSensitive toLowerCase k || hasSensitiveKeys v depth || fieldsSensitive rest depth

end

end

end OpenUnion.Walk
