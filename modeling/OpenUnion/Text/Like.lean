import Mathlib.Data.List.Infix

/-!
# LIKE patterns

The patterns of SQL's `LIKE`: `%` stands for any text, `_` for any one character, and a
backslash takes the next character as it is.

* `like_any`: a leading `%` asks for some suffix that matches the rest.
* `like_literal`: a text without special characters matches itself and nothing else.
* `like_self`: a text without a backslash matches itself, also where it has wildcards.
-/

namespace OpenUnion.Text

/-- A piece of a pattern. -/
inductive Token where
  | anyText
  | anyChar
  | char (c : Char)
  deriving DecidableEq

/-- The pieces of a pattern; `none` if it ends in an escape, which SQL reports as an error. -/
def tokens : List Char → Option (List Token)
  | [] => some []
  | ['\\'] => none
  | '\\' :: c :: pattern => (tokens pattern).map (.char c :: ·)
  | '%' :: pattern => (tokens pattern).map (.anyText :: ·)
  | '_' :: pattern => (tokens pattern).map (.anyChar :: ·)
  | c :: pattern => (tokens pattern).map (.char c :: ·)

/-- A text has the form of a pattern. -/
def fits : List Token → List Char → Bool
  | [], text => text.isEmpty
  | .anyText :: pattern, text => text.tails.any (fits pattern)
  | .anyChar :: pattern, text =>
      match text with
      | [] => false
      | _ :: text => fits pattern text
  | .char c :: pattern, text =>
      match text with
      | [] => false
      | x :: text => decide (x = c) && fits pattern text

/-- `text LIKE pattern`; a malformed pattern matches nothing here. -/
def like (pattern text : List Char) : Bool := (tokens pattern).any fun ts => fits ts text

/-- A wildcard. -/
def isWildcard (c : Char) : Bool := decide (c = '%' ∨ c = '_')

/-- The piece that a character other than a backslash is. -/
def tokenOf (c : Char) : Token :=
  if c = '%' then .anyText else if c = '_' then .anyChar else .char c

variable {pattern text : List Char}

theorem tokens_eq (h : '\\' ∉ pattern) : tokens pattern = some (pattern.map tokenOf) := by
  induction pattern with
  | nil => rfl
  | cons c pattern ih =>
      have hc : c ≠ '\\' := fun hc => h (by simp [hc])
      have hrest := ih fun hmem => h (List.mem_cons_of_mem _ hmem)
      by_cases hany : c = '%'
      · subst hany
        simp [tokens, hrest, tokenOf]
      by_cases hone : c = '_'
      · subst hone
        simp [tokens, hrest, tokenOf]
      · simp [tokens, hc, hany, hone, hrest, tokenOf]

theorem like_eq (h : '\\' ∉ pattern) : like pattern text = fits (pattern.map tokenOf) text := by
  simp [like, tokens_eq h]

/-- A leading `%`. -/
theorem like_any (h : '\\' ∉ pattern) :
    like ('%' :: pattern) text = true ↔ ∃ s, s <:+ text ∧ like pattern s = true := by
  have hcons : '\\' ∉ '%' :: pattern := by simp [h]
  rw [like_eq hcons]
  simp only [List.map_cons, tokenOf, if_true, fits, List.any_eq_true, List.mem_tails, like_eq h]

/-- A text without special characters. -/
theorem like_literal (h : '\\' ∉ pattern) (hplain : ∀ c ∈ pattern, isWildcard c = false) :
    like pattern text = true ↔ text = pattern := by
  rw [like_eq h]
  clear h
  induction pattern generalizing text with
  | nil => simp [fits]
  | cons c pattern ih =>
      have hc : tokenOf c = .char c := by
        have hcard := hplain c (by simp)
        simp only [isWildcard, decide_eq_false_iff_not, not_or] at hcard
        simp [tokenOf, hcard]
      have hrest : ∀ text, fits (pattern.map tokenOf) text = true ↔ text = pattern :=
        fun _ => ih fun x hx => hplain x (by simp [hx])
      cases text with
      | nil => simp [hc, fits]
      | cons x text => simp [hc, fits, hrest]

/-- A text without a backslash has its own form. -/
theorem like_self (h : '\\' ∉ pattern) : like pattern pattern = true := by
  rw [like_eq h]
  clear h
  induction pattern with
  | nil => rfl
  | cons c pattern ih =>
      by_cases hany : c = '%'
      · subst hany
        simp only [List.map_cons, tokenOf, if_true, fits, List.any_eq_true, List.mem_tails]
        exact ⟨pattern, List.suffix_cons _ _, ih⟩
      by_cases hone : c = '_'
      · subst hone
        simpa [tokenOf, fits] using ih
      · simpa [tokenOf, hany, hone, fits] using ih

end OpenUnion.Text
