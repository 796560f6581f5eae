import Mathlib.Data.List.Infix

/-!
# Replacement texts with patterns

`replaceFirst` replaces the first occurrence of a text in another one.  The text that is put in its
place may hold patterns: `$$` stands for a dollar, `$&` for what was found, and a dollar before a
backtick or an apostrophe for what stands before and behind it.

* `substitute_of_no_pattern`: a text without patterns stands for itself.
* `exists_pattern`: a pattern in a text is met, or another one before it.
* `inserted_of_met`: what a pattern that is met stands for comes into the text.
* `substitute_itself`: where only `$$` is met, it does not matter what was found.
-/

namespace OpenUnion.Text

/-- What is before the first occurrence of a text, and what is behind it. -/
def splitFirst (found : List Char) : List Char → Option (List Char × List Char)
  | [] => if found = [] then some ([], []) else none
  | c :: cs =>
      if found.isPrefixOf (c :: cs) then some ([], (c :: cs).drop found.length)
      else (splitFirst found cs).map fun r => (c :: r.1, r.2)

/-- The patterns of a replacement text. -/
inductive Pattern where
  | dollar | found | before | behind
  deriving DecidableEq

/-- The character behind the dollar. -/
def Pattern.letter : Pattern → Char
  | .dollar => '$'
  | .found => '&'
  | .before => Char.ofNat 96
  | .behind => '\''

/-- The pattern as it is written. -/
def Pattern.text (p : Pattern) : List Char := ['$', p.letter]

/-- The pattern that two characters are. -/
def patternAt (c d : Char) : Option Pattern :=
  if c = '$' then [.dollar, .found, .before, .behind].find? fun p => p.letter = d else none

/-- An occurrence: what was found, and what is before and behind it. -/
structure Occurrence where
  found : List Char
  before : List Char
  behind : List Char

/-- What a pattern stands for. -/
def Occurrence.inserted (o : Occurrence) : Pattern → List Char
  | .dollar => ['$']
  | .found => o.found
  | .before => o.before
  | .behind => o.behind

/-- `GetSubstitution`: the text with its patterns replaced. -/
def substitute (o : Occurrence) : List Char → List Char
  | [] => []
  | [c] => [c]
  | c :: d :: rest =>
      match patternAt c d with
      | some p => o.inserted p ++ substitute o rest
      | none => c :: substitute o (d :: rest)

/-- `String.prototype.replace` with a text to look for. -/
def replaceFirst (s found replacement : List Char) : List Char :=
  match splitFirst found s with
  | none => s
  | some (before, behind) => before ++ (substitute ⟨found, before, behind⟩ replacement ++ behind)

/-- The patterns that are met, from left to right. -/
def patterns : List Char → List Pattern
  | [] => []
  | [_] => []
  | c :: d :: rest =>
      match patternAt c d with
      | some p => p :: patterns rest
      | none => patterns (d :: rest)

variable {o : Occurrence} {cs rest x : List Char} {c d : Char} {p : Pattern}

theorem patternAt_eq_some : patternAt c d = some p ↔ [c, d] = p.text := by
  unfold patternAt
  constructor
  · intro h
    split_ifs at h with hc
    have hd := List.find?_some h
    rw [decide_eq_true_eq] at hd
    rw [hc, ← hd]
    rfl
  · intro h
    obtain ⟨hc, htail⟩ := List.cons.inj h
    obtain ⟨hd, -⟩ := List.cons.inj htail
    subst hc hd
    rw [if_pos rfl]
    cases p <;> rfl

/-- A text without patterns stands for itself. -/
theorem substitute_of_no_pattern (h : patterns cs = []) : substitute o cs = cs := by
  induction cs using patterns.induct with
  | case1 => rfl
  | case2 c => rfl
  | case3 c d rest p hp ih =>
      rw [patterns, hp] at h
      cases h
  | case4 c d rest hp ih =>
      rw [patterns, hp] at h
      rw [substitute, hp]
      exact congrArg (c :: ·) (ih h)

/-- What a pattern that is met stands for comes into the text. -/
theorem inserted_of_met (h : p ∈ patterns cs) : o.inserted p <:+: substitute o cs := by
  induction cs using patterns.induct with
  | case1 => cases h
  | case2 c => cases h
  | case3 c d rest q hq ih =>
      rw [patterns, hq] at h
      rw [substitute, hq]
      rcases List.mem_cons.mp h with rfl | hrest
      · exact List.infix_append_left
      · exact (ih hrest).trans List.infix_append_right
  | case4 c d rest hq ih =>
      rw [patterns, hq] at h
      rw [substitute, hq]
      exact List.infix_cons (ih h)

/-- A pattern that is met is in the text. -/
theorem text_of_met (h : p ∈ patterns cs) : p.text <:+: cs := by
  induction cs using patterns.induct with
  | case1 => cases h
  | case2 c => cases h
  | case3 c d rest q hq ih =>
      rw [patterns, hq] at h
      rcases List.mem_cons.mp h with rfl | hrest
      · rw [← patternAt_eq_some.mp hq]
        exact List.infix_append_left
      · exact List.infix_cons (List.infix_cons (ih hrest))
  | case4 c d rest hq ih =>
      rw [patterns, hq] at h
      exact List.infix_cons (ih h)

/-- Where a pattern is in the text, it is met, or another one before it. -/
theorem exists_pattern (h : p.text <:+: cs) : ∃ q, q ∈ patterns cs := by
  induction cs using patterns.induct with
  | case1 =>
      have hlength := h.length_le
      simp [Pattern.text] at hlength
  | case2 c =>
      have hlength := h.length_le
      simp [Pattern.text] at hlength
  | case3 c d rest q hq ih =>
      refine ⟨q, ?_⟩
      rw [patterns, hq]
      exact List.mem_cons_self
  | case4 c d rest hq ih =>
      rw [patterns, hq]
      rcases List.infix_cons_iff.mp h with hprefix | hlater
      · obtain ⟨hc, htail⟩ := List.cons_prefix_cons.mp hprefix
        obtain ⟨hd, -⟩ := List.cons_prefix_cons.mp htail
        have hp : patternAt c d = some p := patternAt_eq_some.mpr (by rw [← hc, ← hd]; rfl)
        rw [hq] at hp
        cases hp
      · exact ih hlater

/-- An occurrence at which every pattern stands for itself, but for `$$`. -/
def Occurrence.itself : Occurrence := ⟨Pattern.found.text, Pattern.before.text, Pattern.behind.text⟩

/-- Where only `$$` is met, it does not matter what was found. -/
theorem substitute_itself (h : ∀ p ∈ patterns cs, p = .dollar) :
    substitute o cs = substitute .itself cs := by
  induction cs using patterns.induct with
  | case1 => rfl
  | case2 c => rfl
  | case3 c d rest p hp ih =>
      rw [patterns, hp, List.forall_mem_cons] at h
      rw [substitute, substitute, hp, ih h.2, h.1]
      rfl
  | case4 c d rest hp ih =>
      rw [patterns, hp] at h
      rw [substitute, substitute, hp, ih h]

theorem patternAt_ne (h : c ≠ '$') : patternAt c d = none := if_neg h

theorem substitute_cons (h : c ≠ '$') : substitute o (c :: cs) = c :: substitute o cs := by
  cases cs with
  | nil => rfl
  | cons d rest => rw [substitute, patternAt_ne h]

/-- In front of a text nothing changes up to a dollar. -/
theorem substitute_append (h : '$' ∉ x) : substitute o (x ++ cs) = x ++ substitute o cs := by
  induction x with
  | nil => rfl
  | cons c x ih =>
      rw [List.mem_cons, not_or] at h
      rw [List.cons_append, substitute_cons (Ne.symm h.1), ih h.2, List.cons_append]

/-- A character that belongs to no pattern divides the text. -/
theorem substitute_append_cons (hc : ∀ p : Pattern, c ∉ p.text) (x : List Char) :
    substitute o (x ++ c :: cs) = substitute o x ++ c :: substitute o cs := by
  have hdollar : c ≠ '$' := by
    rintro rfl
    exact hc .dollar List.mem_cons_self
  induction x using patterns.induct with
  | case1 => exact substitute_cons hdollar
  | case2 d =>
      have hnone : patternAt d c = none := by
        cases hp : patternAt d c with
        | none => rfl
        | some p =>
            have hmem : c ∈ [d, c] := List.mem_cons_of_mem _ List.mem_cons_self
            rw [patternAt_eq_some.mp hp] at hmem
            exact absurd hmem (hc p)
      have hsplit : substitute o (d :: c :: cs) = d :: substitute o (c :: cs) := by
        rw [substitute, hnone]
      rw [List.singleton_append, hsplit, substitute_cons hdollar]
      rfl
  | case3 a b rest p hp ih =>
      rw [List.cons_append, List.cons_append, substitute, substitute, hp, ih, List.append_assoc]
  | case4 a b rest hp ih =>
      rw [List.cons_append, List.cons_append, substitute, substitute, hp, ← List.cons_append, ih,
        List.cons_append]

end OpenUnion.Text
