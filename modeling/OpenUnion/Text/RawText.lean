import Mathlib.Data.List.Infix

/-!
# The raw text of a script element

The text of a script element goes on to the first closing tag, whatever the case of its letters.

* `rawText_append`, `rawText_closed`: the text is divided, and no closing tag is in the first part.
* `rawText_eq`: a text without closing tags goes on to the first one behind it.
-/

namespace OpenUnion.Text

/-- The beginning of a closing tag, in letters of either case. -/
def ClosingTag (tag : List Char) : Prop :=
  tag.map Char.toLower = ['<', '/', 's', 'c', 'r', 'i', 'p', 't']

instance (tag : List Char) : Decidable (ClosingTag tag) :=
  inferInstanceAs (Decidable (tag.map Char.toLower = ['<', '/', 's', 'c', 'r', 'i', 'p', 't']))

/-- The raw text, and the rest of the page from its closing tag on. -/
def rawText : List Char → List Char × List Char
  | [] => ([], [])
  | c :: cs =>
      if ClosingTag ((c :: cs).take 8) then ([], c :: cs)
      else (c :: (rawText cs).1, (rawText cs).2)

variable {tag x rest cs : List Char}

theorem ClosingTag.length (h : ClosingTag tag) : tag.length = 8 := by
  rw [← List.length_map Char.toLower, h]
  rfl

/-- A character is its own lower case, or a capital letter. -/
theorem toLower_cases (c : Char) :
    c.toLower = c ∨ (65 ≤ c.toNat ∧ c.toNat ≤ 90) ∧ c.toLower.toNat = c.toNat + 32 := by
  unfold Char.toLower
  split_ifs with hcapital
  · right
    have hlow : 65 ≤ c.toNat := UInt32.le_iff_toNat_le.mp hcapital.1
    have hhigh : c.toNat ≤ 90 := UInt32.le_iff_toNat_le.mp hcapital.2
    refine ⟨⟨hlow, hhigh⟩, ?_⟩
    have hsum : (c.val + ('a'.val - 'A'.val)).toNat = (c.val.toNat + 32) % 2 ^ 32 :=
      UInt32.toNat_add c.val 32
    have hval : c.val.toNat = c.toNat := rfl
    rw [hval] at hsum
    exact hsum.trans (by omega)
  · exact .inl rfl

/-- A closing tag begins with a less-than sign. -/
theorem ClosingTag.head (h : ClosingTag tag) : ∃ more, tag = '<' :: more := by
  cases tag with
  | nil => cases h
  | cons t more =>
      have ht : t.toLower = '<' := (List.cons.inj h).1
      rcases toLower_cases t with hsame | ⟨hcapital, hlower⟩
      · exact ⟨more, by rw [← hsame, ht]⟩
      · rw [ht] at hlower
        have hless : '<'.toNat = 60 := rfl
        omega

/-- The text is divided. -/
theorem rawText_append (cs : List Char) : (rawText cs).1 ++ (rawText cs).2 = cs := by
  induction cs with
  | nil => rfl
  | cons c cs ih =>
      rw [rawText]
      split_ifs with hclosing
      · rfl
      · exact congrArg (c :: ·) ih

/-- No closing tag is in the raw text. -/
theorem rawText_closed (h : ClosingTag tag) : ¬ tag <:+: (rawText cs).1 := by
  have hlength := h.length
  induction cs with
  | nil =>
      intro hinfix
      have hle := hinfix.length_le
      rw [hlength] at hle
      simp [rawText] at hle
  | cons c cs ih =>
      rw [rawText]
      split_ifs with hclosing
      · intro hinfix
        have hle := hinfix.length_le
        rw [hlength] at hle
        simp at hle
      · intro hinfix
        rcases List.infix_cons_iff.mp hinfix with hprefix | hlater
        · have hwhole : tag <+: c :: cs := by
            have hmore := List.prefix_append (c :: (rawText cs).1) (rawText cs).2
            rw [List.cons_append, rawText_append] at hmore
            exact hprefix.trans hmore
          have htake : (c :: cs).take 8 = tag := by
            rw [← hlength]
            exact (List.prefix_iff_eq_take.mp hwhole).symm
          rw [htake] at hclosing
          exact hclosing h
        · exact ih hlater

/-- A closing tag cannot begin in front of another one and go on into it. -/
theorem not_closing_overlap {c : Char} {y : List Char} :
    ¬ ClosingTag (c :: (x ++ '<' :: y)) := by
  intro h
  have hless : '<'.toLower = '<' := rfl
  unfold ClosingTag at h
  rw [List.map_cons, List.map_append, List.map_cons, hless] at h
  have hrest := (List.cons.inj h).2
  have hmem : '<' ∈ x.map Char.toLower ++ '<' :: y.map Char.toLower :=
    List.mem_append_right _ List.mem_cons_self
  rw [hrest] at hmem
  exact absurd hmem (by decide)

/-- A text without closing tags goes on to the first one behind it. -/
theorem rawText_eq (hclean : ∀ tag, ClosingTag tag → ¬ tag <:+: x) (htag : ClosingTag tag) :
    rawText (x ++ (tag ++ rest)) = (x, tag ++ rest) := by
  have hlength := htag.length
  obtain ⟨more, rfl⟩ := htag.head
  induction x with
  | nil =>
      have htake : ('<' :: (more ++ rest)).take 8 = '<' :: more := by
        rw [← hlength]
        exact List.take_left
      rw [List.nil_append, List.cons_append, rawText, htake, if_pos htag]
  | cons c x ih =>
      have hopen : ¬ ClosingTag ((c :: (x ++ ('<' :: more ++ rest))).take 8) := by
        intro hclosing
        rcases Nat.lt_or_ge x.length 7 with hshort | hlong
        · obtain ⟨n, hn⟩ : ∃ n, 7 - x.length = n + 1 := ⟨7 - x.length - 1, by omega⟩
          have htake : (c :: (x ++ ('<' :: more ++ rest))).take 8 =
              c :: (x ++ '<' :: (more ++ rest).take n) := by
            rw [List.take_succ_cons, List.take_append, List.take_of_length_le hshort.le, hn]
            rfl
          rw [htake] at hclosing
          exact not_closing_overlap hclosing
        · have htake : (c :: (x ++ ('<' :: more ++ rest))).take 8 = (c :: x).take 8 := by
            rw [← List.cons_append]
            exact List.take_append_of_le_length (Nat.succ_le_succ hlong)
          rw [htake] at hclosing
          exact hclean _ hclosing (List.take_prefix 8 (c :: x)).isInfix
      have hrest : ∀ tag, ClosingTag tag → ¬ tag <:+: x := fun tag h hinfix =>
        hclean tag h (List.infix_cons hinfix)
      rw [List.cons_append, rawText, if_neg hopen, ih hrest]

end OpenUnion.Text
