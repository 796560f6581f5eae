import Mathlib.Algebra.Order.BigOperators.Group.List
import OpenUnion.JsonText.Search
import OpenUnion.Text.Substitute

/-!
# Replacement patterns in JSON text

A JSON text that is used as a replacement text, and in which no pattern is met but `$$`, is a JSON
text again: in its strings two dollars have become one.  The value has fewer dollars then.

* `substitute_document`: the text with its dollars merged.
* `strings_value_le`: a value has no strings that its document has not.
* `merged_value_ne`: the value is another one where two dollars have been merged.
-/

namespace OpenUnion.JsonText

open Text

/-- The items with two dollars as one, from left to right. -/
def mergeDollars : List Item → List Item
  | .plain '$' h :: .plain '$' _ :: rest => .plain '$' h :: mergeDollars rest
  | i :: rest => i :: mergeDollars rest
  | [] => []

mutual

/-- The document with a function applied to its strings and keys. -/
def Document.mapStrings (f : List Item → List Item) : Document → Document
  | .str items => .str (f items)
  | .arr elems => .arr (elems.mapStrings f)
  | .obj members => .obj (members.mapStrings f)
  | d => d

/-- The elements with a function applied to their strings. -/
def Elements.mapStrings (f : List Item → List Item) : Elements → Elements
  | .last before d after => .last before (d.mapStrings f) after
  | .more before d after rest => .more before (d.mapStrings f) after (rest.mapStrings f)

/-- The members with a function applied to their strings and keys. -/
def Members.mapStrings (f : List Item → List Item) : Members → Members
  | .last key before d after =>
      .last { key with items := f key.items } before (d.mapStrings f) after
  | .more key before d after rest =>
      .more { key with items := f key.items } before (d.mapStrings f) after (rest.mapStrings f)

end

/-- The sum of a weight over strings. -/
def totalOf (f : List UInt16 → ℕ) (strings : List (List UInt16)) : ℕ := (strings.map f).sum

/-- The number of dollars in a string. -/
def dollars (s : List UInt16) : ℕ := s.count 0x24

variable {ν : Type} {N : Numerals ν} {f : List Item → List Item} {g : List UInt16 → ℕ}
  {o : Occurrence} {x rest : List Char}

/-! ## The text -/

theorem no_dollar (h : Outside x) : '$' ∉ x := fun hmem => (h _ hmem).1 rfl

theorem quote_not_mem (p : Pattern) : '"' ∉ p.text := by
  cases p <;> decide

theorem inStrings_pattern (p : Pattern) : InStrings p.text :=
  ⟨quote_not_mem p, '$', _, rfl, .inl rfl⟩

/-- Between its quotes a string is substituted by itself. -/
theorem substitute_string (items : List Item) (rest : List Char) :
    substitute o ('"' :: (itemsText items ++ '"' :: rest)) =
      '"' :: (substitute o (itemsText items) ++ '"' :: substitute o rest) := by
  have hquote : '"' ≠ '$' := by decide
  rw [substitute_cons hquote, substitute_append_cons quote_not_mem]

theorem substitute_key (hf : ∀ items, itemsText (f items) = substitute o (itemsText items))
    (k : Key) (rest : List Char) : substitute o (k.text ++ rest) =
      Key.text { k with items := f k.items } ++ substitute o rest := by
  have htext : k.text ++ rest = k.before.chars ++
      '"' :: (itemsText k.items ++ '"' :: (k.after.chars ++ (':' :: rest))) := by
    simp [Key.text]
  have hcolon : ':' ≠ '$' := by decide
  rw [htext, substitute_append (no_dollar (outside_spaces _)), substitute_string,
    substitute_append (no_dollar (outside_spaces _)), substitute_cons hcolon, ← hf]
  simp [Key.text]

mutual

/-- In a document the patterns are replaced string by string. -/
theorem substitute_document (hf : ∀ items, itemsText (f items) = substitute o (itemsText items))
    (d : Document) (rest : List Char) :
    substitute o (d.text ++ rest) = (d.mapStrings f).text ++ substitute o rest := by
  have hsame (hd : Outside d.text) (hmap : d.mapStrings f = d) :
      substitute o (d.text ++ rest) = (d.mapStrings f).text ++ substitute o rest := by
    rw [hmap, substitute_append (no_dollar hd)]
  cases d with
  | null => exact hsame (by simp [Outside, Document.text]) rfl
  | bool b => cases b <;> exact hsame (by simp [Outside, Document.text]) rfl
  | num l => exact hsame (outside_literal l) rfl
  | emptyArr inside =>
      exact hsame (by simp [Document.text, outside_cons, outside_append, outside_spaces,
        outside_nil]) rfl
  | emptyObj inside =>
      exact hsame (by simp [Document.text, outside_cons, outside_append, outside_spaces,
        outside_nil]) rfl
  | str items =>
      have htext : (Document.str items).text ++ rest = '"' :: (itemsText items ++ '"' :: rest) := by
        simp [Document.text]
      rw [htext, substitute_string, ← hf]
      simp [Document.mapStrings, Document.text]
  | arr elems =>
      have hopen : '[' ≠ '$' := by decide
      rw [Document.text, List.cons_append, substitute_cons hopen, substitute_elements hf elems rest]
      rfl
  | obj members =>
      have hopen : '\x7b' ≠ '$' := by decide
      rw [Document.text, List.cons_append, substitute_cons hopen,
        substitute_members hf members rest]
      rfl

theorem substitute_elements (hf : ∀ items, itemsText (f items) = substitute o (itemsText items))
    (es : Elements) (rest : List Char) :
    substitute o (es.text ++ rest) = (es.mapStrings f).text ++ substitute o rest := by
  have hclose : ']' ≠ '$' := by decide
  have hcomma : ',' ≠ '$' := by decide
  cases es with
  | last before d after =>
      simp only [Elements.text, Elements.mapStrings, List.append_assoc, List.cons_append,
        List.nil_append]
      rw [substitute_append (no_dollar (outside_spaces _)), substitute_document hf d,
        substitute_append (no_dollar (outside_spaces _)), substitute_cons hclose]
  | more before d after more =>
      simp only [Elements.text, Elements.mapStrings, List.append_assoc, List.cons_append]
      rw [substitute_append (no_dollar (outside_spaces _)), substitute_document hf d,
        substitute_append (no_dollar (outside_spaces _)), substitute_cons hcomma,
        substitute_elements hf more rest]

theorem substitute_members (hf : ∀ items, itemsText (f items) = substitute o (itemsText items))
    (ms : Members) (rest : List Char) :
    substitute o (ms.text ++ rest) = (ms.mapStrings f).text ++ substitute o rest := by
  have hclose : '\x7d' ≠ '$' := by decide
  have hcomma : ',' ≠ '$' := by decide
  cases ms with
  | last key before d after =>
      simp only [Members.text, Members.mapStrings, List.append_assoc, List.cons_append,
        List.nil_append]
      rw [substitute_key hf, substitute_append (no_dollar (outside_spaces _)),
        substitute_document hf d, substitute_append (no_dollar (outside_spaces _)),
        substitute_cons hclose]
  | more key before d after more =>
      simp only [Members.text, Members.mapStrings, List.append_assoc, List.cons_append]
      rw [substitute_key hf, substitute_append (no_dollar (outside_spaces _)),
        substitute_document hf d, substitute_append (no_dollar (outside_spaces _)),
        substitute_cons hcomma, substitute_members hf more rest]

end

mutual

/-- The strings of the document. -/
theorem strings_mapStrings (f : List Item → List Item) (d : Document) :
    (d.mapStrings f).strings = d.strings.map f := by
  cases d with
  | null | bool _ | num _ | emptyArr _ | emptyObj _ | str _ => rfl
  | arr elems => exact strings_mapElements f elems
  | obj members => exact strings_mapMembers f members

theorem strings_mapElements (f : List Item → List Item) (es : Elements) :
    (es.mapStrings f).strings = es.strings.map f := by
  cases es with
  | last before d after => exact strings_mapStrings f d
  | more before d after rest =>
      rw [Elements.mapStrings, Elements.strings, strings_mapStrings f d, strings_mapElements f rest,
        Elements.strings, List.map_append]

theorem strings_mapMembers (f : List Item → List Item) (ms : Members) :
    (ms.mapStrings f).strings = ms.strings.map f := by
  cases ms with
  | last key before d after => exact congrArg (f key.items :: ·) (strings_mapStrings f d)
  | more key before d after rest =>
      rw [Members.mapStrings, Members.strings, strings_mapStrings f d, strings_mapMembers f rest,
        Members.strings, List.map_cons, List.map_append]

end

/-! ## Merging two dollars -/

theorem substitute_dollar {cs : List Char} (h : cs.head? ≠ some '$') :
    substitute .itself ('$' :: cs) = '$' :: substitute .itself cs := by
  cases cs with
  | nil => rfl
  | cons d more =>
      have hd : d ≠ '$' := fun heq => h (congrArg some heq)
      rw [substitute_cons hd]
      cases hp : patternAt '$' d with
      | none => rw [substitute, hp, substitute_cons hd]
      | some p =>
          have htext := patternAt_eq_some.mp hp
          rw [substitute, hp]
          cases p with
          | dollar => exact absurd (List.cons.inj (List.cons.inj htext).2).1 hd
          | found | before | behind =>
              obtain rfl := (List.cons.inj (List.cons.inj htext).2).1
              rfl

/-- Where no two dollars can be merged, the text behind a dollar starts otherwise. -/
theorem head_itemsText {rest : List Item}
    (h : ∀ hc more, rest ≠ .plain '$' hc :: more) : (itemsText rest).head? ≠ some '$' := by
  cases rest with
  | nil =>
      intro heq
      cases heq
  | cons i more =>
      cases i with
      | plain c hc =>
          intro heq
          obtain rfl : c = '$' := Option.some.inj heq
          exact h hc more rfl
      | short e =>
          intro heq
          exact absurd (Option.some.inj heq) (by decide)
      | unicode a b c d =>
          intro heq
          exact absurd (Option.some.inj heq) (by decide)

/-- The text of the items with two dollars as one. -/
theorem itemsText_mergeDollars (items : List Item) :
    itemsText (mergeDollars items) = substitute .itself (itemsText items) := by
  induction items using mergeDollars.induct with
  | case1 h h' rest ih => exact congrArg ('$' :: ·) ih
  | case2 i rest hno ih =>
      have hcons (more : List Item) : itemsText (i :: more) = i.text ++ itemsText more := rfl
      rw [mergeDollars.eq_2 i rest hno, hcons, hcons, ih]
      cases i with
      | plain c hc =>
          by_cases hdollar : c = '$'
          · subst hdollar
            have hhead : (itemsText rest).head? ≠ some '$' :=
              head_itemsText fun hc' more heq => hno hc hc' more rfl heq
            exact (substitute_dollar hhead).symm
          · exact (substitute_cons hdollar).symm
      | short e =>
          exact (substitute_append (no_dollar (outside_escape fun c hc => Item.noConfusion))).symm
      | unicode a b c d =>
          exact (substitute_append (no_dollar (outside_escape fun c hc => Item.noConfusion))).symm
  | case3 => rfl

theorem dollars_append (s s' : List UInt16) : dollars (s ++ s') = dollars s + dollars s' :=
  List.count_append

/-- Two dollars that become one. -/
theorem dollars_merged (h h' : isPlain '$' = true) (rest : List Item) :
    dollars (itemsUnits (.plain '$' h :: .plain '$' h' :: rest)) =
      dollars (itemsUnits (.plain '$' h :: rest)) + 1 := by
  have hunits (more : List Item) :
      dollars (itemsUnits (.plain '$' h :: more)) = dollars (itemsUnits more) + 1 :=
    List.count_cons_self
  rw [hunits, hunits]

theorem dollars_mergeDollars_le (items : List Item) :
    dollars (itemsUnits (mergeDollars items)) ≤ dollars (itemsUnits items) := by
  have hcons (i : Item) (more : List Item) :
      dollars (itemsUnits (i :: more)) = dollars i.units + dollars (itemsUnits more) :=
    dollars_append _ _
  induction items using mergeDollars.induct with
  | case1 h h' rest ih =>
      rw [dollars_merged, mergeDollars.eq_1, hcons, hcons]
      omega
  | case2 i rest hno ih =>
      rw [mergeDollars.eq_2 i rest hno, hcons, hcons]
      omega
  | case3 => exact le_rfl

/-- Where there are two dollars, they have become one. -/
theorem dollars_mergeDollars_lt {items : List Item} (h : Pattern.dollar.text <:+: itemsText items) :
    dollars (itemsUnits (mergeDollars items)) < dollars (itemsUnits items) := by
  have hcons (i : Item) (more : List Item) :
      dollars (itemsUnits (i :: more)) = dollars i.units + dollars (itemsUnits more) :=
    dollars_append _ _
  have hmark := inStrings_pattern .dollar
  induction items using mergeDollars.induct with
  | case1 hc hc' rest ih =>
      have hle := dollars_mergeDollars_le rest
      rw [dollars_merged, mergeDollars.eq_1, hcons, hcons]
      omega
  | case2 i rest hno ih =>
      have hrest : Pattern.dollar.text <:+: itemsText rest := by
        have htext : itemsText (i :: rest) = i.text ++ itemsText rest := rfl
        rw [htext] at h
        cases i with
        | plain c hc =>
            rcases List.infix_cons_iff.mp h with hprefix | hlater
            · obtain ⟨hdollar, htail⟩ := List.cons_prefix_cons.mp hprefix
              subst hdollar
              have hhead : (itemsText rest).head? ≠ some '$' :=
                head_itemsText fun hc' more heq => hno hc hc' more rfl heq
              obtain ⟨more, hmore⟩ := htail
              exact absurd (congrArg List.head? hmore).symm hhead
            · exact hlater
        | short e => exact hmark.skip (outside_escape fun c hc => Item.noConfusion) h
        | unicode a b c d => exact hmark.skip (outside_escape fun c hc => Item.noConfusion) h
      have hless := ih hrest
      rw [mergeDollars.eq_2 i rest hno, hcons, hcons]
      omega
  | case3 =>
      have hlength := h.length_le
      exact absurd hlength (by decide)

/-! ## The strings of a value -/

theorem totalOf_append (g : List UInt16 → ℕ) (a b : List (List UInt16)) :
    totalOf g (a ++ b) = totalOf g a + totalOf g b := by
  rw [totalOf, List.map_append, List.sum_append]
  rfl

theorem totalOf_cons (g : List UInt16 → ℕ) (s : List UInt16) (a : List (List UInt16)) :
    totalOf g (s :: a) = g s + totalOf g a := by
  rw [totalOf, List.map_cons, List.sum_cons]
  rfl

/-- A property that is created or replaced brings its own strings only. -/
theorem strings_define_le (key : List UInt16) (v : Value ν) (ms : List (List UInt16 × Value ν)) :
    totalOf g (memberStrings (define key v ms)) ≤
      g key + totalOf g v.strings + totalOf g (memberStrings ms) := by
  induction ms with
  | nil =>
      simp only [define, memberStrings, totalOf_cons, totalOf_append]
      omega
  | cons m ms ih =>
      rw [define]
      split_ifs <;> simp only [memberStrings, totalOf_cons, totalOf_append] at ih ⊢ <;> omega

/-- An object has no strings that its members have not. -/
theorem strings_object_le (ms : List (List UInt16 × Value ν)) :
    totalOf g (memberStrings (object ms)) ≤ totalOf g (memberStrings ms) := by
  have hrun (ms built : List (List UInt16 × Value ν)) :
      totalOf g (memberStrings (ms.foldl (fun o m => define m.1 m.2 o) built)) ≤
        totalOf g (memberStrings built) + totalOf g (memberStrings ms) := by
    induction ms generalizing built with
    | nil => exact Nat.le_add_right _ _
    | cons m ms ih =>
        have hstep := strings_define_le (g := g) m.1 m.2 built
        have hrest := ih (define m.1 m.2 built)
        simp only [List.foldl_cons, memberStrings, totalOf_cons, totalOf_append]
        omega
  have hall := hrun ms []
  simp only [memberStrings] at hall
  exact hall.trans_eq (Nat.zero_add _)

mutual

/-- A value has no strings that its document has not. -/
theorem strings_value_le (g : List UInt16 → ℕ) (N : Numerals ν) (d : Document) :
    totalOf g (d.value N).strings ≤ totalOf g (d.strings.map itemsUnits) := by
  cases d with
  | null | bool _ | num _ | emptyArr _ | emptyObj _ | str _ => exact le_rfl
  | arr elems => exact strings_values_le g N elems
  | obj members =>
      exact (strings_object_le _).trans (strings_memberValues_le g N members)

theorem strings_values_le (g : List UInt16 → ℕ) (N : Numerals ν) (es : Elements) :
    totalOf g (elemStrings (es.values N)) ≤ totalOf g (es.strings.map itemsUnits) := by
  cases es with
  | last before d after =>
      have hd := strings_value_le g N d
      simp only [Elements.values, elemStrings, List.append_nil]
      exact hd
  | more before d after rest =>
      have hd := strings_value_le g N d
      have hrest := strings_values_le g N rest
      simp only [Elements.values, elemStrings, Elements.strings, List.map_append, totalOf_append]
      omega

theorem strings_memberValues_le (g : List UInt16 → ℕ) (N : Numerals ν) (ms : Members) :
    totalOf g (memberStrings (ms.values N)) ≤ totalOf g (ms.strings.map itemsUnits) := by
  cases ms with
  | last key before d after =>
      have hd := strings_value_le g N d
      simp only [Members.values, memberStrings, Members.strings, List.map_cons, totalOf_cons,
        List.append_nil]
      omega
  | more key before d after rest =>
      have hd := strings_value_le g N d
      have hrest := strings_memberValues_le g N rest
      simp only [Members.values, memberStrings, Members.strings, List.map_cons, List.map_append,
        totalOf_cons, totalOf_append]
      omega

end

/-- The document that a value is printed as, with two dollars as one. -/
def Value.merged (N : Numerals ν) (v : Value ν) : Document :=
  (v.document N).mapStrings mergeDollars

theorem text_merged (v : Value ν) : (v.merged N).text = substitute .itself (v.stringify N) := by
  have htext := substitute_document (o := .itself) itemsText_mergeDollars (v.document N) []
  rw [List.append_nil] at htext
  rw [Value.stringify, htext]
  exact (List.append_nil _).symm

/-- The value is another one where two dollars have become one. -/
theorem merged_value_ne {v : Value ν} (h : Pattern.dollar.text <:+: v.stringify N) :
    (v.merged N).value N ≠ v := by
  have hmark := inStrings_pattern .dollar
  rw [stringify_chars] at h
  intro heq
  have hle := strings_value_le dollars N (v.merged N)
  rw [heq, Value.merged, strings_mapStrings] at hle
  have hunits : v.strings = (v.document N).strings.map itemsUnits := by
    have hid : itemsUnits ∘ quoteItems = id := funext units_quoteItems
    rw [strings_document, List.map_map, hid, List.map_id]
  rw [hunits, totalOf, totalOf, List.map_map, List.map_map, List.map_map] at hle
  refine absurd hle (not_le.mpr (List.sum_lt_sum _ _ ?_ ?_))
  · intro items _
    exact dollars_mergeDollars_le items
  · obtain ⟨items, hmem, hfound⟩ := infix_spaced hmark _ h
    exact ⟨items, hmem, dollars_mergeDollars_lt hfound⟩

end OpenUnion.JsonText
