import Mathlib.Data.List.Infix
import OpenUnion.JsonText.Value

/-!
# Text in JSON text

A dollar or a less-than sign stands only in the strings of a JSON text, so that a text that starts
with one of them and holds no quotation mark is found in a document just if it is found in one of
its strings.

* `infix_document`, `infix_of_string`: a text is found in a document just if it is found in one of
  its strings.
* `strings_document`: the strings of the document that a value is printed as.
* `infix_quoteItems`: a text of plain characters is found in a string just if it is found in its
  spelling.
* `infix_stringify`: it is found in a printed value just if it is found in one of its strings.
-/

namespace OpenUnion.JsonText

open Text

mutual

/-- The strings and the keys of a document. -/
def Document.strings : Document → List (List Item)
  | .null | .bool _ | .num _ | .emptyArr _ | .emptyObj _ => []
  | .str items => [items]
  | .arr elems => elems.strings
  | .obj members => members.strings

/-- The strings and the keys of elements. -/
def Elements.strings : Elements → List (List Item)
  | .last _ d _ => d.strings
  | .more _ d _ rest => d.strings ++ rest.strings

/-- The strings and the keys of members. -/
def Members.strings : Members → List (List Item)
  | .last key _ d _ => key.items :: d.strings
  | .more key _ d _ rest => key.items :: (d.strings ++ rest.strings)

end

mutual

/-- The strings and the keys of a value. -/
def Value.strings {ν : Type} : Value ν → List (List UInt16)
  | .null | .bool _ | .num _ => []
  | .str s => [s]
  | .arr elems => elemStrings elems
  | .obj members => memberStrings members

/-- The strings and the keys of elements. -/
def elemStrings {ν : Type} : List (Value ν) → List (List UInt16)
  | [] => []
  | v :: vs => v.strings ++ elemStrings vs

/-- The strings and the keys of members. -/
def memberStrings {ν : Type} : List (List UInt16 × Value ν) → List (List UInt16)
  | [] => []
  | (key, v) :: ms => key :: (v.strings ++ memberStrings ms)

end

/-- A text that stands only in strings. -/
structure InStrings (text : List Char) : Prop where
  unquoted : '"' ∉ text
  start : ∃ c more, text = c :: more ∧ (c = '$' ∨ c = '<')

/-- A text without dollars and less-than signs. -/
def Outside (x : List Char) : Prop := ∀ c ∈ x, c ≠ '$' ∧ c ≠ '<'

variable {ν : Type} {N : Numerals ν} {text x y rest : List Char} {c : Char}

/-! ## Finding a text -/

theorem outside_cons : Outside (c :: x) ↔ (c ≠ '$' ∧ c ≠ '<') ∧ Outside x := List.forall_mem_cons

theorem outside_append : Outside (x ++ y) ↔ Outside x ∧ Outside y := List.forall_mem_append

theorem outside_nil : Outside [] := fun _ h => absurd h List.not_mem_nil

theorem outside_of_isDigit (h : ∀ c ∈ x, c.isDigit = true) : Outside x := by
  intro c hc
  have hdigit := h c hc
  constructor
  · rintro rfl
    exact absurd hdigit (by decide)
  · rintro rfl
    exact absurd hdigit (by decide)

theorem outside_spaces (w : Spaces) : Outside w.chars := by
  intro c hc
  have hspace := w.spaces c hc
  constructor
  · rintro rfl
    exact absurd hspace (by decide)
  · rintro rfl
    exact absurd hspace (by decide)

theorem outside_sign (s : Sign) : Outside s.text := by
  cases s <;> simp [Outside, Sign.text]

/-- A number is outside strings. -/
theorem outside_literal (l : Literal) : Outside l.text := by
  have hsign : Outside (if l.negative = true then ['-'] else []) := by
    split_ifs <;> simp [Outside]
  have hfraction : Outside (fractionText l.fraction) := by
    cases l.fraction with
    | none => exact outside_nil
    | some f => exact outside_cons.mpr ⟨by decide, outside_of_isDigit f.digits⟩
  have hexponent : Outside (exponentText l.exponent) := by
    cases l.exponent with
    | none => exact outside_nil
    | some e =>
        have hletter : (if e.capital = true then 'E' else 'e') ≠ '$' ∧
            (if e.capital = true then 'E' else 'e') ≠ '<' := by
          cases e.capital <;> decide
        exact outside_cons.mpr ⟨hletter,
          outside_append.mpr ⟨outside_sign e.sign, outside_of_isDigit e.digits.digits⟩⟩
  rw [Literal.text]
  exact outside_append.mpr ⟨hsign, outside_append.mpr ⟨outside_of_isDigit l.whole.digits,
    outside_append.mpr ⟨hfraction, hexponent⟩⟩⟩

/-- A text is not found where it cannot start. -/
theorem InStrings.skip (h : InStrings text) (hx : Outside x) (hin : text <:+: x ++ rest) :
    text <:+: rest := by
  obtain ⟨c, more, rfl, hc⟩ := h.start
  induction x with
  | nil => exact hin
  | cons d x ih =>
      obtain ⟨hd, hx⟩ := outside_cons.mp hx
      rcases List.infix_cons_iff.mp hin with hprefix | hlater
      · obtain ⟨rfl, -⟩ := List.cons_prefix_cons.mp hprefix
        exact absurd hc (not_or.mpr hd)
      · exact ih hx hlater

theorem prefix_of_unquoted (h : '"' ∉ text) (hin : text <+: x ++ '"' :: rest) : text <+: x := by
  induction text generalizing x with
  | nil => exact List.nil_prefix
  | cons c text ih =>
      rw [List.mem_cons, not_or] at h
      cases x with
      | nil =>
          obtain ⟨rfl, -⟩ := List.cons_prefix_cons.mp hin
          exact absurd rfl h.1
      | cons d x =>
          rw [List.cons_append] at hin
          obtain ⟨hhead, htail⟩ := List.cons_prefix_cons.mp hin
          rw [hhead]
          exact List.cons_prefix_cons.mpr ⟨rfl, ih h.2 htail⟩

/-- A text without quotation marks is found on one side of one. -/
theorem infix_of_unquoted (h : '"' ∉ text) (hin : text <:+: x ++ '"' :: rest) :
    text <:+: x ∨ text <:+: rest := by
  induction x with
  | nil =>
      rcases List.infix_cons_iff.mp hin with hprefix | hlater
      · have hnil : text <+: [] := prefix_of_unquoted h hprefix
        exact .inl hnil.isInfix
      · exact .inr hlater
  | cons d x ih =>
      rcases List.infix_cons_iff.mp hin with hprefix | hlater
      · exact .inl (prefix_of_unquoted h hprefix).isInfix
      · exact (ih hlater).imp_left List.infix_cons

/-- A text is found in a string or behind it. -/
theorem InStrings.string (h : InStrings text) {items : List Item}
    (hin : text <:+: '"' :: (itemsText items ++ '"' :: rest)) :
    text <:+: itemsText items ∨ text <:+: rest := by
  have hquote : Outside ['"'] := by simp [Outside]
  exact infix_of_unquoted h.unquoted (h.skip hquote hin)

/-- A text is found in a key or behind its colon. -/
theorem InStrings.key (h : InStrings text) {k : Key} (hin : text <:+: k.text ++ rest) :
    text <:+: itemsText k.items ∨ text <:+: rest := by
  have htext : k.text ++ rest = k.before.chars ++
      '"' :: (itemsText k.items ++ '"' :: (k.after.chars ++ (':' :: rest))) := by
    simp [Key.text]
  rw [htext] at hin
  refine (h.string (h.skip (outside_spaces _) hin)).imp_right fun hbehind => ?_
  have hcolon : Outside [':'] := by simp [Outside]
  exact h.skip hcolon (h.skip (outside_spaces _) hbehind)

mutual

/-- A text that is found in a document is found in one of its strings. -/
theorem infix_document (h : InStrings text) (d : Document) (rest : List Char)
    (hin : text <:+: d.text ++ rest) :
    (∃ items ∈ d.strings, text <:+: itemsText items) ∨ text <:+: rest := by
  cases d with
  | null => exact .inr (h.skip (by simp [Outside, Document.text]) hin)
  | bool b => cases b <;> exact .inr (h.skip (by simp [Outside, Document.text]) hin)
  | num l => exact .inr (h.skip (outside_literal l) hin)
  | str items =>
      simp only [Document.text, List.cons_append, List.append_assoc, List.nil_append] at hin
      exact (h.string hin).imp_left fun hfound => ⟨items, List.mem_singleton_self _, hfound⟩
  | emptyArr inside =>
      have hx : Outside ('[' :: (inside.chars ++ [']'])) := by
        simp [outside_cons, outside_append, outside_spaces, outside_nil]
      exact .inr (h.skip hx hin)
  | emptyObj inside =>
      have hx : Outside ('\x7b' :: (inside.chars ++ ['\x7d'])) := by
        simp [outside_cons, outside_append, outside_spaces, outside_nil]
      exact .inr (h.skip hx hin)
  | arr elems =>
      have hopen : Outside ['['] := by simp [Outside]
      exact infix_elements h elems rest (h.skip hopen hin)
  | obj members =>
      have hopen : Outside ['\x7b'] := by simp [Outside]
      exact infix_members h members rest (h.skip hopen hin)

theorem infix_elements (h : InStrings text) (es : Elements) (rest : List Char)
    (hin : text <:+: es.text ++ rest) :
    (∃ items ∈ es.strings, text <:+: itemsText items) ∨ text <:+: rest := by
  cases es with
  | last before d after =>
      simp only [Elements.text, List.append_assoc] at hin
      have hclose : Outside (after.chars ++ [']']) := by
        simp [outside_cons, outside_append, outside_spaces, outside_nil]
      rcases infix_document h d _ (h.skip (outside_spaces _) hin) with hfound | hbehind
      · exact .inl hfound
      · rw [← List.append_assoc] at hbehind
        exact .inr (h.skip hclose hbehind)
  | more before d after more =>
      simp only [Elements.text, List.append_assoc, List.cons_append] at hin
      have hcomma : Outside [','] := by simp [Outside]
      rcases infix_document h d _ (h.skip (outside_spaces _) hin) with ⟨items, hmem, hfound⟩ |
        hbehind
      · exact .inl ⟨items, List.mem_append_left _ hmem, hfound⟩
      · have hmore := h.skip hcomma (h.skip (outside_spaces _) hbehind)
        rcases infix_elements h more rest hmore with ⟨items, hmem, hfound⟩ | hrest
        · exact .inl ⟨items, List.mem_append_right _ hmem, hfound⟩
        · exact .inr hrest

theorem infix_members (h : InStrings text) (ms : Members) (rest : List Char)
    (hin : text <:+: ms.text ++ rest) :
    (∃ items ∈ ms.strings, text <:+: itemsText items) ∨ text <:+: rest := by
  cases ms with
  | last key before d after =>
      simp only [Members.text, List.append_assoc] at hin
      have hclose : Outside (after.chars ++ ['\x7d']) := by
        simp [outside_cons, outside_append, outside_spaces, outside_nil]
      rcases h.key hin with hkey | hin
      · exact .inl ⟨key.items, List.mem_cons_self, hkey⟩
      · rcases infix_document h d _ (h.skip (outside_spaces _) hin) with ⟨items, hmem, hfound⟩ |
          hbehind
        · exact .inl ⟨items, List.mem_cons_of_mem _ hmem, hfound⟩
        · rw [← List.append_assoc] at hbehind
          exact .inr (h.skip hclose hbehind)
  | more key before d after more =>
      simp only [Members.text, List.append_assoc, List.cons_append] at hin
      have hcomma : Outside [','] := by simp [Outside]
      rcases h.key hin with hkey | hin
      · exact .inl ⟨key.items, List.mem_cons_self, hkey⟩
      · rcases infix_document h d _ (h.skip (outside_spaces _) hin) with ⟨items, hmem, hfound⟩ |
          hbehind
        · exact .inl ⟨items, List.mem_cons_of_mem _ (List.mem_append_left _ hmem), hfound⟩
        · have hmore := h.skip hcomma (h.skip (outside_spaces _) hbehind)
          rcases infix_members h more rest hmore with ⟨items, hmem, hfound⟩ | hrest
          · exact .inl ⟨items, List.mem_cons_of_mem _ (List.mem_append_right _ hmem), hfound⟩
          · exact .inr hrest

end

mutual

/-- A string of a document is in its text. -/
theorem infix_of_string (d : Document) {items : List Item} (h : items ∈ d.strings) :
    itemsText items <:+: d.text := by
  cases d with
  | null | bool _ | num _ | emptyArr _ | emptyObj _ => exact absurd h List.not_mem_nil
  | str items' =>
      obtain rfl := List.mem_singleton.mp h
      exact List.infix_cons List.infix_append_left
  | arr elems => exact List.infix_cons (infix_of_elements_string elems h)
  | obj members => exact List.infix_cons (infix_of_members_string members h)

theorem infix_of_elements_string (es : Elements) {items : List Item} (h : items ∈ es.strings) :
    itemsText items <:+: es.text := by
  cases es with
  | last before d after =>
      exact ((infix_of_string d h).trans List.infix_append_left).trans List.infix_append_right
  | more before d after rest =>
      rcases List.mem_append.mp h with hhere | hlater
      · exact ((infix_of_string d hhere).trans List.infix_append_left).trans List.infix_append_right
      · have hcomma := List.infix_cons (a := ',') (infix_of_elements_string rest hlater)
        exact ((hcomma.trans List.infix_append_right).trans List.infix_append_right).trans
          List.infix_append_right

theorem infix_of_members_string (ms : Members) {items : List Item} (h : items ∈ ms.strings) :
    itemsText items <:+: ms.text := by
  have hkey (k : Key) : itemsText k.items <:+: k.text :=
    (List.infix_cons List.infix_append_left).trans List.infix_append_right
  cases ms with
  | last key before d after =>
      rcases List.mem_cons.mp h with rfl | hvalue
      · exact (hkey key).trans List.infix_append_left
      · exact (((infix_of_string d hvalue).trans List.infix_append_left).trans
          List.infix_append_right).trans List.infix_append_right
  | more key before d after rest =>
      rcases List.mem_cons.mp h with rfl | hvalue
      · exact (hkey key).trans List.infix_append_left
      · rcases List.mem_append.mp hvalue with hhere | hlater
        · exact (((infix_of_string d hhere).trans List.infix_append_left).trans
            List.infix_append_right).trans List.infix_append_right
        · have hcomma := List.infix_cons (a := ',') (infix_of_members_string rest hlater)
          exact (((hcomma.trans List.infix_append_right).trans List.infix_append_right).trans
            List.infix_append_right).trans List.infix_append_right

end

/-- A text that is found in a whole text is found in one of its strings. -/
theorem infix_spaced (h : InStrings text) (t : Spaced) (hin : text <:+: t.chars) :
    ∃ items ∈ t.document.strings, text <:+: itemsText items := by
  have hdocument := h.skip (outside_spaces t.before) hin
  rcases infix_document h t.document t.after.chars hdocument with hfound | hbehind
  · exact hfound
  · obtain ⟨c, more, rfl, -⟩ := h.start
    rw [← List.append_nil t.after.chars] at hbehind
    have hnil := h.skip (outside_spaces t.after) hbehind
    exact absurd (List.infix_nil.mp hnil) (List.cons_ne_nil c more)

/-! ## The strings of a printed value -/

theorem strings_elementsOf (d : Document) (ds : List Document) :
    (elementsOf d ds).strings = (d :: ds).flatMap Document.strings := by
  induction ds generalizing d with
  | nil => simp [elementsOf, Elements.strings]
  | cons d' ds ih =>
      rw [elementsOf, Elements.strings, ih]
      exact List.flatMap_cons.symm

theorem strings_arrayOf (ds : List Document) :
    (arrayOf ds).strings = ds.flatMap Document.strings := by
  cases ds with
  | nil => rfl
  | cons d ds => exact strings_elementsOf d ds

theorem strings_membersOf (m : List UInt16 × Document) (ms : List (List UInt16 × Document)) :
    (membersOf m ms).strings = (m :: ms).flatMap fun m => quoteItems m.1 :: m.2.strings := by
  induction ms generalizing m with
  | nil => simp [membersOf, Members.strings, keyOf]
  | cons m' ms ih =>
      rw [membersOf, Members.strings, ih, List.flatMap_cons]
      rfl

theorem strings_objectOf (ms : List (List UInt16 × Document)) :
    (objectOf ms).strings = ms.flatMap fun m => quoteItems m.1 :: m.2.strings := by
  cases ms with
  | nil => rfl
  | cons m ms => exact strings_membersOf m ms

mutual

/-- The strings of the document that a value is printed as. -/
theorem strings_document (N : Numerals ν) (v : Value ν) :
    (v.document N).strings = v.strings.map quoteItems := by
  cases v with
  | null | bool _ | str _ => rfl
  | num x =>
      simp only [Value.document]
      cases N.print x <;> rfl
  | arr elems => rw [Value.document, strings_arrayOf, strings_documents N elems, Value.strings]
  | obj members =>
      rw [Value.document, strings_objectOf, strings_memberDocuments N members, Value.strings]

theorem strings_documents (N : Numerals ν) (vs : List (Value ν)) :
    (documents N vs).flatMap Document.strings = (elemStrings vs).map quoteItems := by
  cases vs with
  | nil => rfl
  | cons v vs =>
      rw [documents, List.flatMap_cons, strings_document N v, strings_documents N vs, elemStrings,
        List.map_append]

theorem strings_memberDocuments (N : Numerals ν) (ms : List (List UInt16 × Value ν)) :
    ((memberDocuments N ms).flatMap fun m => quoteItems m.1 :: m.2.strings) =
      (memberStrings ms).map quoteItems := by
  match ms with
  | [] => rfl
  | (key, v) :: ms =>
      rw [memberDocuments, List.flatMap_cons, strings_document N v, strings_memberDocuments N ms,
        memberStrings, List.map_cons, List.map_append, List.cons_append]

end

/-! ## Texts in the spelling of a string -/

/-- A text of plain characters. -/
def PlainText (text : List Char) : Prop := ∀ c ∈ text, isPlain c = true

theorem PlainText.unquoted (h : PlainText text) : '"' ∉ text := by
  intro hmem
  exact absurd (h _ hmem) (by decide)

/-- Plain characters at the beginning of a spelling are the first ones of the string. -/
theorem prefix_units (h : PlainText text) {items : List Item} (hin : text <+: itemsText items) :
    unitsOf text <+: itemsUnits items := by
  induction text generalizing items with
  | nil => exact List.nil_prefix
  | cons c text ih =>
      obtain ⟨hc, htext⟩ := List.forall_mem_cons.mp h
      have hescape : c ≠ '\\' := by
        rintro rfl
        exact absurd hc (by decide)
      cases items with
      | nil => exact absurd hin.length_le (by simp [itemsText])
      | cons i items =>
          have hcons : itemsText (i :: items) = i.text ++ itemsText items := rfl
          rw [hcons] at hin
          cases i with
          | plain d hd =>
              obtain ⟨hhead, htail⟩ := List.cons_prefix_cons.mp hin
              rw [hhead]
              exact (List.prefix_append_right_inj (utf16 d)).mpr (ih htext htail)
          | short e => exact absurd (List.cons_prefix_cons.mp hin).1 hescape
          | unicode a b c d => exact absurd (List.cons_prefix_cons.mp hin).1 hescape

theorem outside_hex (d : HexDigit) : d.char ≠ '$' ∧ d.char ≠ '<' := by
  have hdigit := d.digit
  constructor
  · intro heq
    rw [heq] at hdigit
    exact absurd hdigit (by decide)
  · intro heq
    rw [heq] at hdigit
    exact absurd hdigit (by decide)

/-- No mark is in an escape. -/
theorem outside_escape {i : Item} (h : ∀ c hc, i ≠ .plain c hc) : Outside i.text := by
  cases i with
  | plain c hc => exact absurd rfl (h c hc)
  | short e => cases e <;> simp [Outside, Item.text, Short.letter]
  | unicode a b c d => simp [Item.text, outside_cons, outside_hex, outside_nil]

/-- What is found in a spelling is found in the string. -/
theorem infix_units (h : InStrings text) (hplain : PlainText text) {items : List Item}
    (hin : text <:+: itemsText items) : unitsOf text <:+: itemsUnits items := by
  induction items with
  | nil => exact (prefix_units hplain (List.infix_nil.mp hin ▸ List.nil_prefix)).isInfix
  | cons i items ih =>
      have hcons : itemsText (i :: items) = i.text ++ itemsText items := rfl
      have hlater (hrest : text <:+: itemsText items) : unitsOf text <:+: itemsUnits (i :: items) :=
        (ih hrest).trans List.infix_append_right
      cases i with
      | plain c hc =>
          rcases List.infix_cons_iff.mp hin with hprefix | hrest
          · have hwhole : text <+: itemsText (.plain c hc :: items) := hprefix
            exact (prefix_units hplain hwhole).isInfix
          · exact hlater hrest
      | short e =>
          rw [hcons] at hin
          exact hlater (h.skip (outside_escape fun c hc => Item.noConfusion) hin)
      | unicode a b c d =>
          rw [hcons] at hin
          exact hlater (h.skip (outside_escape fun c hc => Item.noConfusion) hin)

/-- Strings are spelled one after the other, where no pair is divided between them. -/
theorem quoteItems_append (s s' : List UInt16) (h : ∀ u ∈ s'.head?, isLow u = false) :
    quoteItems (s ++ s') = quoteItems s ++ quoteItems s' := by
  have hpoints : codePoints (s ++ s') = codePoints s ++ codePoints s' := codePoints_append h
  rw [quoteItems, hpoints, List.map_append]
  rfl

/-- Plain characters are spelled by themselves. -/
theorem text_quoteItems (hplain : PlainText text) (s : List UInt16) :
    itemsText (quoteItems (unitsOf text ++ s)) = text ++ itemsText (quoteItems s) := by
  induction text with
  | nil => rfl
  | cons c text ih =>
      obtain ⟨hc, htext⟩ := List.forall_mem_cons.mp hplain
      have hunits : unitsOf (c :: text) ++ s = utf16 c ++ (unitsOf text ++ s) := by
        simp [unitsOf]
      have hquote : quoteItems (utf16 c ++ (unitsOf text ++ s)) =
          .plain c hc :: quoteItems (unitsOf text ++ s) := by
        rw [quoteItems, codePoints_utf16, List.map_cons, pointItem, charItem_plain hc]
        rfl
      rw [hunits, hquote]
      exact congrArg (c :: ·) (ih htext)

/-- A text of plain characters is found in a string just if it is found in its spelling. -/
theorem infix_quoteItems (h : InStrings text) (hplain : PlainText text) (s : List UInt16) :
    text <:+: itemsText (quoteItems s) ↔ unitsOf text <:+: s := by
  constructor
  · intro hin
    have hunits := infix_units h hplain hin
    rwa [units_quoteItems] at hunits
  · rintro ⟨x, y, rfl⟩
    obtain ⟨c, more, rfl, -⟩ := h.start
    have hhead : ∀ u ∈ (unitsOf (c :: more) ++ y).head?, isLow u = false := by
      obtain ⟨u, rest, hunits, hlow⟩ := utf16_head c
      simpa [unitsOf, hunits] using hlow
    rw [List.append_assoc, quoteItems_append _ _ hhead, itemsText, List.flatMap_append]
    have htext := text_quoteItems hplain y
    rw [itemsText] at htext
    rw [htext]
    exact List.infix_append_left.trans List.infix_append_right

/-- A text is found in a printed value just if it is found in one of its strings. -/
theorem infix_stringify (h : InStrings text) (hplain : PlainText text) (v : Value ν) :
    text <:+: v.stringify N ↔ ∃ s ∈ v.strings, unitsOf text <:+: s := by
  have hstrings := strings_document N v
  constructor
  · intro hin
    rw [stringify_chars] at hin
    obtain ⟨items, hmem, hfound⟩ := infix_spaced h _ hin
    rw [hstrings] at hmem
    obtain ⟨s, hs, rfl⟩ := List.mem_map.mp hmem
    exact ⟨s, hs, (infix_quoteItems h hplain s).mp hfound⟩
  · rintro ⟨s, hs, hfound⟩
    have hmem : quoteItems s ∈ (v.document N).strings := by
      rw [hstrings]
      exact List.mem_map_of_mem hs
    exact ((infix_quoteItems h hplain s).mpr hfound).trans (infix_of_string _ hmem)

end OpenUnion.JsonText
