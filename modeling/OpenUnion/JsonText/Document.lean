import OpenUnion.JsonText.Literal
import OpenUnion.JsonText.Strings

/-!
# JSON text

A document is a JSON text with everything that can differ between two texts of one value: white
space, the spelling of numbers and strings, the order and the duplicates of members.  Texts and
documents are the same thing.

* `readDocument_sound`: a document that is read is in the text.
* `readDocument_text`: the text of a document is read back, before anything that cannot continue
  a number.
* `parse_eq_some_iff`: a text is read as a document exactly if it is the text of that document.
-/

namespace OpenUnion.JsonText

/-- The white space of JSON. -/
def isSpace (c : Char) : Bool := decide (c = ' ' ∨ c = '\t' ∨ c = '\n' ∨ c = '\r')

/-- White space. -/
structure Spaces where
  chars : List Char
  spaces : ∀ c ∈ chars, isSpace c = true

/-- No white space. -/
def Spaces.empty : Spaces := ⟨[], fun _ h => absurd h List.not_mem_nil⟩

/-- A key with its quotes, up to the colon. -/
structure Key where
  before : Spaces
  items : List Item
  after : Spaces

/-- The text of a key and its colon. -/
def Key.text (k : Key) : List Char :=
  k.before.chars ++ '"' :: (itemsText k.items ++ '"' :: (k.after.chars ++ [':']))

mutual

/-- A JSON text without the white space around it. -/
inductive Document where
  | null
  | bool (b : Bool)
  | num (l : Literal)
  | str (items : List Item)
  | emptyArr (inside : Spaces)
  | arr (elems : Elements)
  | emptyObj (inside : Spaces)
  | obj (members : Members)

/-- The elements of an array, with the white space around them. -/
inductive Elements where
  | last (before : Spaces) (d : Document) (after : Spaces)
  | more (before : Spaces) (d : Document) (after : Spaces) (rest : Elements)

/-- The members of an object. -/
inductive Members where
  | last (key : Key) (before : Spaces) (d : Document) (after : Spaces)
  | more (key : Key) (before : Spaces) (d : Document) (after : Spaces) (rest : Members)

end

mutual

/-- The text of a document. -/
def Document.text : Document → List Char
  | .null => ['n', 'u', 'l', 'l']
  | .bool true => ['t', 'r', 'u', 'e']
  | .bool false => ['f', 'a', 'l', 's', 'e']
  | .num l => l.text
  | .str items => '"' :: (itemsText items ++ ['"'])
  | .emptyArr inside => '[' :: (inside.chars ++ [']'])
  | .arr elems => '[' :: elems.text
  | .emptyObj inside => '\x7b' :: (inside.chars ++ ['\x7d'])
  | .obj members => '\x7b' :: members.text

/-- The text of the elements and of the closing bracket. -/
def Elements.text : Elements → List Char
  | .last before d after => before.chars ++ (d.text ++ (after.chars ++ [']']))
  | .more before d after rest => before.chars ++ (d.text ++ (after.chars ++ ',' :: rest.text))

/-- The text of the members and of the closing brace. -/
def Members.text : Members → List Char
  | .last key before d after =>
      key.text ++ (before.chars ++ (d.text ++ (after.chars ++ ['\x7d'])))
  | .more key before d after rest =>
      key.text ++ (before.chars ++ (d.text ++ (after.chars ++ ',' :: rest.text)))

end

/-! ## Reading -/

/-- Read white space. -/
def readSpaces (cs : List Char) : Spaces × List Char :=
  (⟨cs.takeWhile isSpace, fun _ hc => List.mem_takeWhile_imp hc⟩, cs.dropWhile isSpace)

/-- Read the colon behind a key. -/
def readColon (before : Spaces) (items : List Item) (cs : List Char) :
    Option (Key × List Char) :=
  match (readSpaces cs).2 with
  | ':' :: rest => some (⟨before, items, (readSpaces cs).1⟩, rest)
  | _ => none

/-- Read a key and its colon. -/
def readKey (n : ℕ) (cs : List Char) : Option (Key × List Char) :=
  match (readSpaces cs).2 with
  | '"' :: rest => (readItems n rest).bind fun r => readColon (readSpaces cs).1 r.1 r.2
  | _ => none

mutual

/-- Read a document.  The first argument bounds the length of the text. -/
def readDocument : ℕ → List Char → Option (Document × List Char)
  | 0, _ => none
  | _ + 1, 'n' :: 'u' :: 'l' :: 'l' :: rest => some (.null, rest)
  | _ + 1, 't' :: 'r' :: 'u' :: 'e' :: rest => some (.bool true, rest)
  | _ + 1, 'f' :: 'a' :: 'l' :: 's' :: 'e' :: rest => some (.bool false, rest)
  | n + 1, '"' :: rest => (readItems n rest).map fun r => (.str r.1, r.2)
  | n + 1, '[' :: rest =>
      match (readSpaces rest).2 with
      | ']' :: behind => some (.emptyArr (readSpaces rest).1, behind)
      | _ => (readElements n rest).map fun r => (.arr r.1, r.2)
  | n + 1, '\x7b' :: rest =>
      match (readSpaces rest).2 with
      | '\x7d' :: behind => some (.emptyObj (readSpaces rest).1, behind)
      | _ => (readMembers n rest).map fun r => (.obj r.1, r.2)
  | _ + 1, cs => (readLiteral cs).map fun r => (.num r.1, r.2)

/-- Read elements and the closing bracket. -/
def readElements : ℕ → List Char → Option (Elements × List Char)
  | 0, _ => none
  | n + 1, cs =>
      (readDocument n (readSpaces cs).2).bind fun d =>
        match (readSpaces d.2).2 with
        | ']' :: rest => some (.last (readSpaces cs).1 d.1 (readSpaces d.2).1, rest)
        | ',' :: rest => (readElements n rest).map fun r =>
            (.more (readSpaces cs).1 d.1 (readSpaces d.2).1 r.1, r.2)
        | _ => none

/-- Read members and the closing brace. -/
def readMembers : ℕ → List Char → Option (Members × List Char)
  | 0, _ => none
  | n + 1, cs =>
      (readKey n cs).bind fun k =>
        (readDocument n (readSpaces k.2).2).bind fun d =>
          match (readSpaces d.2).2 with
          | '\x7d' :: rest => some (.last k.1 (readSpaces k.2).1 d.1 (readSpaces d.2).1, rest)
          | ',' :: rest => (readMembers n rest).map fun r =>
              (.more k.1 (readSpaces k.2).1 d.1 (readSpaces d.2).1 r.1, r.2)
          | _ => none

end

/-- A text with the white space around the document. -/
structure Spaced where
  before : Spaces
  document : Document
  after : Spaces

/-- The characters of a text. -/
def Spaced.chars (t : Spaced) : List Char := t.before.chars ++ (t.document.text ++ t.after.chars)

/-- Read a whole text. -/
def parse (cs : List Char) : Option Spaced :=
  (readDocument (cs.length + 1) (readSpaces cs).2).bind fun d =>
    if (readSpaces d.2).2 = [] then some ⟨(readSpaces cs).1, d.1, (readSpaces d.2).1⟩ else none

variable {cs rest : List Char} {n : ℕ}

/-! ## What is read is in the text -/

theorem readSpaces_sound (cs : List Char) :
    ∃ w behind, readSpaces cs = (w, behind) ∧ cs = w.chars ++ behind :=
  ⟨_, _, rfl, List.takeWhile_append_dropWhile.symm⟩

theorem readColon_sound {before : Spaces} {items : List Item} {k : Key}
    (h : readColon before items cs = some (k, rest)) :
    before.chars ++ '"' :: (itemsText items ++ '"' :: cs) = k.text ++ rest := by
  obtain ⟨w, behind, hw, rfl⟩ := readSpaces_sound cs
  simp only [readColon, hw] at h
  split at h
  · simp only [Option.some.injEq, Prod.mk.injEq] at h
    obtain ⟨rfl, rfl⟩ := h
    simp only [Key.text, List.append_assoc, List.cons_append, List.nil_append]
  · cases h

theorem readKey_sound {k : Key} (h : readKey n cs = some (k, rest)) : cs = k.text ++ rest := by
  obtain ⟨w, behind, hw, rfl⟩ := readSpaces_sound cs
  simp only [readKey, hw] at h
  split at h
  · obtain ⟨⟨items, rest'⟩, hitems, hcolon⟩ := Option.bind_eq_some_iff.mp h
    rw [← readColon_sound hcolon, readItems_sound hitems]
  · cases h

/-- What the readers return with some fuel is in the text. -/
def ReadersSound (n : ℕ) : Prop :=
  (∀ cs d rest, readDocument n cs = some (d, rest) → cs = d.text ++ rest) ∧
    (∀ cs es rest, readElements n cs = some (es, rest) → cs = es.text ++ rest) ∧
    ∀ cs ms rest, readMembers n cs = some (ms, rest) → cs = ms.text ++ rest

theorem readElements_sound (ih : ReadersSound n) {es : Elements}
    (h : readElements (n + 1) cs = some (es, rest)) : cs = es.text ++ rest := by
  obtain ⟨ihd, ihe, -⟩ := ih
  obtain ⟨before, cs, hbefore, rfl⟩ := readSpaces_sound cs
  simp only [readElements, hbefore, Option.bind_eq_some_iff] at h
  obtain ⟨⟨d, cs'⟩, hd, h⟩ := h
  obtain ⟨after, behind, hafter, rfl⟩ := readSpaces_sound cs'
  rw [ihd _ _ _ hd]
  simp only [hafter] at h
  split at h
  · simp only [Option.some.injEq, Prod.mk.injEq] at h
    obtain ⟨rfl, rfl⟩ := h
    simp only [Elements.text, List.append_assoc, List.cons_append, List.nil_append]
  · simp only [Option.map_eq_some_iff, Prod.mk.injEq] at h
    obtain ⟨⟨es', rest'⟩, hes, rfl, rfl⟩ := h
    rw [ihe _ _ _ hes]
    simp only [Elements.text, List.append_assoc, List.cons_append]
  · cases h

theorem readMembers_sound (ih : ReadersSound n) {ms : Members}
    (h : readMembers (n + 1) cs = some (ms, rest)) : cs = ms.text ++ rest := by
  obtain ⟨ihd, -, ihm⟩ := ih
  simp only [readMembers, Option.bind_eq_some_iff] at h
  obtain ⟨⟨key, cs₁⟩, hkey, ⟨d, cs₂⟩, hd, h⟩ := h
  rw [readKey_sound hkey]
  obtain ⟨before, cs₁, hbefore, rfl⟩ := readSpaces_sound cs₁
  obtain ⟨after, behind, hafter, rfl⟩ := readSpaces_sound cs₂
  simp only [hbefore] at hd h
  rw [ihd _ _ _ hd]
  simp only [hafter] at h
  split at h
  · simp only [Option.some.injEq, Prod.mk.injEq] at h
    obtain ⟨rfl, rfl⟩ := h
    simp only [Members.text, List.append_assoc, List.cons_append, List.nil_append]
  · simp only [Option.map_eq_some_iff, Prod.mk.injEq] at h
    obtain ⟨⟨ms', rest'⟩, hms, rfl, rfl⟩ := h
    rw [ihm _ _ _ hms]
    simp only [Members.text, List.append_assoc, List.cons_append]
  · cases h

/-- A document that is read is in the text. -/
theorem readDocument_step_sound (ih : ReadersSound n) {d : Document}
    (h : readDocument (n + 1) cs = some (d, rest)) : cs = d.text ++ rest := by
  obtain ⟨-, ihe, ihm⟩ := ih
  unfold readDocument at h
  split at h
  · next hzero => cases hzero
  · simp only [Option.some.injEq, Prod.mk.injEq] at h
    obtain ⟨rfl, rfl⟩ := h
    rfl
  · simp only [Option.some.injEq, Prod.mk.injEq] at h
    obtain ⟨rfl, rfl⟩ := h
    rfl
  · simp only [Option.some.injEq, Prod.mk.injEq] at h
    obtain ⟨rfl, rfl⟩ := h
    rfl
  · simp only [Option.map_eq_some_iff, Prod.mk.injEq] at h
    obtain ⟨⟨items, rest'⟩, hitems, rfl, rfl⟩ := h
    rw [readItems_sound hitems]
    simp only [Document.text, List.append_assoc, List.cons_append, List.nil_append]
  · next m behind hm =>
      obtain rfl := Nat.succ.inj hm
      obtain ⟨inside, behind, hinside, rfl⟩ := readSpaces_sound behind
      simp only [hinside] at h
      split at h
      · simp only [Option.some.injEq, Prod.mk.injEq] at h
        obtain ⟨rfl, rfl⟩ := h
        simp only [Document.text, List.append_assoc, List.cons_append, List.nil_append]
      · simp only [Option.map_eq_some_iff, Prod.mk.injEq] at h
        obtain ⟨⟨es, rest'⟩, hes, rfl, rfl⟩ := h
        rw [ihe _ _ _ hes]
        simp only [Document.text, List.cons_append]
  · next m behind hm =>
      obtain rfl := Nat.succ.inj hm
      obtain ⟨inside, behind, hinside, rfl⟩ := readSpaces_sound behind
      simp only [hinside] at h
      split at h
      · simp only [Option.some.injEq, Prod.mk.injEq] at h
        obtain ⟨rfl, rfl⟩ := h
        simp only [Document.text, List.append_assoc, List.cons_append, List.nil_append]
      · simp only [Option.map_eq_some_iff, Prod.mk.injEq] at h
        obtain ⟨⟨ms, rest'⟩, hms, rfl, rfl⟩ := h
        rw [ihm _ _ _ hms]
        simp only [Document.text, List.cons_append]
  · simp only [Option.map_eq_some_iff, Prod.mk.injEq] at h
    obtain ⟨⟨l, rest'⟩, hl, rfl, rfl⟩ := h
    exact readLiteral_sound hl

/-- What is read is in the text. -/
theorem readers_sound (n : ℕ) : ReadersSound n := by
  induction n with
  | zero =>
      refine ⟨fun cs d rest h => ?_, fun cs es rest h => ?_, fun cs ms rest h => ?_⟩
      · simp [readDocument] at h
      · simp [readElements] at h
      · simp [readMembers] at h
  | succ n ih =>
      exact ⟨fun _ _ _ h => readDocument_step_sound ih h, fun _ _ _ h => readElements_sound ih h,
        fun _ _ _ h => readMembers_sound ih h⟩

/-- A document that is read is in the text. -/
theorem readDocument_sound {d : Document} (h : readDocument n cs = some (d, rest)) :
    cs = d.text ++ rest :=
  (readers_sound n).1 cs d rest h

/-! ## Every document is read -/

/-- The text does not start with white space. -/
def NoSpace (rest : List Char) : Prop := ∀ c ∈ rest.head?, isSpace c = false

theorem readSpaces_chars (w : Spaces) {r : List Char} (h : NoSpace r) :
    readSpaces (w.chars ++ r) = (w, r) := by
  have hrest : r.takeWhile isSpace = [] ∧ r.dropWhile isSpace = r := by
    cases r with
    | nil => exact ⟨rfl, rfl⟩
    | cons c r => simp [h c rfl]
  have htake : (w.chars ++ r).takeWhile isSpace = w.chars := by
    rw [List.takeWhile_append_of_pos w.spaces, hrest.1, List.append_nil]
  have hdrop : (w.chars ++ r).dropWhile isSpace = r := by
    rw [List.dropWhile_append_of_pos w.spaces, hrest.2]
  obtain ⟨chars, spaces⟩ := w
  simp only at htake hdrop
  simp only [readSpaces, htake, hdrop]

theorem noSpace_cons {c : Char} (hc : isSpace c = false) : NoSpace (c :: rest) := by
  intro x hx
  obtain rfl : c = x := by simpa using hx
  exact hc

theorem ends_cons {c : Char} (hc : continuesNumber c = false) : Ends (c :: rest) := by
  intro x hx
  obtain rfl : c = x := by simpa using hx
  exact hc

/-- White space does not continue a number. -/
theorem ends_spaces (w : Spaces) {r : List Char} (h : Ends r) : Ends (w.chars ++ r) := by
  obtain ⟨chars, spaces⟩ := w
  cases chars with
  | nil => exact h
  | cons c chars =>
      have hc := spaces c List.mem_cons_self
      refine ends_cons ?_
      simp only [isSpace, decide_eq_true_eq] at hc
      rcases hc with rfl | rfl | rfl | rfl <;> decide

/-- A document starts with no white space and no closing bracket. -/
theorem Document.text_head (d : Document) (rest : List Char) :
    ∃ c more, d.text ++ rest = c :: more ∧ isSpace c = false ∧ c ≠ ']' := by
  cases d with
  | num l =>
      obtain ⟨c, more, hl, hc⟩ := l.text_head
      refine ⟨c, more ++ rest, by simp only [Document.text, hl, List.cons_append], ?_⟩
      rcases hc with hdigit | rfl
      · constructor
        · rw [isSpace, decide_eq_false_iff_not]
          rintro (rfl | rfl | rfl | rfl) <;> exact absurd hdigit (by decide)
        · rintro rfl
          exact absurd hdigit (by decide)
      · decide
  | bool b => cases b <;> exact ⟨_, _, rfl, by decide⟩
  | _ => exact ⟨_, _, rfl, by decide⟩

theorem Document.noSpace (d : Document) (rest : List Char) : NoSpace (d.text ++ rest) := by
  obtain ⟨c, more, htext, hc, -⟩ := d.text_head rest
  rw [htext]
  exact noSpace_cons hc

/-- The colon behind a key is read. -/
theorem readKey_text (k : Key) (rest : List Char) (hn : k.items.length < n) :
    readKey n (k.text ++ rest) = some (k, rest) := by
  have hbefore := readSpaces_chars k.before
    (r := '"' :: (itemsText k.items ++ '"' :: (k.after.chars ++ ':' :: rest)))
    (noSpace_cons (by decide))
  have hafter := readSpaces_chars k.after (r := ':' :: rest) (noSpace_cons (by decide))
  have hitems := readItems_text k.items (k.after.chars ++ ':' :: rest) hn
  simp only [Key.text, List.append_assoc, List.cons_append, List.nil_append, readKey, hbefore,
    hitems, Option.bind_some, readColon, hafter]

theorem length_items (items : List Item) : items.length ≤ (itemsText items).length := by
  induction items with
  | nil => exact Nat.zero_le _
  | cons i items ih =>
      obtain ⟨c, more, htext, -⟩ := i.text_head
      simp only [itemsText, List.flatMap_cons, htext, List.length_append, List.length_cons] at ih ⊢
      omega

theorem Key.length_items (k : Key) : k.items.length < k.text.length := by
  have hitems := JsonText.length_items k.items
  simp only [Key.text, List.length_append, List.length_cons]
  omega

/-- Elements start with white space and a document. -/
theorem Elements.text_split (es : Elements) :
    ∃ (w : Spaces) (d : Document) (more : List Char), es.text = w.chars ++ (d.text ++ more) := by
  cases es with
  | last before d after => exact ⟨before, d, _, rfl⟩
  | more before d after rest => exact ⟨before, d, _, rfl⟩

/-- Members start with white space and a quote. -/
theorem Members.text_split (ms : Members) : ∃ (w : Spaces) (more : List Char), ms.text = w.chars ++ '"' :: more := by
  have hkey : ∀ (k : Key) (rest : List Char),
      ∃ more, k.text ++ rest = k.before.chars ++ '"' :: more := fun k rest =>
    ⟨_, by simp only [Key.text, List.append_assoc, List.cons_append]; rfl⟩
  cases ms with
  | last key before d after => exact ⟨key.before, hkey key _⟩
  | more key before d after rest => exact ⟨key.before, hkey key _⟩

/-- An array that is not empty is read by its elements. -/
theorem readDocument_arr (es : Elements) (rest : List Char) :
    readDocument (n + 1) ('[' :: (es.text ++ rest)) =
      (readElements n (es.text ++ rest)).map fun r => (.arr r.1, r.2) := by
  obtain ⟨w, d, more, htext⟩ := es.text_split
  obtain ⟨c, more', hd, hspace, hc⟩ := d.text_head (more ++ rest)
  have hspaces : readSpaces (es.text ++ rest) = (w, c :: more') := by
    rw [htext, List.append_assoc, List.append_assoc, hd]
    exact readSpaces_chars w (noSpace_cons hspace)
  simp only [readDocument, hspaces]
  split
  · next heq => exact absurd (List.cons.inj heq).1 hc
  · rfl

/-- An object that is not empty is read by its members. -/
theorem readDocument_obj (ms : Members) (rest : List Char) :
    readDocument (n + 1) ('\x7b' :: (ms.text ++ rest)) =
      (readMembers n (ms.text ++ rest)).map fun r => (.obj r.1, r.2) := by
  obtain ⟨w, more, htext⟩ := ms.text_split
  have hspaces : readSpaces (ms.text ++ rest) = (w, '"' :: (more ++ rest)) := by
    rw [htext, List.append_assoc, List.cons_append]
    exact readSpaces_chars w (noSpace_cons (by decide))
  simp only [readDocument, hspaces]
  rfl

theorem readDocument_num (l : Literal) (h : Ends rest) :
    readDocument (n + 1) (l.text ++ rest) = some (.num l, rest) := by
  obtain ⟨c, more, htext, hc⟩ := l.text_head
  have hliteral := readLiteral_text l h
  have hall : (['n', 't', 'f', '"', '[', '\x7b'].all fun x => !x.isDigit && x != '-') = true := by
    decide
  have hhead : ∀ x ∈ ['n', 't', 'f', '"', '[', '\x7b'], c ≠ x := by
    rintro x hx rfl
    have hno := List.all_eq_true.mp hall c hx
    rcases hc with hdigit | hminus
    · simp [hdigit] at hno
    · simp [hminus] at hno
  rw [htext, List.cons_append] at hliteral ⊢
  simp only [List.forall_mem_cons] at hhead
  obtain ⟨hn, ht, hf, hq, ha, ho, -⟩ := hhead
  unfold readDocument
  split
  · next hzero => cases hzero
  · next heq => exact absurd (List.cons.inj heq).1 hn
  · next heq => exact absurd (List.cons.inj heq).1 ht
  · next heq => exact absurd (List.cons.inj heq).1 hf
  · next heq => exact absurd (List.cons.inj heq).1 hq
  · next heq => exact absurd (List.cons.inj heq).1 ha
  · next heq => exact absurd (List.cons.inj heq).1 ho
  · rw [hliteral]
    rfl

mutual

/-- Every document is read back. -/
theorem readDocument_text (d : Document) (n : ℕ) (rest : List Char) (hn : d.text.length < n)
    (h : Ends rest) : readDocument n (d.text ++ rest) = some (d, rest) := by
  obtain ⟨n, rfl⟩ : ∃ m, n = m + 1 := ⟨n - 1, by omega⟩
  cases d with
  | null => rfl
  | bool b => cases b <;> rfl
  | num l => exact readDocument_num l h
  | str items =>
      have hitems := length_items items
      simp only [Document.text, List.length_cons, List.length_append] at hn
      have hread := readItems_text (n := n) items rest (by omega)
      simp only [Document.text, List.cons_append, List.append_assoc, List.nil_append, readDocument,
        hread, Option.map_some]
  | emptyArr inside =>
      have hspaces := readSpaces_chars inside (r := ']' :: rest) (noSpace_cons (by decide))
      simp only [Document.text, List.cons_append, List.append_assoc, List.nil_append, readDocument,
        hspaces]
  | emptyObj inside =>
      have hspaces := readSpaces_chars inside (r := '\x7d' :: rest) (noSpace_cons (by decide))
      simp only [Document.text, List.cons_append, List.append_assoc, List.nil_append, readDocument,
        hspaces]
  | arr es =>
      simp only [Document.text, List.length_cons] at hn
      have hes := readElements_text es n rest (by omega)
      rw [Document.text, List.cons_append, readDocument_arr, hes]
      rfl
  | obj ms =>
      simp only [Document.text, List.length_cons] at hn
      have hms := readMembers_text ms n rest (by omega)
      rw [Document.text, List.cons_append, readDocument_obj, hms]
      rfl

theorem readElements_text (es : Elements) (n : ℕ) (rest : List Char) (hn : es.text.length < n) :
    readElements n (es.text ++ rest) = some (es, rest) := by
  obtain ⟨n, rfl⟩ : ∃ m, n = m + 1 := ⟨n - 1, by omega⟩
  cases es with
  | last before d after =>
      simp only [Elements.text, List.length_append, List.length_cons] at hn
      have hbefore := readSpaces_chars before
        (r := d.text ++ (after.chars ++ ']' :: rest)) (d.noSpace _)
      have hafter := readSpaces_chars after (r := ']' :: rest) (noSpace_cons (by decide))
      have hd := readDocument_text d n (after.chars ++ ']' :: rest) (by omega)
        (ends_spaces after (ends_cons (by decide)))
      simp only [Elements.text, List.append_assoc, List.cons_append, List.nil_append, readElements,
        hbefore, hd, Option.bind_some, hafter]
  | more before d after es =>
      simp only [Elements.text, List.length_append, List.length_cons] at hn
      have hbefore := readSpaces_chars before
        (r := d.text ++ (after.chars ++ ',' :: (es.text ++ rest))) (d.noSpace _)
      have hafter := readSpaces_chars after (r := ',' :: (es.text ++ rest))
        (noSpace_cons (by decide))
      have hd := readDocument_text d n (after.chars ++ ',' :: (es.text ++ rest)) (by omega)
        (ends_spaces after (ends_cons (by decide)))
      have hes := readElements_text es n rest (by omega)
      simp only [Elements.text, List.append_assoc, List.cons_append, readElements,
        hbefore, hd, Option.bind_some, hafter, hes, Option.map_some]

theorem readMembers_text (ms : Members) (n : ℕ) (rest : List Char) (hn : ms.text.length < n) :
    readMembers n (ms.text ++ rest) = some (ms, rest) := by
  obtain ⟨n, rfl⟩ : ∃ m, n = m + 1 := ⟨n - 1, by omega⟩
  cases ms with
  | last key before d after =>
      have hitems := key.length_items
      simp only [Members.text, List.length_append, List.length_cons] at hn
      have hkey := readKey_text (n := n) key
        (before.chars ++ (d.text ++ (after.chars ++ '\x7d' :: rest))) (by omega)
      have hbefore := readSpaces_chars before
        (r := d.text ++ (after.chars ++ '\x7d' :: rest)) (d.noSpace _)
      have hafter := readSpaces_chars after (r := '\x7d' :: rest) (noSpace_cons (by decide))
      have hd := readDocument_text d n (after.chars ++ '\x7d' :: rest) (by omega)
        (ends_spaces after (ends_cons (by decide)))
      simp only [Members.text, List.append_assoc, List.cons_append, List.nil_append, readMembers,
        hkey, hbefore, hd, Option.bind_some, hafter]
  | more key before d after ms =>
      have hitems := key.length_items
      simp only [Members.text, List.length_append, List.length_cons] at hn
      have hkey := readKey_text (n := n) key
        (before.chars ++ (d.text ++ (after.chars ++ ',' :: (ms.text ++ rest)))) (by omega)
      have hbefore := readSpaces_chars before
        (r := d.text ++ (after.chars ++ ',' :: (ms.text ++ rest))) (d.noSpace _)
      have hafter := readSpaces_chars after (r := ',' :: (ms.text ++ rest))
        (noSpace_cons (by decide))
      have hd := readDocument_text d n (after.chars ++ ',' :: (ms.text ++ rest)) (by omega)
        (ends_spaces after (ends_cons (by decide)))
      have hms := readMembers_text ms n rest (by omega)
      simp only [Members.text, List.append_assoc, List.cons_append, readMembers,
        hkey, hbefore, hd, Option.bind_some, hafter, hms, Option.map_some]

end

/-- A text is read as a document exactly if it is the text of that document. -/
theorem parse_eq_some_iff (cs : List Char) (t : Spaced) : parse cs = some t ↔ cs = t.chars := by
  constructor
  · intro h
    obtain ⟨before, cs', hbefore, rfl⟩ := readSpaces_sound cs
    simp only [parse, hbefore, Option.bind_eq_some_iff] at h
    obtain ⟨⟨d, cs''⟩, hd, h⟩ := h
    obtain ⟨after, behind, hafter, rfl⟩ := readSpaces_sound cs''
    simp only [hafter] at h
    split_ifs at h with hend
    obtain rfl := Option.some.inj h
    rw [readDocument_sound hd, hend, List.append_nil]
    rfl
  · rintro rfl
    obtain ⟨before, d, after⟩ := t
    have hbefore := readSpaces_chars before (r := d.text ++ after.chars) (d.noSpace _)
    have hends : Ends after.chars := by
      have hnil := ends_spaces after (r := []) (by simp [Ends])
      rwa [List.append_nil] at hnil
    have hafter := readSpaces_chars after (r := []) (by simp [NoSpace])
    rw [List.append_nil] at hafter
    have hd := readDocument_text d ((before.chars ++ (d.text ++ after.chars)).length + 1)
      after.chars (by simp only [List.length_append]; omega) hends
    simp only [parse, Spaced.chars, hbefore, hd, Option.bind_some, hafter, if_true]

/-- The document of a text is the only one. -/
theorem Spaced.chars_injective : Function.Injective Spaced.chars := by
  intro t t' h
  have hparse := (parse_eq_some_iff _ t).mpr rfl
  rw [h, (parse_eq_some_iff _ t').mpr rfl] at hparse
  exact (Option.some.inj hparse).symm

end OpenUnion.JsonText
