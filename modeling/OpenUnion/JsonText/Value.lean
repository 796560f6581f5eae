import OpenUnion.JsonText.Document

/-!
# JSON values

`JSON.parse` evaluates a document: a later member replaces an earlier one of the same key, and the
members whose keys are array indices come first, in ascending order.  `JSON.stringify` prints a
value as a document without white space.  How numbers are read and printed is a parameter.

* `object_ordered`: the members of an object that is built are in the order of properties.
* `value_document`: a value that can be printed is read back.
* `document_value_iff`: a document is printed again as it is exactly if it is compact.
-/

namespace OpenUnion.JsonText

/-- A JSON value. -/
inductive Value (ν : Type) where
  | null
  | bool (b : Bool)
  | num (x : ν)
  | str (s : List UInt16)
  | arr (elems : List (Value ν))
  | obj (members : List (List UInt16 × Value ν))

/-- How numbers are read and printed; a number without a text is printed as `null`. -/
structure Numerals (ν : Type) where
  read : Literal → ν
  print : ν → Option Literal

/-! ## The order of properties -/

/-- The text of an array index. -/
def indexText (n : ℕ) : List UInt16 := (Nat.toDigits 10 n).map fun c => UInt16.ofNat c.toNat

/-- The number that digits denote. -/
def indexNumber (key : List UInt16) : ℕ := key.foldl (fun n u => 10 * n + (u.toNat - 48)) 0

/-- The array index that a key is. -/
def arrayIndex (key : List UInt16) : Option ℕ :=
  if key = indexText (indexNumber key) ∧ indexNumber key < 2 ^ 32 - 1 then some (indexNumber key)
  else none

/-- A new key goes before an old one: an array index before a greater one and before other keys. -/
def goesBefore (key old : List UInt16) : Bool :=
  match arrayIndex key, arrayIndex old with
  | some i, some j => decide (i < j)
  | some _, none => true
  | none, _ => false

/-- Create a property or replace its value. -/
def define {α : Type} (key : List UInt16) (v : α) :
    List (List UInt16 × α) → List (List UInt16 × α)
  | [] => [(key, v)]
  | m :: rest =>
      if m.1 = key then (key, v) :: rest
      else if goesBefore key m.1 then (key, v) :: m :: rest
      else m :: define key v rest

/-- The object that members build, one after the other. -/
def object {α : Type} (members : List (List UInt16 × α)) : List (List UInt16 × α) :=
  members.foldl (fun o m => define m.1 m.2 o) []

/-- The first of two keys of one object comes before the second. -/
def Before (key key' : List UInt16) : Prop :=
  goesBefore key key' = true ∨ arrayIndex key = none ∧ arrayIndex key' = none ∧ key ≠ key'

variable {α ν : Type} {key old : List UInt16} {members rest : List (List UInt16 × α)}
  {N : Numerals ν}

/-- An array index is written in one way. -/
theorem eq_of_arrayIndex {i : ℕ} (h : arrayIndex key = some i) : key = indexText i := by
  unfold arrayIndex at h
  split_ifs at h with hkey
  obtain rfl := Option.some.inj h
  exact hkey.1

/-- A key with a character beyond the digits is no array index. -/
theorem arrayIndex_eq_none {u : UInt16} (hu : u ∈ key) (hletter : 57 < u.toNat) :
    arrayIndex key = none := by
  cases hindex : arrayIndex key with
  | none => rfl
  | some i =>
      rw [eq_of_arrayIndex hindex] at hu
      obtain ⟨c, hc, rfl⟩ := List.mem_map.mp hu
      have hdigit := Nat.isDigit_of_mem_toDigits (by decide) (by decide) hc
      rw [Char.isDigit_iff_toNat] at hdigit
      have hnat : '9'.toNat = 57 := rfl
      rw [Text.unit_toNat (by omega)] at hletter
      omega

theorem goesBefore_iff : goesBefore key old = true ↔
    ∃ i, arrayIndex key = some i ∧ ∀ j, arrayIndex old = some j → i < j := by
  unfold goesBefore
  cases hkey : arrayIndex key with
  | none => simp
  | some i =>
      cases hold : arrayIndex old with
      | none => simp
      | some j => simp

theorem Before.ne (h : Before old key) : old ≠ key := by
  rintro rfl
  rcases h with hbefore | ⟨-, -, hne⟩
  · obtain ⟨i, hi, hlt⟩ := goesBefore_iff.mp hbefore
    exact lt_irrefl i (hlt i hi)
  · exact hne rfl

theorem Before.not_goesBefore (h : Before old key) : ¬ goesBefore key old = true := by
  intro hback
  obtain ⟨i, hi, hlt⟩ := goesBefore_iff.mp hback
  rcases h with hbefore | ⟨-, hkey, -⟩
  · obtain ⟨j, hj, hlt'⟩ := goesBefore_iff.mp hbefore
    have hfirst := hlt j hj
    have hsecond := hlt' i hi
    omega
  · rw [hkey] at hi
    cases hi

/-- Keys that differ are in the one order or in the other. -/
theorem before_of_not (hne : old ≠ key) (h : ¬ goesBefore key old = true) : Before old key := by
  rw [goesBefore_iff] at h
  push Not at h
  cases hkey : arrayIndex key with
  | none =>
      cases hold : arrayIndex old with
      | none => exact .inr ⟨hold, hkey, hne⟩
      | some j => exact .inl (goesBefore_iff.mpr ⟨j, hold, fun i hi => by simp [hkey] at hi⟩)
  | some i =>
      obtain ⟨j, hold, hle⟩ := h i hkey
      have hij : j ≠ i := by
        rintro rfl
        exact hne ((eq_of_arrayIndex hold).trans (eq_of_arrayIndex hkey).symm)
      refine .inl (goesBefore_iff.mpr ⟨j, hold, fun i' hi' => ?_⟩)
      obtain rfl : i = i' := by simpa [hkey] using hi'
      omega

theorem Before.trans_goes {mid : List UInt16} (h : goesBefore key mid = true)
    (h' : Before mid old) : Before key old := by
  obtain ⟨i, hi, hlt⟩ := goesBefore_iff.mp h
  refine .inl (goesBefore_iff.mpr ⟨i, hi, fun k hk => ?_⟩)
  rcases h' with hbefore | ⟨-, hold, -⟩
  · obtain ⟨j, hj, hlt'⟩ := goesBefore_iff.mp hbefore
    exact (hlt j hj).trans (hlt' k hk)
  · rw [hold] at hk
    cases hk

/-- The members are in the order of properties, without duplicates. -/
def Ordered (members : List (List UInt16 × α)) : Prop :=
  members.Pairwise fun m m' => Before m.1 m'.1

/-- A key after all others is put at the end. -/
theorem define_last {v : α} (h : ∀ m ∈ members, Before m.1 key) :
    define key v members = members ++ [(key, v)] := by
  induction members with
  | nil => rfl
  | cons m members ih =>
      have hm := h m List.mem_cons_self
      rw [define, if_neg hm.ne, if_neg hm.not_goesBefore,
        ih fun x hx => h x (List.mem_cons_of_mem _ hx)]
      rfl

theorem mem_define {v : α} {m : List UInt16 × α} (h : m ∈ define key v members) :
    m.1 = key ∨ m ∈ members := by
  induction members with
  | nil =>
      obtain rfl : m = (key, v) := by simpa [define] using h
      exact .inl rfl
  | cons m' members ih =>
      rw [define] at h
      split_ifs at h with heq hbefore
      · rcases List.mem_cons.mp h with rfl | h
        · exact .inl rfl
        · exact .inr (List.mem_cons_of_mem _ h)
      · rcases List.mem_cons.mp h with rfl | h
        · exact .inl rfl
        · exact .inr h
      · rcases List.mem_cons.mp h with rfl | h
        · exact .inr List.mem_cons_self
        · exact (ih h).imp_right (List.mem_cons_of_mem _)

/-- A property that is created or replaced keeps the order. -/
theorem define_ordered {v : α} (h : Ordered members) : Ordered (define key v members) := by
  induction members with
  | nil => exact List.pairwise_singleton _ _
  | cons m members ih =>
      obtain ⟨hm, hrest⟩ := List.pairwise_cons.mp h
      rw [define]
      split_ifs with heq hbefore
      · exact List.pairwise_cons.mpr ⟨fun x hx => heq ▸ hm x hx, hrest⟩
      · refine List.pairwise_cons.mpr ⟨fun x hx => ?_, h⟩
        rcases List.mem_cons.mp hx with rfl | hx
        · exact .inl hbefore
        · exact Before.trans_goes hbefore (hm x hx)
      · refine List.pairwise_cons.mpr ⟨fun x hx => ?_, ih hrest⟩
        rcases mem_define hx with hkey | hx
        · rw [hkey]
          exact before_of_not heq hbefore
        · exact hm x hx

/-- The members of an object are in the order of properties. -/
theorem object_ordered (members : List (List UInt16 × α)) : Ordered (object members) := by
  have hrun : ∀ o : List (List UInt16 × α), Ordered o →
      Ordered (members.foldl (fun o m => define m.1 m.2 o) o) := by
    induction members with
    | nil => exact fun o ho => ho
    | cons m members ih => exact fun o ho => ih _ (define_ordered ho)
  exact hrun [] List.Pairwise.nil

/-- Members that are in order build themselves. -/
theorem object_eq (h : Ordered members) : object members = members := by
  have hrun : ∀ (ms o : List (List UInt16 × α)), Ordered (o ++ ms) →
      ms.foldl (fun o m => define m.1 m.2 o) o = o ++ ms := by
    intro ms
    induction ms with
    | nil => exact fun o _ => (List.append_nil o).symm
    | cons m ms ih =>
        intro o ho
        have hlast : ∀ x ∈ o, Before x.1 m.1 := fun x hx =>
          (List.pairwise_append.mp ho).2.2 x hx m List.mem_cons_self
        have hstep : o ++ m :: ms = (o ++ [m]) ++ ms := List.append_cons o m ms
        rw [List.foldl_cons, define_last hlast, hstep]
        exact ih (o ++ [m]) (hstep ▸ ho)
  exact hrun members [] h

/-! ## Evaluation -/

mutual

/-- The value of a document. -/
def Document.value (N : Numerals ν) : Document → Value ν
  | .null => .null
  | .bool b => .bool b
  | .num l => .num (N.read l)
  | .str items => .str (itemsUnits items)
  | .emptyArr _ => .arr []
  | .arr elems => .arr (elems.values N)
  | .emptyObj _ => .obj []
  | .obj members => .obj (object (members.values N))

/-- The values of elements. -/
def Elements.values (N : Numerals ν) : Elements → List (Value ν)
  | .last _ d _ => [d.value N]
  | .more _ d _ rest => d.value N :: rest.values N

/-- The members in the order of the text. -/
def Members.values (N : Numerals ν) : Members → List (List UInt16 × Value ν)
  | .last key _ d _ => [(itemsUnits key.items, d.value N)]
  | .more key _ d _ rest => (itemsUnits key.items, d.value N) :: rest.values N

end

/-- `JSON.parse`; `none` where it throws. -/
def parseValue (N : Numerals ν) (cs : List Char) : Option (Value ν) :=
  (parse cs).map fun t => t.document.value N

/-! ## Printing -/

/-- Elements without white space. -/
def elementsOf (d : Document) : List Document → Elements
  | [] => .last .empty d .empty
  | d' :: ds => .more .empty d .empty (elementsOf d' ds)

/-- An array without white space. -/
def arrayOf : List Document → Document
  | [] => .emptyArr .empty
  | d :: ds => .arr (elementsOf d ds)

/-- A key without white space. -/
def keyOf (key : List UInt16) : Key := ⟨.empty, quoteItems key, .empty⟩

/-- Members without white space. -/
def membersOf (m : List UInt16 × Document) : List (List UInt16 × Document) → Members
  | [] => .last (keyOf m.1) .empty m.2 .empty
  | m' :: ms => .more (keyOf m.1) .empty m.2 .empty (membersOf m' ms)

/-- An object without white space. -/
def objectOf : List (List UInt16 × Document) → Document
  | [] => .emptyObj .empty
  | m :: ms => .obj (membersOf m ms)

mutual

/-- The document that `JSON.stringify` prints. -/
def Value.document (N : Numerals ν) : Value ν → Document
  | .null => .null
  | .bool b => .bool b
  | .num x =>
      match N.print x with
      | some l => .num l
      | none => .null
  | .str s => .str (quoteItems s)
  | .arr elems => arrayOf (documents N elems)
  | .obj members => objectOf (memberDocuments N members)

/-- The documents of values. -/
def documents (N : Numerals ν) : List (Value ν) → List Document
  | [] => []
  | v :: vs => v.document N :: documents N vs

/-- The documents of members. -/
def memberDocuments (N : Numerals ν) : List (List UInt16 × Value ν) → List (List UInt16 × Document)
  | [] => []
  | (key, v) :: ms => (key, v.document N) :: memberDocuments N ms

end

/-- `JSON.stringify`. -/
def Value.stringify (N : Numerals ν) (v : Value ν) : List Char := (v.document N).text

/-! ## Printed values are read back -/

mutual

/-- A value that can be printed: its numbers are read back from their texts, and the members of
its objects are in the order of properties. -/
def Value.Legal (N : Numerals ν) : Value ν → Prop
  | .null | .bool _ | .str _ => True
  | .num x => ∃ l, N.print x = some l ∧ N.read l = x
  | .arr elems => LegalElems N elems
  | .obj members => Ordered members ∧ LegalMembers N members

/-- All elements can be printed. -/
def LegalElems (N : Numerals ν) : List (Value ν) → Prop
  | [] => True
  | v :: vs => v.Legal N ∧ LegalElems N vs

/-- All members can be printed. -/
def LegalMembers (N : Numerals ν) : List (List UInt16 × Value ν) → Prop
  | [] => True
  | (_, v) :: ms => v.Legal N ∧ LegalMembers N ms

end

theorem values_elementsOf (d : Document) (ds : List Document) :
    (elementsOf d ds).values N = (d :: ds).map (Document.value N) := by
  induction ds generalizing d with
  | nil => rfl
  | cons d' ds ih =>
      rw [elementsOf, Elements.values, ih]
      rfl

theorem value_arrayOf (ds : List Document) :
    (arrayOf ds).value N = .arr (ds.map (Document.value N)) := by
  cases ds with
  | nil => rfl
  | cons d ds => rw [arrayOf, Document.value, values_elementsOf]

theorem values_membersOf (m : List UInt16 × Document) (ms : List (List UInt16 × Document)) :
    (membersOf m ms).values N = (m :: ms).map fun m => (m.1, m.2.value N) := by
  induction ms generalizing m with
  | nil => simp [membersOf, Members.values, keyOf, units_quoteItems]
  | cons m' ms ih =>
      simp only [membersOf, Members.values, keyOf, units_quoteItems, ih, List.map_cons]

theorem value_objectOf (ms : List (List UInt16 × Document)) :
    (objectOf ms).value N = .obj (object (ms.map fun m => (m.1, m.2.value N))) := by
  cases ms with
  | nil => rfl
  | cons m ms => rw [objectOf, Document.value, values_membersOf]

mutual

/-- A value that can be printed is read back. -/
theorem value_document (v : Value ν) (h : v.Legal N) : (v.document N).value N = v := by
  cases v with
  | null => rfl
  | bool b => rfl
  | num x =>
      obtain ⟨l, hprint, hread⟩ := h
      simp only [Value.document, hprint, Document.value, hread]
  | str s => simp only [Value.document, Document.value, units_quoteItems]
  | arr elems =>
      have helems : LegalElems N elems := by simpa only [Value.Legal] using h
      rw [Value.document, value_arrayOf, values_documents elems helems]
  | obj members =>
      obtain ⟨hordered, hmembers⟩ := h
      rw [Value.document, value_objectOf, values_memberDocuments members hmembers,
        object_eq hordered]

theorem values_documents (vs : List (Value ν)) (h : LegalElems N vs) :
    (documents N vs).map (Document.value N) = vs := by
  cases vs with
  | nil => rfl
  | cons v vs =>
      obtain ⟨hv, hvs⟩ := h
      rw [documents, List.map_cons, value_document v hv, values_documents vs hvs]

theorem values_memberDocuments (ms : List (List UInt16 × Value ν)) (h : LegalMembers N ms) :
    ((memberDocuments N ms).map fun m => (m.1, m.2.value N)) = ms := by
  match ms, h with
  | [], _ => rfl
  | (key, v) :: ms, h =>
      obtain ⟨hv, hms⟩ := h
      rw [memberDocuments, List.map_cons, value_document v hv, values_memberDocuments ms hms]

end

/-! ## Documents that are printed as they are -/

/-- A key without white space that is spelled as `JSON.stringify` spells it. -/
def Key.Compact (k : Key) : Prop :=
  k.before.chars = [] ∧ KeptItems k.items ∧ k.after.chars = []

/-- The keys of members, in the order of the text. -/
def Members.keys : Members → List (List UInt16)
  | .last key _ _ _ => [itemsUnits key.items]
  | .more key _ _ _ rest => itemsUnits key.items :: rest.keys

mutual

/-- A document without white space, every number and character of which is spelled as
`JSON.stringify` spells it, and every object of which has its keys once and in order. -/
def Document.Compact (N : Numerals ν) : Document → Prop
  | .null | .bool _ => True
  | .num l => N.print (N.read l) = some l
  | .str items => KeptItems items
  | .emptyArr inside | .emptyObj inside => inside.chars = []
  | .arr elems => elems.Compact N
  | .obj members => members.keys.Pairwise Before ∧ members.Compact N

/-- Elements without white space. -/
def Elements.Compact (N : Numerals ν) : Elements → Prop
  | .last before d after => before.chars = [] ∧ d.Compact N ∧ after.chars = []
  | .more before d after rest =>
      before.chars = [] ∧ d.Compact N ∧ after.chars = [] ∧ rest.Compact N

/-- Members without white space. -/
def Members.Compact (N : Numerals ν) : Members → Prop
  | .last key before d after =>
      key.Compact ∧ before.chars = [] ∧ d.Compact N ∧ after.chars = []
  | .more key before d after rest =>
      key.Compact ∧ before.chars = [] ∧ d.Compact N ∧ after.chars = [] ∧ rest.Compact N

end

theorem empty_eq_iff (w : Spaces) : Spaces.empty = w ↔ w.chars = [] := by
  obtain ⟨chars, spaces⟩ := w
  simp only [Spaces.empty, Spaces.mk.injEq]
  exact eq_comm

theorem keyOf_eq_iff (k : Key) : keyOf (itemsUnits k.items) = k ↔ k.Compact := by
  obtain ⟨before, items, after⟩ := k
  simp only [keyOf, Key.mk.injEq, empty_eq_iff, quoteItems_units, Key.Compact]

/-- The keys of an object that is printed. -/
theorem keys_membersOf (m : List UInt16 × Document) (ms : List (List UInt16 × Document)) :
    (membersOf m ms).keys = (m :: ms).map Prod.fst := by
  induction ms generalizing m with
  | nil => simp [membersOf, Members.keys, keyOf, units_quoteItems]
  | cons m' ms ih =>
      simp only [membersOf, Members.keys, keyOf, units_quoteItems, ih, List.map_cons]

theorem keys_memberDocuments (ms : List (List UInt16 × Value ν)) :
    (memberDocuments N ms).map Prod.fst = ms.map Prod.fst := by
  induction ms with
  | nil => rfl
  | cons m ms ih => rw [memberDocuments, List.map_cons, List.map_cons, ih]

theorem keys_values (ms : Members) : ms.keys = (ms.values N).map Prod.fst := by
  match ms with
  | .last key before d after => rfl
  | .more key before d after rest =>
      rw [Members.keys, keys_values rest]
      rfl

/-- An object is printed as it is only if its keys are in order. -/
theorem keys_ordered {ms : Members}
    (h : objectOf (memberDocuments N (object (ms.values N))) = .obj ms) :
    Ordered (ms.values N) := by
  have hordered := object_ordered (ms.values N)
  generalize object (ms.values N) = o at h hordered
  cases hdocuments : memberDocuments N o with
  | nil =>
      rw [hdocuments] at h
      cases h
  | cons m more =>
      rw [hdocuments, objectOf, Document.obj.injEq] at h
      have hkeys := keys_membersOf m more
      rw [h, ← hdocuments, keys_memberDocuments, keys_values (N := N)] at hkeys
      have hpair : o.Pairwise fun m m' => Before m.1 m'.1 := hordered
      rw [← List.pairwise_map, ← hkeys, List.pairwise_map] at hpair
      exact hpair

mutual

/-- A document is printed again as it is exactly if it is compact. -/
theorem document_value_iff (d : Document) : (d.value N).document N = d ↔ d.Compact N := by
  cases d with
  | null => exact iff_of_true rfl trivial
  | bool b => exact iff_of_true rfl trivial
  | num l =>
      simp only [Document.value, Value.document, Document.Compact]
      cases hprint : N.print (N.read l) with
      | none => simp
      | some l' => simp
  | str items =>
      simp only [Document.value, Value.document, Document.Compact, Document.str.injEq,
        quoteItems_units]
  | emptyArr inside =>
      simp only [Document.value, Value.document, documents, arrayOf, Document.Compact,
        Document.emptyArr.injEq, empty_eq_iff]
  | emptyObj inside =>
      simp only [Document.value, Value.document, memberDocuments, objectOf, Document.Compact,
        Document.emptyObj.injEq, empty_eq_iff]
  | arr es =>
      obtain ⟨v, vs, hvalues, hes⟩ := elements_value_iff es
      simp only [Document.value, Value.document, hvalues, documents, arrayOf, Document.Compact,
        Document.arr.injEq, hes]
  | obj ms =>
      obtain ⟨m, more, hvalues, hms⟩ := members_value_iff ms
      have hordered : ms.keys.Pairwise Before ↔ Ordered (ms.values N) := by
        rw [keys_values (N := N), List.pairwise_map, Ordered]
      simp only [Document.value, Value.document, Document.Compact, hordered]
      constructor
      · intro h
        have hkeys := keys_ordered h
        rw [object_eq hkeys, hvalues] at h
        exact ⟨hkeys, hms.mp (Document.obj.inj h)⟩
      · rintro ⟨hkeys, hcompact⟩
        rw [object_eq hkeys, hvalues]
        exact congrArg Document.obj (hms.mpr hcompact)

theorem elements_value_iff (es : Elements) : ∃ v vs, es.values N = v :: vs ∧
    (elementsOf (v.document N) (documents N vs) = es ↔ es.Compact N) := by
  cases es with
  | last before d after =>
      refine ⟨d.value N, [], rfl, ?_⟩
      simp only [documents, elementsOf, Elements.Compact, Elements.last.injEq, empty_eq_iff,
        document_value_iff d]
  | more before d after rest =>
      obtain ⟨v, vs, hvalues, hrest⟩ := elements_value_iff rest
      refine ⟨d.value N, v :: vs, by rw [Elements.values, hvalues], ?_⟩
      simp only [documents, elementsOf, Elements.Compact, Elements.more.injEq, empty_eq_iff,
        document_value_iff d, hrest]

theorem members_value_iff (ms : Members) : ∃ m more, ms.values N = m :: more ∧
    (membersOf (m.1, m.2.document N) (memberDocuments N more) = ms ↔ ms.Compact N) := by
  cases ms with
  | last key before d after =>
      refine ⟨(itemsUnits key.items, d.value N), [], rfl, ?_⟩
      simp only [memberDocuments, membersOf, Members.Compact, Members.last.injEq, empty_eq_iff,
        document_value_iff d, keyOf_eq_iff]
  | more key before d after rest =>
      obtain ⟨m, more, hvalues, hrest⟩ := members_value_iff rest
      refine ⟨(itemsUnits key.items, d.value N), m :: more, by rw [Members.values, hvalues], ?_⟩
      simp only [memberDocuments, membersOf, Members.Compact, Members.more.injEq, empty_eq_iff,
        document_value_iff d, keyOf_eq_iff, hrest]

end

/-- A value is printed without white space around it. -/
theorem stringify_chars (v : Value ν) :
    v.stringify N = Spaced.chars ⟨.empty, v.document N, .empty⟩ := by
  simp [Value.stringify, Spaced.chars, Spaces.empty]

/-- A text is printed again as it is exactly if it is compact, without white space around it. -/
theorem stringify_parse_iff {cs : List Char} {t : Spaced} (h : parse cs = some t) :
    (t.document.value N).stringify N = cs ↔
      t.before.chars = [] ∧ t.document.Compact N ∧ t.after.chars = [] := by
  rw [parse_eq_some_iff] at h
  obtain ⟨before, d, after⟩ := t
  rw [h, stringify_chars, Spaced.chars_injective.eq_iff, Spaced.mk.injEq, empty_eq_iff,
    empty_eq_iff, document_value_iff]

/-- A printed value that can be printed is read back. -/
theorem parseValue_stringify {v : Value ν} (h : v.Legal N) :
    parseValue N (v.stringify N) = some v := by
  rw [parseValue, (parse_eq_some_iff _ _).mpr (stringify_chars v), Option.map_some,
    value_document v h]

end OpenUnion.JsonText
