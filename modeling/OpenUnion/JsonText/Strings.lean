import OpenUnion.Abi.Words
import OpenUnion.Text.Utf16

/-!
# Strings in JSON text

Between its quotes a string is spelled item by item: a character as it is, an escape of two
characters, or four hexadecimal digits of a code unit.  `quoteItems` spells a string the way
`JSON.stringify` does.

* `readItems_sound`, `readItems_text`: what is read is in the text, and every spelling is read.
* `units_quoteItems`: the spelling of `JSON.stringify` denotes the string.
* `quoteItems_units`: a spelling is the one of `JSON.stringify` exactly if it is kept.
-/

namespace OpenUnion.JsonText

open Abi (digitChar_of_hexValue hexValue hexValue_digitChar hexValue_lt)
open Text

/-! ## Items -/

/-- A hexadecimal digit of either case. -/
structure HexDigit where
  char : Char
  digit : (hexValue char).isSome = true

/-- The number of a digit. -/
def HexDigit.value (d : HexDigit) : ℕ := (hexValue d.char).get d.digit

/-- The digit of a number, in lower case. -/
def hexDigit (n : ℕ) : HexDigit :=
  ⟨(n % 16).digitChar, by rw [hexValue_digitChar (Nat.mod_lt n (by decide))]; rfl⟩

/-- The code unit of four digits. -/
def hexUnit (a b c d : HexDigit) : UInt16 :=
  UInt16.ofNat (((a.value * 16 + b.value) * 16 + c.value) * 16 + d.value)

/-- The escapes of two characters. -/
inductive Short where
  | quote | backslash | slash | backspace | formFeed | lineFeed | carriageReturn | tab
  deriving DecidableEq

/-- The character behind the backslash. -/
def Short.letter : Short → Char
  | .quote => '"'
  | .backslash => '\\'
  | .slash => '/'
  | .backspace => 'b'
  | .formFeed => 'f'
  | .lineFeed => 'n'
  | .carriageReturn => 'r'
  | .tab => 't'

/-- The character that is meant. -/
def Short.char : Short → Char
  | .quote => '"'
  | .backslash => '\\'
  | .slash => '/'
  | .backspace => Char.ofNat 8
  | .formFeed => Char.ofNat 12
  | .lineFeed => '\n'
  | .carriageReturn => '\r'
  | .tab => '\t'

/-- A character that stands for itself. -/
def isPlain (c : Char) : Bool := decide (0x20 ≤ c.toNat ∧ c ≠ '"' ∧ c ≠ '\\')

/-- What a string is spelled with. -/
inductive Item where
  | plain (c : Char) (h : isPlain c = true)
  | short (e : Short)
  | unicode (a b c d : HexDigit)

/-- The text of an item. -/
def Item.text : Item → List Char
  | .plain c _ => [c]
  | .short e => ['\\', e.letter]
  | .unicode a b c d => ['\\', 'u', a.char, b.char, c.char, d.char]

/-- The code units of an item. -/
def Item.units : Item → List UInt16
  | .plain c _ => utf16 c
  | .short e => utf16 e.char
  | .unicode a b c d => [hexUnit a b c d]

/-- The text between the quotes. -/
def itemsText (items : List Item) : List Char := items.flatMap Item.text

/-- The string that items spell. -/
def itemsUnits (items : List Item) : List UInt16 := items.flatMap Item.units

/-! ## Reading -/

/-- Read a hexadecimal digit. -/
def readHex (c : Char) : Option HexDigit :=
  if h : (hexValue c).isSome = true then some ⟨c, h⟩ else none

/-- Read four hexadecimal digits. -/
def readUnicode (a b c d : Char) : Option Item :=
  (readHex a).bind fun a => (readHex b).bind fun b => (readHex c).bind fun c =>
    (readHex d).map fun d => .unicode a b c d

/-- Read the character behind a backslash. -/
def readShort (c : Char) : Option Short :=
  [.quote, .backslash, .slash, .backspace, .formFeed, .lineFeed, .carriageReturn, .tab].find?
    fun e => e.letter = c

/-- Read an item. -/
def readItem : List Char → Option (Item × List Char)
  | '\\' :: 'u' :: a :: b :: c :: d :: rest => (readUnicode a b c d).map fun i => (i, rest)
  | '\\' :: e :: rest => (readShort e).map fun e => (.short e, rest)
  | c :: rest => if h : isPlain c = true then some (.plain c h, rest) else none
  | [] => none

/-- Read the items up to the closing quote, and that. -/
def readItems : ℕ → List Char → Option (List Item × List Char)
  | 0, _ => none
  | _ + 1, '"' :: rest => some ([], rest)
  | n + 1, cs => (readItem cs).bind fun i => (readItems n i.2).map fun r => (i.1 :: r.1, r.2)

variable {c : Char} {cs rest : List Char} {i : Item} {items : List Item} {n : ℕ} {s : List UInt16}
  {u : UInt16}

theorem readHex_sound {d : HexDigit} (h : readHex c = some d) : d.char = c := by
  unfold readHex at h
  split_ifs at h
  obtain rfl := Option.some.inj h
  rfl

theorem readHex_char (d : HexDigit) : readHex d.char = some d := dif_pos d.digit

theorem readShort_sound {e : Short} (h : readShort c = some e) : e.letter = c := by
  simpa using List.find?_some h

theorem readShort_letter (e : Short) : readShort e.letter = some e := by
  cases e <;> rfl

/-- What is read is in the text. -/
theorem readItem_sound (h : readItem cs = some (i, rest)) : cs = i.text ++ rest := by
  unfold readItem at h
  split at h
  · simp only [Option.map_eq_some_iff, Prod.mk.injEq, readUnicode, Option.bind_eq_some_iff] at h
    obtain ⟨_, ⟨a, ha, b, hb, c, hc, d, hd, rfl⟩, rfl, rfl⟩ := h
    rw [← readHex_sound ha, ← readHex_sound hb, ← readHex_sound hc, ← readHex_sound hd]
    rfl
  · simp only [Option.map_eq_some_iff, Prod.mk.injEq] at h
    obtain ⟨e, he, rfl, rfl⟩ := h
    rw [← readShort_sound he]
    rfl
  · split_ifs at h
    simp only [Option.some.injEq, Prod.mk.injEq] at h
    obtain ⟨rfl, rfl⟩ := h
    rfl
  · cases h

theorem readItems_sound (h : readItems n cs = some (items, rest)) :
    cs = itemsText items ++ '"' :: rest := by
  induction n generalizing cs items with
  | zero => cases h
  | succ n ih =>
      unfold readItems at h
      split at h
      · next hzero => cases hzero
      · simp only [Option.some.injEq, Prod.mk.injEq] at h
        obtain ⟨rfl, rfl⟩ := h
        rfl
      · next m hm _ =>
          obtain rfl := Nat.succ.inj hm
          simp only [Option.bind_eq_some_iff, Option.map_eq_some_iff, Prod.mk.injEq] at h
          obtain ⟨⟨i, cs'⟩, hi, ⟨more, rest'⟩, hmore, rfl, rfl⟩ := h
          have hrest : cs' = itemsText more ++ '"' :: rest' := ih hmore
          rw [readItem_sound hi, hrest]
          simp [itemsText]

/-- Every item is read. -/
theorem readItem_text (i : Item) (rest : List Char) :
    readItem (i.text ++ rest) = some (i, rest) := by
  cases i with
  | plain c h =>
      simp only [Item.text, List.singleton_append]
      unfold readItem
      split
      · next heq =>
          obtain ⟨rfl, -⟩ := List.cons.inj heq
          exact absurd h (by decide)
      · next heq =>
          obtain ⟨rfl, -⟩ := List.cons.inj heq
          exact absurd h (by decide)
      · next heq =>
          obtain ⟨rfl, rfl⟩ := List.cons.inj heq
          rw [dif_pos h]
      · next heq => cases heq
  | short e => cases e <;> rfl
  | unicode a b c d =>
      simp only [Item.text, List.cons_append, List.nil_append, readItem, readUnicode, readHex_char,
        Option.bind_some, Option.map_some]

/-- No item starts with a quote. -/
theorem Item.text_head (i : Item) : ∃ c more, i.text = c :: more ∧ c ≠ '"' := by
  cases i with
  | plain c h =>
      refine ⟨c, [], rfl, fun heq => ?_⟩
      rw [heq] at h
      exact absurd h (by decide)
  | short e => exact ⟨'\\', _, rfl, by decide⟩
  | unicode a b c d => exact ⟨'\\', _, rfl, by decide⟩

/-- Every spelling is read. -/
theorem readItems_text (items : List Item) (rest : List Char) (hn : items.length < n) :
    readItems n (itemsText items ++ '"' :: rest) = some (items, rest) := by
  induction items generalizing n with
  | nil =>
      cases n with
      | zero => exact absurd hn (Nat.not_lt_zero _)
      | succ n => rfl
  | cons i items ih =>
      cases n with
      | zero => exact absurd hn (Nat.not_lt_zero _)
      | succ n =>
          have hmore := ih (n := n) (Nat.lt_of_succ_lt_succ hn)
          have hitem := readItem_text i (itemsText items ++ '"' :: rest)
          obtain ⟨c, more, htext, hquote⟩ := i.text_head
          have hcs : itemsText (i :: items) ++ '"' :: rest =
              i.text ++ (itemsText items ++ '"' :: rest) := by simp [itemsText]
          rw [hcs]
          unfold readItems
          split
          · next hzero => cases hzero
          · next heq =>
              rw [htext] at heq
              exact absurd (List.cons.inj heq).1 hquote
          · next m hm _ =>
              obtain rfl := Nat.succ.inj hm
              rw [hitem, Option.bind_some, hmore]
              rfl

/-! ## The spelling of `JSON.stringify` -/

/-- The escape of a code unit. -/
def escapeItem (u : UInt16) : Item :=
  .unicode (hexDigit (u.toNat / 4096)) (hexDigit (u.toNat / 256)) (hexDigit (u.toNat / 16))
    (hexDigit u.toNat)

/-- The short escape a character is spelled with. -/
def shortOf (c : Char) : Option Short :=
  [.quote, .backslash, .backspace, .formFeed, .lineFeed, .carriageReturn, .tab].find?
    fun e => e.char = c

/-- The item of a character. -/
def charItem (c : Char) : Item :=
  match shortOf c with
  | some e => .short e
  | none => if h : isPlain c = true then .plain c h else escapeItem (UInt16.ofNat c.toNat)

/-- The item of a code point. -/
def pointItem : CodePoint → Item
  | .char c => charItem c
  | .lone u => escapeItem u

/-- The items between the quotes, `QuoteJSONString`. -/
def quoteItems (s : List UInt16) : List Item := (codePoints s).map pointItem

theorem hexDigit_value (n : ℕ) : (hexDigit n).value = n % 16 := by
  simp only [HexDigit.value, hexDigit, hexValue_digitChar (Nat.mod_lt n (by decide : 16 > 0)),
    Option.get_some]

theorem HexDigit.value_lt (d : HexDigit) : d.value < 16 := hexValue_lt (Option.some_get d.digit).symm

theorem hexUnit_escape (u : UInt16) : (escapeItem u).units = [u] := by
  have hlt := unit_lt u
  have hcode : ((u.toNat / 4096 % 16 * 16 + u.toNat / 256 % 16) * 16 + u.toNat / 16 % 16) * 16 +
      u.toNat % 16 = u.toNat := by omega
  simp only [escapeItem, Item.units, hexUnit, hexDigit_value, hcode, UInt16.ofNat_toNat]

theorem shortOf_char {e : Short} (h : shortOf c = some e) : e.char = c := by
  simpa using List.find?_some h

/-- A character that is neither plain nor has a short escape is a control character. -/
theorem control_of_escaped (hshort : shortOf c = none) (hplain : ¬ isPlain c = true) :
    c.toNat < 0x20 := by
  by_contra hcontrol
  simp only [isPlain, decide_eq_true_eq] at hplain
  have hspecial : c = '"' ∨ c = '\\' := by
    by_contra hno
    rw [not_or] at hno
    exact hplain ⟨not_lt.mp hcontrol, hno⟩
  rcases hspecial with rfl | rfl
  · exact absurd hshort (by decide)
  · exact absurd hshort (by decide)

theorem utf16_control (hcontrol : c.toNat < 0x20) : utf16 c = [UInt16.ofNat c.toNat] :=
  if_pos (by omega)

theorem units_charItem (c : Char) : (charItem c).units = utf16 c := by
  unfold charItem
  split
  · next e he => rw [Item.units, shortOf_char he]
  · next hshort =>
      split_ifs with hplain
      · rfl
      · rw [hexUnit_escape, utf16_control (control_of_escaped hshort hplain)]

theorem units_pointItem (p : CodePoint) : (pointItem p).units = p.units := by
  cases p with
  | char c => exact units_charItem c
  | lone u => exact hexUnit_escape u

/-- The spelling of `JSON.stringify` denotes the string. -/
theorem units_quoteItems (s : List UInt16) : itemsUnits (quoteItems s) = s := by
  have hpoints : (fun p => (pointItem p).units) = CodePoint.units := funext units_pointItem
  rw [itemsUnits, quoteItems, List.flatMap_map, hpoints, codePoints_units]

/-! ## Spellings that are kept -/

/-- A digit in lower case. -/
def HexDigit.Lower (d : HexDigit) : Prop := d.char.toLower = d.char

/-- A code unit that `JSON.stringify` spells with hexadecimal digits: a surrogate that stands
alone, or a control character without an escape of its own. -/
def NeedsDigits (u : UInt16) : Prop :=
  (isHigh u || isLow u) = true ∨ u.toNat < 0x20 ∧ shortOf (Char.ofNat u.toNat) = none

/-- `JSON.stringify` spells what an item denotes with this item. -/
def Item.Kept : Item → Prop
  | .plain _ _ => True
  | .short e => e ≠ .slash
  | .unicode a b c d =>
      (a.Lower ∧ b.Lower ∧ c.Lower ∧ d.Lower) ∧ NeedsDigits (hexUnit a b c d)

/-- The item is the escape of a surrogate. -/
def Item.isHalf (half : UInt16 → Bool) : Item → Bool
  | .unicode a b c d => half (hexUnit a b c d)
  | _ => false

/-- Every item is kept, and no two escapes are the halves of a pair. -/
def KeptItems : List Item → Prop
  | [] => True
  | i :: rest =>
      i.Kept ∧ (i.isHalf isHigh = true → ∀ j ∈ rest.head?, j.isHalf isLow = false) ∧ KeptItems rest

theorem digitChar_lower {n : ℕ} (hn : n < 16) : n.digitChar.toLower = n.digitChar := by
  interval_cases n <;> decide

theorem hexDigit_value_eq (d : HexDigit) : hexDigit d.value = d ↔ d.Lower := by
  have hread : hexValue d.char = some d.value := (Option.some_get d.digit).symm
  have hmod : d.value % 16 = d.value := Nat.mod_eq_of_lt d.value_lt
  constructor
  · intro h
    have hchar : d.char = d.value.digitChar := by
      rw [← hmod]
      exact (congrArg HexDigit.char h).symm
    rw [HexDigit.Lower, hchar, digitChar_lower d.value_lt]
  · intro h
    have hchar := digitChar_of_hexValue h hread
    obtain ⟨char, digit⟩ := d
    simp only [hexDigit, hmod, HexDigit.mk.injEq]
    exact hchar.symm

theorem hexUnit_toNat (a b c d : HexDigit) : (hexUnit a b c d).toNat =
    ((a.value * 16 + b.value) * 16 + c.value) * 16 + d.value := by
  have ha := a.value_lt
  have hb := b.value_lt
  have hc := c.value_lt
  have hd := d.value_lt
  exact unit_toNat (by omega)

theorem hexDigit_mod (n : ℕ) : hexDigit (n % 16) = hexDigit n := by
  simp only [hexDigit, Nat.mod_mod]

/-- An escape that is spelled again is the same in lower case. -/
theorem escapeItem_hexUnit (a b c d : HexDigit) :
    escapeItem (hexUnit a b c d) = .unicode a b c d ↔ a.Lower ∧ b.Lower ∧ c.Lower ∧ d.Lower := by
  have ha := a.value_lt
  have hb := b.value_lt
  have hc := c.value_lt
  have hd := d.value_lt
  have hcode := hexUnit_toNat a b c d
  have hfirst : (hexUnit a b c d).toNat / 4096 = a.value := by omega
  have hsecond : (hexUnit a b c d).toNat / 256 % 16 = b.value := by omega
  have hthird : (hexUnit a b c d).toNat / 16 % 16 = c.value := by omega
  have hfourth : (hexUnit a b c d).toNat % 16 = d.value := by omega
  rw [escapeItem, hfirst, ← hexDigit_mod (_ / 256), hsecond, ← hexDigit_mod (_ / 16), hthird,
    ← hexDigit_mod (hexUnit a b c d).toNat, hfourth]
  simp only [Item.unicode.injEq, hexDigit_value_eq]

theorem shortOf_plain (h : isPlain c = true) : shortOf c = none := by
  rw [shortOf, List.find?_eq_none]
  intro e he
  rw [decide_eq_true_eq]
  rintro rfl
  revert h
  cases e <;> first | decide | exact absurd he (by decide)

theorem charItem_plain (h : isPlain c = true) : charItem c = .plain c h := by
  unfold charItem
  rw [shortOf_plain h]
  exact dif_pos h

theorem charItem_short (e : Short) : charItem e.char = .short e ↔ e ≠ .slash := by
  cases e with
  | slash =>
      rw [Short.char, charItem_plain (by decide)]
      simp
  | _ => exact iff_of_true rfl (by decide)

/-- Beyond the control characters no character is spelled with digits. -/
theorem charItem_unicode {a b c' d : HexDigit} (h : charItem c = .unicode a b c' d) :
    c.toNat < 0x20 ∧ shortOf c = none := by
  unfold charItem at h
  split at h
  · cases h
  · next hshort =>
      split_ifs at h with hplain
      exact ⟨control_of_escaped hshort hplain, hshort⟩

/-- The first unit of a character is no second half. -/
theorem utf16_head (c : Char) : ∃ u more, utf16 c = u :: more ∧ isLow u = false := by
  have hvalid := char_valid c
  rw [utf16]
  split_ifs with hsmall
  · refine ⟨_, _, rfl, ?_⟩
    rw [isLow, unit_toNat hsmall, decide_eq_false_iff_not]
    omega
  · refine ⟨_, _, rfl, ?_⟩
    rw [isLow, unit_toNat (by omega), decide_eq_false_iff_not]
    omega

/-- A string begins with a second half where its first item is the escape of one. -/
theorem head_low (items : List Item) : (∀ l ∈ (itemsUnits items).head?, isLow l = false) ↔
    ∀ j ∈ items.head?, j.isHalf isLow = false := by
  cases items with
  | nil => simp [itemsUnits]
  | cons j rest =>
      have hchar : ∀ c : Char, ∀ l ∈ (utf16 c ++ itemsUnits rest).head?, isLow l = false := by
        intro c l hl
        obtain ⟨u, more, hunits, hlow⟩ := utf16_head c
        rw [hunits] at hl
        obtain rfl : u = l := by simpa using hl
        exact hlow
      have hcons : itemsUnits (j :: rest) = j.units ++ itemsUnits rest := rfl
      rw [hcons]
      cases j with
      | plain c h => exact iff_of_true (hchar c) (by simp [Item.isHalf])
      | short e => exact iff_of_true (hchar e.char) (by simp [Item.isHalf])
      | unicode a b c d => simp [Item.units, Item.isHalf]

/-- A code unit that does not pair is spelled with digits where it needs them. -/
theorem pointItem_unit (a b c d : HexDigit) :
    pointItem (unitPoint (hexUnit a b c d)) = .unicode a b c d ↔ (Item.unicode a b c d).Kept := by
  generalize hu : hexUnit a b c d = u
  have hescape : escapeItem u = .unicode a b c d ↔ a.Lower ∧ b.Lower ∧ c.Lower ∧ d.Lower := by
    rw [← hu]
    exact escapeItem_hexUnit a b c d
  simp only [Item.Kept, hu, NeedsDigits]
  unfold unitPoint
  cases hsur : isHigh u || isLow u with
  | true =>
      rw [if_pos rfl, pointItem, hescape]
      simp
  | false =>
      have hnat := toNat_ofNat (unit_valid hsur)
      rw [if_neg (by decide), pointItem]
      constructor
      · intro h
        obtain ⟨hcontrol, hshort⟩ := charItem_unicode h
        rw [hnat] at hcontrol
        refine ⟨?_, .inr ⟨hcontrol, hshort⟩⟩
        rw [← hescape, ← h]
        unfold charItem
        have hplain : ¬ isPlain (Char.ofNat u.toNat) = true := by
          simp only [isPlain, hnat, decide_eq_true_eq]
          omega
        rw [hshort, dif_neg hplain, hnat, UInt16.ofNat_toNat]
      · rintro ⟨hlower, hneeds⟩
        rcases hneeds with hfalse | ⟨hcontrol, hshort⟩
        · cases hfalse
        · have hplain : ¬ isPlain (Char.ofNat u.toNat) = true := by
            simp only [isPlain, hnat, decide_eq_true_eq]
            omega
          unfold charItem
          rw [hshort, dif_neg hplain, hnat, UInt16.ofNat_toNat]
          exact hescape.mpr hlower

/-- A pair is spelled as one character. -/
theorem quoteItems_pair {h l : UInt16} (hh : isHigh h = true) (hl : isLow l = true)
    (s : List UInt16) : ∃ i more, quoteItems (h :: l :: s) = i :: more ∧
      ∀ a b c d, i ≠ .unicode a b c d := by
  have hpair : (isHigh h && isLow l) = true := by rw [hh, hl]; rfl
  refine ⟨charItem (pairChar h l), quoteItems s, ?_, ?_⟩
  · rw [quoteItems, codePoints, if_pos hpair]
    rfl
  · intro a b c d heq
    have hcontrol := (charItem_unicode heq).1
    have hunits := congrArg (List.map UInt16.toNat) (utf16_pairChar hh hl)
    rw [utf16_control hcontrol] at hunits
    simp at hunits

/-- A spelling is the one of `JSON.stringify` exactly if it is kept. -/
theorem quoteItems_units (items : List Item) :
    quoteItems (itemsUnits items) = items ↔ KeptItems items := by
  induction items with
  | nil => exact iff_of_true rfl trivial
  | cons i rest ih =>
      have hcons : itemsUnits (i :: rest) = i.units ++ itemsUnits rest := rfl
      rw [hcons]
      cases i with
      | plain c h =>
          have hquote : quoteItems (utf16 c ++ itemsUnits rest) =
              .plain c h :: quoteItems (itemsUnits rest) := by
            rw [quoteItems, codePoints_utf16, List.map_cons, pointItem, charItem_plain h]
            rfl
          simp only [Item.units, hquote, KeptItems, Item.Kept, Item.isHalf, List.cons.injEq, ih,
            true_and, Bool.false_eq_true, false_imp_iff]
      | short e =>
          have hquote : quoteItems (utf16 e.char ++ itemsUnits rest) =
              charItem e.char :: quoteItems (itemsUnits rest) := by
            rw [quoteItems, codePoints_utf16, List.map_cons, pointItem]
            rfl
          simp only [Item.units, hquote, KeptItems, Item.Kept, Item.isHalf, List.cons.injEq, ih,
            charItem_short, true_and, Bool.false_eq_true, false_imp_iff]
      | unicode a b c d =>
          simp only [Item.units, KeptItems, Item.isHalf, List.singleton_append]
          by_cases hpair : isHigh (hexUnit a b c d) = true →
              ∀ j ∈ rest.head?, j.isHalf isLow = false
          · have hunit := codePoints_unit (u := hexUnit a b c d) (s := itemsUnits rest)
              fun hhigh => (head_low rest).mpr (hpair hhigh)
            have hquote : quoteItems (hexUnit a b c d :: itemsUnits rest) =
                pointItem (unitPoint (hexUnit a b c d)) :: quoteItems (itemsUnits rest) := by
              rw [quoteItems, hunit]
              rfl
            rw [hquote, List.cons.injEq, pointItem_unit, ih]
            exact and_congr_right fun _ => (and_iff_right hpair).symm
          · refine iff_of_false ?_ fun h => hpair h.2.1
            intro heq
            rw [Classical.not_imp] at hpair
            obtain ⟨hhigh, hlow⟩ := hpair
            rw [← head_low] at hlow
            push Not at hlow
            obtain ⟨l, hl, hlow⟩ := hlow
            obtain ⟨s, hs⟩ : ∃ s, itemsUnits rest = l :: s := by
              cases hunits : itemsUnits rest with
              | nil => simp [hunits] at hl
              | cons x s =>
                  obtain rfl : x = l := by simpa [hunits] using hl
                  exact ⟨s, rfl⟩
            have hlow' : isLow l = true := by simpa using hlow
            obtain ⟨i, more, hquote, hne⟩ := quoteItems_pair hhigh hlow' s
            rw [hs, hquote] at heq
            exact hne a b c d (List.cons.inj heq).1

end OpenUnion.JsonText
