import Mathlib.Data.List.Infix

/-!
# Decoding UTF-8

Bytes as text, a replacement character standing for what is no UTF-8, and texts that come in
chunks, each decoded by itself. A chunk may end inside a character; only characters of more
than one byte are lost in this way.

* `decode_ascii`: an ASCII byte is a character of its own wherever it stands.
* `infix_of_decode`: ASCII text in the decoded bytes comes from the same bytes.
* `infix_of_chunks`: ASCII text survives every split into chunks.
-/

namespace OpenUnion.Text

/-- U+FFFD. -/
def replacement : Char := Char.ofNat 0xfffd

/-- A character some of whose bytes have been read: `need` more are to come, the next one
between `low` and `high`. -/
structure Unfinished where
  need : Nat
  low : Nat
  high : Nat
  code : Nat
  tail : 0x80 ≤ low

/-- The code point of more than one byte; the bounds on the bytes leave no other. -/
def wideChar (code : Nat) : Char :=
  if 0x80 ≤ code ∧ code.isValidChar then Char.ofNat code else replacement

/-- The first byte of a character. -/
def firstByte (b : Nat) : List Char × Option Unfinished :=
  if b < 0x80 then ([Char.ofNat b], none)
  else if 0xc2 ≤ b ∧ b ≤ 0xdf then ([], some ⟨1, 0x80, 0xbf, b - 0xc0, by decide⟩)
  else if b = 0xe0 then ([], some ⟨2, 0xa0, 0xbf, 0, by decide⟩)
  else if b = 0xed then ([], some ⟨2, 0x80, 0x9f, 0xd, by decide⟩)
  else if 0xe1 ≤ b ∧ b ≤ 0xef then ([], some ⟨2, 0x80, 0xbf, b - 0xe0, by decide⟩)
  else if b = 0xf0 then ([], some ⟨3, 0x90, 0xbf, 0, by decide⟩)
  else if b = 0xf4 then ([], some ⟨3, 0x80, 0x8f, 4, by decide⟩)
  else if 0xf1 ≤ b ∧ b ≤ 0xf3 then ([], some ⟨3, 0x80, 0xbf, b - 0xf0, by decide⟩)
  else ([replacement], none)

/-- The characters of the bytes behind an unfinished one. -/
def decodeFrom : Option Unfinished → List UInt8 → List Char
  | none, [] => []
  | some _, [] => [replacement]
  | none, b :: bs => (firstByte b.toNat).1 ++ decodeFrom (firstByte b.toNat).2 bs
  | some u, b :: bs =>
      if u.low ≤ b.toNat ∧ b.toNat ≤ u.high then
        let code := u.code * 64 + (b.toNat - 0x80)
        if u.need = 1 then wideChar code :: decodeFrom none bs
        else decodeFrom (some ⟨u.need - 1, 0x80, 0xbf, code, by decide⟩) bs
      -- the character ends here, and the byte starts a new one
      else replacement :: ((firstByte b.toNat).1 ++ decodeFrom (firstByte b.toNat).2 bs)

/-- `bytes.toString('utf8')`. -/
def decode (bytes : List UInt8) : List Char := decodeFrom none bytes

/-- The text of ASCII bytes. -/
def asciiText (bytes : List UInt8) : List Char := bytes.map fun b => Char.ofNat b.toNat

/-- All bytes are ASCII. -/
def Ascii (bytes : List UInt8) : Prop := ∀ b ∈ bytes, b.toNat < 0x80

instance (bytes : List UInt8) : Decidable (Ascii bytes) :=
  inferInstanceAs (Decidable (∀ b ∈ bytes, _))

variable {a c p q t : List UInt8} {b : UInt8}

/-! ## ASCII bytes -/

theorem firstByte_ascii (hb : b.toNat < 0x80) :
    firstByte b.toNat = ([Char.ofNat b.toNat], none) := if_pos hb

theorem decodeFrom_ascii (hb : b.toNat < 0x80) (u : Option Unfinished) :
    decodeFrom u (a ++ b :: c) =
      decodeFrom u a ++ Char.ofNat b.toNat :: decodeFrom none c := by
  induction a generalizing u with
  | nil =>
      cases u with
      | none => simp [decodeFrom, firstByte_ascii hb]
      | some u =>
          have hout : ¬ (u.low ≤ b.toNat ∧ b.toNat ≤ u.high) := by
            have htail := u.tail
            omega
          simp [decodeFrom, firstByte_ascii hb, hout]
  | cons x a ih =>
      cases u with
      | none => simp [decodeFrom, ih]
      | some u =>
          simp only [List.cons_append, decodeFrom]
          split_ifs <;> simp [ih]

/-- An ASCII byte is a character of its own. -/
theorem decode_ascii (hb : b.toNat < 0x80) :
    decode (a ++ b :: c) = decode a ++ Char.ofNat b.toNat :: decode c :=
  decodeFrom_ascii hb none

theorem decode_ascii_cons (hb : b.toNat < 0x80) :
    decode (b :: c) = Char.ofNat b.toNat :: decode c := by
  simpa [decode, decodeFrom] using decode_ascii (a := []) (c := c) hb

theorem decode_ascii_append (ht : Ascii t) : decode (t ++ q) = asciiText t ++ decode q := by
  induction t with
  | nil => rfl
  | cons b t ih =>
      have hb : b.toNat < 0x80 := ht b List.mem_cons_self
      have hrest := ih fun x hx => ht x (List.mem_cons_of_mem _ hx)
      rw [List.cons_append, decode_ascii_cons hb, hrest]
      rfl

theorem toNat_ofNat {n : Nat} (h : n.isValidChar) : (Char.ofNat n).toNat = n := by
  unfold Char.ofNat
  rw [dif_pos h]
  rfl

/-! ## The other bytes -/

theorem replacement_wide : 0x80 ≤ replacement.toNat := by decide

theorem wideChar_wide (code : Nat) : 0x80 ≤ (wideChar code).toNat := by
  unfold wideChar
  split_ifs with h
  · rw [toNat_ofNat h.2]
    exact h.1
  · exact replacement_wide

theorem firstByte_wide {n : Nat} (h : 0x80 ≤ n) :
    (∀ x ∈ (firstByte n).1, 0x80 ≤ x.toNat) ∧
      ((firstByte n).1 = [] → (firstByte n).2 ≠ none) := by
  unfold firstByte
  rw [if_neg (by omega)]
  split_ifs <;> simp [replacement_wide]

/-- None of their characters is ASCII. -/
theorem decodeFrom_wide (ha : ∀ b ∈ a, 0x80 ≤ b.toNat) (u : Option Unfinished) :
    ∀ x ∈ decodeFrom u a, 0x80 ≤ x.toNat := by
  induction a generalizing u with
  | nil =>
      cases u with
      | none => simp [decodeFrom]
      | some u => simp [decodeFrom, replacement_wide]
  | cons b a ih =>
      have hrest := ih fun x hx => ha x (List.mem_cons_of_mem _ hx)
      have hfirst := (firstByte_wide (ha b List.mem_cons_self)).1
      cases u with
      | none =>
          simp only [decodeFrom, List.mem_append]
          rintro x (hx | hx)
          · exact hfirst x hx
          · exact hrest _ x hx
      | some u =>
          simp only [decodeFrom]
          split_ifs
          · intro x hx
            rcases List.mem_cons.mp hx with heq | hx
            · rw [heq]
              exact wideChar_wide (u.code * 64 + (b.toNat - 0x80))
            · exact hrest _ x hx
          · exact hrest _
          · simp only [List.mem_cons, List.mem_append]
            rintro x (rfl | hx | hx)
            · exact replacement_wide
            · exact hfirst x hx
            · exact hrest _ x hx

theorem decodeFrom_unfinished (u : Unfinished) (bs : List UInt8) : decodeFrom (some u) bs ≠ [] := by
  induction bs generalizing u with
  | nil => simp [decodeFrom]
  | cons b bs ih =>
      simp only [decodeFrom]
      split_ifs
      · simp
      · exact ih _
      · simp

/-- They give at least one character. -/
theorem decode_wide_ne_nil (hb : 0x80 ≤ b.toNat) : decode (b :: a) ≠ [] := by
  have hfirst := (firstByte_wide hb).2
  unfold decode decodeFrom
  cases hpair : firstByte b.toNat with
  | mk chars u =>
      rw [hpair] at hfirst
      cases u with
      | none =>
          have hchars : chars ≠ [] := fun h => hfirst h rfl
          simp [hchars]
      | some u => simp [decodeFrom_unfinished]

/-- Bytes up to their first ASCII byte. -/
theorem ascii_split (bytes : List UInt8) : (∀ b ∈ bytes, 0x80 ≤ b.toNat) ∨
    ∃ a b c, bytes = a ++ b :: c ∧ (∀ x ∈ a, 0x80 ≤ x.toNat) ∧ b.toNat < 0x80 := by
  induction bytes with
  | nil => exact Or.inl (by simp)
  | cons x bytes ih =>
      by_cases hx : x.toNat < 0x80
      · exact Or.inr ⟨[], x, bytes, rfl, by simp, hx⟩
      · have hwide : 0x80 ≤ x.toNat := not_lt.mp hx
        rcases ih with hall | ⟨a, b, c, rfl, ha, hb⟩
        · exact Or.inl (List.forall_mem_cons.mpr ⟨hwide, hall⟩)
        · exact Or.inr ⟨x :: a, b, c, rfl, List.forall_mem_cons.mpr ⟨hwide, ha⟩, hb⟩

/-! ## ASCII text in a text -/

theorem toNat_char (hb : b.toNat < 0x80) : (Char.ofNat b.toNat).toNat = b.toNat := by
  exact toNat_ofNat (Or.inl (by omega))

theorem asciiChar_inj {b' : UInt8} (hb : b.toNat < 0x80) (hb' : b'.toNat < 0x80)
    (h : Char.ofNat b.toNat = Char.ofNat b'.toNat) : b = b' := by
  have hnat := congrArg Char.toNat h
  rw [toNat_char hb, toNat_char hb'] at hnat
  exact UInt8.toNat_inj.mp hnat

/-- The first character of text behind bytes that are not ASCII. -/
theorem not_ascii_head (hb : 0x80 ≤ b.toNat) {x : UInt8} (hx : x.toNat < 0x80)
    (text : List Char) : ¬ Char.ofNat x.toNat :: text <+: decode (b :: c) := by
  intro h
  have hwide : ∀ front : List UInt8, (∀ y ∈ front, 0x80 ≤ y.toNat) →
      ∀ rest, ¬ Char.ofNat x.toNat :: text <+: decode (b :: front) ++ rest := by
    intro front hfront rest hprefix
    have hall : ∀ y ∈ b :: front, 0x80 ≤ y.toNat := List.forall_mem_cons.mpr ⟨hb, hfront⟩
    obtain ⟨y, ys, hys⟩ := List.exists_cons_of_ne_nil (decode_wide_ne_nil (a := front) hb)
    have hy : 0x80 ≤ y.toNat := decodeFrom_wide hall none y (by
      rw [← decode, hys]
      exact List.mem_cons_self)
    rw [hys, List.cons_append, List.cons_prefix_cons] at hprefix
    rw [← hprefix.1, toNat_char hx] at hy
    omega
  rcases ascii_split c with hall | ⟨front, y, rest, rfl, hfront, hy⟩
  · exact hwide c hall [] (by rwa [List.append_nil])
  · rw [← List.cons_append, decode_ascii hy] at h
    exact hwide front hfront _ h

/-- ASCII text at the start of the decoded bytes. -/
theorem prefix_of_decode (ht : Ascii t) (h : asciiText t <+: decode q) : t <+: q := by
  induction t generalizing q with
  | nil => exact List.nil_prefix
  | cons x t ih =>
      have hx : x.toNat < 0x80 := ht x List.mem_cons_self
      rw [asciiText, List.map_cons] at h
      cases q with
      | nil => simp [decode, decodeFrom] at h
      | cons b c =>
          by_cases hb : b.toNat < 0x80
          · rw [decode_ascii_cons hb, List.cons_prefix_cons] at h
            obtain rfl : x = b := asciiChar_inj hx hb h.1
            exact List.cons_prefix_cons.mpr
              ⟨rfl, ih (fun y hy => ht y (List.mem_cons_of_mem _ hy)) h.2⟩
          · exact absurd h (not_ascii_head (not_lt.mp hb) hx _)

/-- A text that starts with a character which is not in the first part lies in the second. -/
theorem infix_of_append {x : Char} {text xs ys : List Char} (hx : x ∉ xs)
    (h : x :: text <:+: xs ++ ys) : x :: text <:+: ys := by
  induction xs with
  | nil => exact h
  | cons y xs ih =>
      have hne : x ≠ y := fun heq => hx (heq ▸ List.mem_cons_self)
      rw [List.cons_append, List.infix_cons_iff, List.cons_prefix_cons] at h
      rcases h with h | h
      · exact absurd h.1 hne
      · exact ih (fun hmem => hx (List.mem_cons_of_mem _ hmem)) h

/-- ASCII text in the decoded bytes. -/
theorem infix_of_decode (ht : Ascii t) (h : asciiText t <:+: decode q) : t <:+: q := by
  cases t with
  | nil => exact List.nil_infix
  | cons x t =>
      have hx : x.toNat < 0x80 := ht x List.mem_cons_self
      have hout : ∀ a : List UInt8, (∀ y ∈ a, 0x80 ≤ y.toNat) →
          Char.ofNat x.toNat ∉ decode a := by
        intro a ha hmem
        have hwide := decodeFrom_wide ha none _ hmem
        rw [toNat_char hx] at hwide
        omega
      induction hlen : q.length using Nat.strong_induction_on generalizing q with
      | _ n ih =>
          rcases ascii_split q with hall | ⟨a, b, c, rfl, ha, hb⟩
          · have hmem : Char.ofNat x.toNat ∈ decode q := h.subset (by simp [asciiText])
            exact absurd hmem (hout q hall)
          · rw [decode_ascii hb] at h
            have hrest : asciiText (x :: t) <:+: Char.ofNat b.toNat :: decode c :=
              infix_of_append (hout a ha) h
            rw [List.infix_cons_iff, ← decode_ascii_cons hb] at hrest
            rcases hrest with hprefix | hinfix
            · exact (prefix_of_decode ht hprefix).isInfix.trans (List.suffix_append a _).isInfix
            · have hshort : c.length < n := by
                rw [← hlen, List.length_append, List.length_cons]
                omega
              have hc := ih _ hshort hinfix rfl
              exact hc.trans ((List.suffix_cons b c).trans (List.suffix_append a _)).isInfix

/-! ## Chunks -/

/-- The text of chunks that are decoded one by one. -/
def decodeChunks (chunks : List (List UInt8)) : List Char := chunks.flatMap decode

variable {chunks : List (List UInt8)}

theorem prefix_of_chunks (ht : Ascii t) (chunks : List (List UInt8)) (h : chunks.flatten = t ++ q) :
    asciiText t <+: decodeChunks chunks := by
  induction chunks generalizing t with
  | nil =>
      obtain rfl : t = [] := by
        have hnil := h.symm
        simp only [List.flatten_nil, List.append_eq_nil_iff] at hnil
        exact hnil.1
      exact List.nil_prefix
  | cons chunk chunks ih =>
      rw [List.flatten_cons, List.append_eq_append_iff] at h
      rw [decodeChunks, List.flatMap_cons]
      rcases h with ⟨t', rfl, hrest⟩ | ⟨q', rfl, -⟩
      · have hchunk : decode chunk = asciiText chunk := by
          have happend := decode_ascii_append (t := chunk) (q := [])
            fun b hb => ht b (List.mem_append_left _ hb)
          simpa [decode, decodeFrom] using happend
        have htail := ih (fun b hb => ht b (List.mem_append_right _ hb)) hrest
        rw [hchunk, asciiText, List.map_append]
        exact List.prefix_append_right_inj _ |>.mpr htail
      · rw [decode_ascii_append ht, List.append_assoc]
        exact List.prefix_append _ _

/-- ASCII text is in the text of the chunks wherever they are split. -/
theorem infix_of_chunks (ht : Ascii t) (h : t <:+: chunks.flatten) :
    asciiText t <:+: decodeChunks chunks := by
  obtain ⟨p, q, hpq⟩ := h
  rw [List.append_assoc] at hpq
  induction chunks generalizing p with
  | nil =>
      obtain rfl : t = [] := by simp_all
      exact List.nil_infix
  | cons chunk chunks ih =>
      rw [List.flatten_cons, List.append_eq_append_iff] at hpq
      rcases hpq with ⟨chunk', rfl, hrest⟩ | ⟨p', rfl, hrest⟩
      · -- the text starts in this chunk, behind `p`
        have hstart : asciiText t <+: decode chunk' ++ decodeChunks chunks :=
          prefix_of_chunks ht (chunk' :: chunks) hrest.symm
        cases t with
        | nil => exact List.nil_infix
        | cons x t =>
            have hsplit : ∃ before, decode (p ++ chunk') = before ++ decode chunk' := by
              cases chunk' with
              | nil => exact ⟨decode p, by simp [decode, decodeFrom]⟩
              | cons b c =>
                  obtain ⟨rfl, -⟩ : x = b ∧ _ := by simpa using hrest
                  have hx : x.toNat < 0x80 := ht x List.mem_cons_self
                  exact ⟨decode p, by rw [decode_ascii hx, decode_ascii_cons hx]⟩
            obtain ⟨before, hbefore⟩ := hsplit
            rw [decodeChunks, List.flatMap_cons, hbefore, List.append_assoc]
            exact hstart.isInfix.trans (List.suffix_append before _).isInfix
      · have hlater := ih p' hrest.symm
        rw [decodeChunks, List.flatMap_cons]
        exact hlater.trans (List.suffix_append _ _).isInfix

/-! ## Encoding -/

/-- `Buffer.from(text, 'utf8')`. -/
def encode (text : List Char) : List UInt8 := text.flatMap String.utf8EncodeChar

/-- A byte from its number. -/
theorem byte_toNat {n : Nat} (hn : n < 256) : (UInt8.ofNat n).toNat = n := by
  simp only [UInt8.toNat_ofNat']
  omega

/-- The number of a character with the bytes that encode it: each byte but the first one has six
bits of the number.  The surrogates are no characters. -/
inductive Utf8Char : Nat → List UInt8 → Prop where
  | one {v : Nat} : v < 0x80 → Utf8Char v [UInt8.ofNat v]
  | two {q r : Nat} : 2 ≤ q → q < 32 → r < 64 →
      Utf8Char (q * 64 + r) [UInt8.ofNat (q + 0xc0), UInt8.ofNat (r + 0x80)]
  | three {p q r : Nat} : p < 16 → q < 64 → r < 64 → 0x20 ≤ p * 64 + q →
      (p * 64 + q < 0x360 ∨ 0x380 ≤ p * 64 + q) →
      Utf8Char ((p * 64 + q) * 64 + r)
        [UInt8.ofNat (p + 0xe0), UInt8.ofNat (q + 0x80), UInt8.ofNat (r + 0x80)]
  | four {w p q r : Nat} : p < 64 → q < 64 → r < 64 → 0x10 ≤ w * 64 + p → w * 64 + p < 0x110 →
      Utf8Char (((w * 64 + p) * 64 + q) * 64 + r)
        [UInt8.ofNat (w + 0xf0), UInt8.ofNat (p + 0x80), UInt8.ofNat (q + 0x80),
          UInt8.ofNat (r + 0x80)]

/-- A number in front of its last six bits. -/
theorem split64 (v : Nat) : ∃ m r, v = m * 64 + r ∧ r < 64 ∧ v / 64 = m ∧ v % 64 = r :=
  ⟨v / 64, v % 64, by omega, by omega, rfl, rfl⟩

theorem div64 {m r : Nat} (hr : r < 64) : (m * 64 + r) / 64 = m := by omega

theorem mod64 {m r : Nat} (hr : r < 64) : (m * 64 + r) % 64 = r := by omega

theorem div4096 (v : Nat) : v / 4096 = v / 64 / 64 := (Nat.div_div_eq_div_mul v 64 64).symm

theorem div262144 (v : Nat) : v / 262144 = v / 64 / 64 / 64 := by
  rw [Nat.div_div_eq_div_mul, Nat.div_div_eq_div_mul]

/-- The bytes that encode a character. -/
theorem utf8_char (ch : Char) : Utf8Char ch.val.toNat (String.utf8EncodeChar ch) := by
  have hvalid : ch.val.toNat < 0xd800 ∨ 0xdfff < ch.val.toNat ∧ ch.val.toNat < 0x110000 := ch.valid
  unfold String.utf8EncodeChar
  generalize ch.val.toNat = v at hvalid ⊢
  simp only [div4096, div262144]
  obtain ⟨n, r, hv, hr, hn, hr'⟩ := split64 v
  rw [hn, hr']
  split_ifs with hone htwo hthree
  · exact .one (by omega)
  · rw [hv, Nat.mod_eq_of_lt (by omega : n < 32)]
    exact .two (by omega) (by omega) hr
  · obtain ⟨p, q, hpq, hq, hp, hq'⟩ := split64 n
    rw [hp, hq', hv, hpq, Nat.mod_eq_of_lt (by omega : p < 16)]
    exact .three (by omega) hq hr (by omega) (by omega)
  · obtain ⟨m, q, hm, hq, hm', hq'⟩ := split64 n
    obtain ⟨w, p, hwp, hp, hw, hp'⟩ := split64 m
    rw [hm', hq', hw, hp', hv, hm, hwp, Nat.mod_eq_of_lt (by omega : w < 8)]
    exact .four hp hq hr (by omega) (by omega)

/-- Bytes of this form encode a character. -/
theorem Utf8Char.exists_char {v : Nat} {bytes : List UInt8} (h : Utf8Char v bytes) :
    ∃ ch : Char, String.utf8EncodeChar ch = bytes := by
  have hvalid : v.isValidChar := by
    cases h with
    | one hv => exact .inl (by omega)
    | two hlow hq hr => exact .inl (by omega)
    | three hp hq hr hlow hsur => exact hsur.imp (fun h => by omega) fun h => ⟨by omega, by omega⟩
    | four hp hq hr hlow hhigh => exact .inr ⟨by omega, by omega⟩
  have hnat : (Char.ofNat v).val.toNat = v := toNat_ofNat hvalid
  refine ⟨Char.ofNat v, ?_⟩
  rw [String.utf8EncodeChar]
  simp only [hnat, div4096, div262144]
  cases h with
  | one hv => rw [if_pos (Nat.le_of_lt_succ hv)]
  | two hlow hq hr =>
      rw [if_neg (by omega), if_pos (by omega), div64 hr, mod64 hr, Nat.mod_eq_of_lt hq]
  | three hp hq hr hlow hsur =>
      rw [if_neg (by omega), if_neg (by omega), if_pos (by omega), div64 hr, mod64 hr, div64 hq,
        mod64 hq, Nat.mod_eq_of_lt hp]
  | @four w p q r hp hq hr hlow hhigh =>
      have hw : w < 8 := by omega
      rw [if_neg (by omega), if_neg (by omega), if_neg (by omega), div64 hr, mod64 hr, div64 hq,
        mod64 hq, div64 hp, mod64 hp, Nat.mod_eq_of_lt hw]

/-- A character of more than one byte from its number. -/
theorem wideChar_toNat {ch : Char} (h : 0x80 ≤ ch.val.toNat) : wideChar ch.val.toNat = ch := by
  rw [wideChar, if_pos ⟨h, ch.valid⟩]
  exact Char.ofNat_toNat ch

/-- The last byte of a character. -/
theorem decodeFrom_last {u : Unfinished} {x : UInt8} {n : Nat} {rest : List UInt8}
    (hneed : u.need = 1) (hx : u.low ≤ x.toNat ∧ x.toNat ≤ u.high)
    (hn : u.code * 64 + (x.toNat - 0x80) = n) :
    decodeFrom (some u) (x :: rest) = wideChar n :: decode rest := by
  rw [decodeFrom, if_pos hx]
  simp only [hneed, if_true, hn, decode]

/-- A byte of a character that needs more of them. -/
theorem decodeFrom_more {u : Unfinished} {x : UInt8} {n : Nat} {rest : List UInt8}
    (hneed : u.need ≠ 1) (hx : u.low ≤ x.toNat ∧ x.toNat ≤ u.high)
    (hn : u.code * 64 + (x.toNat - 0x80) = n) :
    decodeFrom (some u) (x :: rest) =
      decodeFrom (some ⟨u.need - 1, 0x80, 0xbf, n, by decide⟩) rest := by
  rw [decodeFrom, if_pos hx]
  simp only [if_neg hneed, hn]

/-- A first byte that needs more of them. -/
theorem decode_first {b : UInt8} {u : Unfinished} {rest : List UInt8}
    (hb : firstByte b.toNat = ([], some u)) : decode (b :: rest) = decodeFrom (some u) rest := by
  rw [decode, decodeFrom, hb]
  rfl

/-- A first byte of two. -/
theorem firstByte_two {n q : Nat} (hn : n = q + 0xc0) (hlow : 2 ≤ q) (hhigh : q < 32) :
    firstByte n = ([], some ⟨1, 0x80, 0xbf, q, by decide⟩) := by
  subst hn
  rw [firstByte, if_neg (by omega), if_pos (by omega), Nat.add_sub_cancel]

/-- The bounds on the second of three bytes leave no other character. -/
theorem firstByte_three {n p q : Nat} (hn : n = p + 0xe0) (hp : p < 16) (hq : q < 64)
    (hlow : 0x20 ≤ p * 64 + q) (hsur : p * 64 + q < 0x360 ∨ 0x380 ≤ p * 64 + q) :
    ∃ low high, ∃ htail : 0x80 ≤ low, firstByte n = ([], some ⟨2, low, high, p, htail⟩) ∧
      low ≤ q + 0x80 ∧ q + 0x80 ≤ high := by
  subst hn
  rw [firstByte, if_neg (by omega), if_neg (by omega)]
  split_ifs with hfirst hsurrogate hother
  · obtain rfl : p = 0 := by omega
    exact ⟨0xa0, 0xbf, by decide, rfl, by omega, by omega⟩
  · obtain rfl : p = 0xd := by omega
    exact ⟨0x80, 0x9f, by decide, rfl, by omega, by omega⟩
  · exact ⟨0x80, 0xbf, by decide, by rw [Nat.add_sub_cancel], by omega, by omega⟩
  all_goals omega

/-- The bounds on the second of four bytes leave no other character. -/
theorem firstByte_four {n w p : Nat} (hn : n = w + 0xf0) (hp : p < 64)
    (hlow : 0x10 ≤ w * 64 + p) (hhigh : w * 64 + p < 0x110) :
    ∃ low high, ∃ htail : 0x80 ≤ low, firstByte n = ([], some ⟨3, low, high, w, htail⟩) ∧
      low ≤ p + 0x80 ∧ p + 0x80 ≤ high := by
  subst hn
  rw [firstByte, if_neg (by omega), if_neg (by omega), if_neg (by omega), if_neg (by omega),
    if_neg (by omega)]
  split_ifs with hfirst hlast hother
  · obtain rfl : w = 0 := by omega
    exact ⟨0x90, 0xbf, by decide, rfl, by omega, by omega⟩
  · obtain rfl : w = 4 := by omega
    exact ⟨0x80, 0x8f, by decide, rfl, by omega, by omega⟩
  · exact ⟨0x80, 0xbf, by decide, by rw [Nat.add_sub_cancel], by omega, by omega⟩
  all_goals omega

/-- The bytes of a character are decoded to its number. -/
theorem Utf8Char.decode {v : Nat} {bytes : List UInt8} (h : Utf8Char v bytes) (hv : 0x80 ≤ v)
    (rest : List UInt8) : decode (bytes ++ rest) = wideChar v :: decode rest := by
  cases h with
  | one hlow => omega
  | @two q r hlow hhigh hr =>
      have hb := byte_toNat (n := q + 0xc0) (by omega)
      have hx := byte_toNat (n := r + 0x80) (by omega)
      rw [List.cons_append, decode_first (firstByte_two hb hlow hhigh)]
      exact decodeFrom_last rfl (by simp only [hx]; omega) (by simp only [hx]; omega)
  | @three p q r hp hq hr hlow hsur =>
      have hb := byte_toNat (n := p + 0xe0) (by omega)
      have hx := byte_toNat (n := q + 0x80) (by omega)
      have hy := byte_toNat (n := r + 0x80) (by omega)
      obtain ⟨low, high, htail, hfirst, hin⟩ := firstByte_three hb hp hq hlow hsur
      rw [List.cons_append, decode_first hfirst, List.cons_append,
        decodeFrom_more (n := p * 64 + q) (by simp) (by simpa only [hx] using hin)
          (by simp only [hx]; omega)]
      exact decodeFrom_last rfl (by simp only [hy]; omega) (by simp only [hy]; omega)
  | @four w p q r hp hq hr hlow hhigh =>
      have hb := byte_toNat (n := w + 0xf0) (by omega)
      have hx := byte_toNat (n := p + 0x80) (by omega)
      have hy := byte_toNat (n := q + 0x80) (by omega)
      have hz := byte_toNat (n := r + 0x80) (by omega)
      obtain ⟨low, high, htail, hfirst, hin⟩ := firstByte_four hb hp hlow hhigh
      rw [List.cons_append, decode_first hfirst, List.cons_append,
        decodeFrom_more (n := w * 64 + p) (by simp) (by simpa only [hx] using hin)
          (by simp only [hx]; omega), List.cons_append,
        decodeFrom_more (n := (w * 64 + p) * 64 + q) (by simp) (by simp only [hy]; omega)
          (by simp only [hy]; omega)]
      exact decodeFrom_last rfl (by simp only [hz]; omega) (by simp only [hz]; omega)

/-- A character that is encoded is decoded again. -/
theorem decode_encodeChar (ch : Char) (rest : List UInt8) :
    decode (String.utf8EncodeChar ch ++ rest) = ch :: decode rest := by
  by_cases hwide : 0x80 ≤ ch.val.toNat
  · rw [(utf8_char ch).decode hwide, wideChar_toNat hwide]
  · have hsmall : ch.val.toNat < 0x80 := not_le.mp hwide
    have hbytes : String.utf8EncodeChar ch = [UInt8.ofNat ch.val.toNat] := by
      rw [String.utf8EncodeChar]
      exact if_pos (Nat.le_of_lt_succ hsmall)
    have hb := byte_toNat (n := ch.val.toNat) (by omega)
    have hchar : Char.ofNat ch.val.toNat = ch := Char.ofNat_toNat ch
    have hascii := decode_ascii_cons (b := UInt8.ofNat ch.val.toNat) (c := rest) (by omega)
    rw [hb, hchar] at hascii
    rw [hbytes]
    exact hascii

/-- A text that is encoded is decoded again. -/
theorem decode_utf8 (text : List Char) : decode (encode text) = text := by
  induction text with
  | nil => rfl
  | cons ch text ih =>
      have hstep := decode_encodeChar ch (encode text)
      rw [ih] at hstep
      exact hstep

end OpenUnion.Text
