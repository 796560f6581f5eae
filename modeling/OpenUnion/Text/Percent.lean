import OpenUnion.Abi.Words
import OpenUnion.Text.Utf8

/-!
# Percent-encoded text

`decodeURIComponent` reads `%XX` as a byte of UTF-8 and every other character as itself, and it
throws where an escape is cut short, where its digits are no digits, or where the bytes of
consecutive escapes are no UTF-8.

* `encode_of_finishes`, `finishes_of_encode`: the bytes the decoder takes for one character are
  the ones that encode it.
* `decodeURIComponent_isSome_iff`: the texts that are decoded are those made of characters other
  than `%` and of escaped characters.
-/

namespace OpenUnion.Text

/-- The byte of two hexadecimal digits. -/
def hexByte (h l : Char) : Option ℕ :=
  (Abi.hexValue h).bind fun a => (Abi.hexValue l).map fun b => 16 * a + b

theorem tail_bound : 0x80 ≤ 0x80 := le_rfl

/-- The state after a byte of an unfinished character that is not its last one. -/
def Unfinished.next (u : Unfinished) (b : ℕ) : Unfinished :=
  ⟨u.need - 1, 0x80, 0xbf, u.code * 64 + (b - 0x80), tail_bound⟩

/-- The characters of a text behind an unfinished one; `none` where `decodeURIComponent` throws. -/
def decodeEscapes : Option Unfinished → List Char → Option (List Char)
  | none, [] => some []
  | some _, [] => none
  | none, '%' :: h :: l :: rest =>
      (hexByte h l).bind fun b =>
        match (firstByte b).2 with
        | some u => decodeEscapes (some u) rest
        | none => if b < 0x80 then (decodeEscapes none rest).map (Char.ofNat b :: ·) else none
  | some u, '%' :: h :: l :: rest =>
      (hexByte h l).bind fun b =>
        if u.low ≤ b ∧ b ≤ u.high then
          if u.need = 1 then
            (decodeEscapes none rest).map (wideChar (u.code * 64 + (b - 0x80)) :: ·)
          else decodeEscapes (some (u.next b)) rest
        else none
  | none, c :: rest => if c = '%' then none else (decodeEscapes none rest).map (c :: ·)
  | some _, _ :: _ => none

/-- `decodeURIComponent`; `none` where it throws. -/
def decodeURIComponent (s : String) : Option String :=
  (decodeEscapes none s.toList).map String.ofList

/-- Escapes of the bytes. -/
inductive EscapeOf : List Char → List UInt8 → Prop where
  | nil : EscapeOf [] []
  | cons {h l : Char} {b : UInt8} {text : List Char} {bytes : List UInt8} :
      hexByte h l = some b.toNat → EscapeOf text bytes →
      EscapeOf ('%' :: h :: l :: text) (b :: bytes)

/-- Text made of characters other than `%` and of escaped characters. -/
inductive Escaped : List Char → Prop where
  | nil : Escaped []
  | plain {c : Char} {rest : List Char} : c ≠ '%' → Escaped rest → Escaped (c :: rest)
  | char {c : Char} {text rest : List Char} :
      EscapeOf text (String.utf8EncodeChar c) → Escaped rest → Escaped (text ++ rest)

/-- The bytes that finish a character. -/
def Finishes : Unfinished → List UInt8 → Prop
  | _, [] => False
  | u, b :: bytes =>
      (u.low ≤ b.toNat ∧ b.toNat ≤ u.high) ∧
        if u.need = 1 then bytes = [] else Finishes (u.next b.toNat) bytes

variable {b : UInt8} {bytes : List UInt8} {c h l : Char} {n : ℕ} {rest s text : List Char}
  {u : Unfinished}

/-- Two digits spell a byte. -/
theorem hexByte_lt (hb : hexByte h l = some n) : n < 256 := by
  simp only [hexByte, Option.bind_eq_some_iff, Option.map_eq_some_iff] at hb
  obtain ⟨x, hx, y, hy, rfl⟩ := hb
  have hx := Abi.hexValue_lt hx
  have hy := Abi.hexValue_lt hy
  omega

/-- The bytes of a character are one of ASCII, or a first byte and the bytes that finish it. -/
theorem finishes_of_encode (hc : String.utf8EncodeChar c = b :: bytes) :
    b.toNat < 0x80 ∧ bytes = [] ∨ ∃ u, (firstByte b.toNat).2 = some u ∧ Finishes u bytes := by
  have hchar := utf8_char c
  rw [hc] at hchar
  generalize c.val.toNat = v at hchar
  cases hchar with
  | one hlow =>
      rw [byte_toNat (by omega)]
      exact .inl ⟨hlow, rfl⟩
  | @two q r hlow hhigh hr =>
      have hb := byte_toNat (n := q + 0xc0) (by omega)
      have hx := byte_toNat (n := r + 0x80) (by omega)
      refine .inr ⟨_, congrArg Prod.snd (firstByte_two hb hlow hhigh), ?_⟩
      simp only [Finishes, hx, if_true, and_true]
      omega
  | @three p q r hp hq hr hlow hsur =>
      have hb := byte_toNat (n := p + 0xe0) (by omega)
      have hx := byte_toNat (n := q + 0x80) (by omega)
      have hy := byte_toNat (n := r + 0x80) (by omega)
      obtain ⟨low, high, htail, hfirst, hin⟩ := firstByte_three hb hp hq hlow hsur
      refine .inr ⟨_, congrArg Prod.snd hfirst, ?_⟩
      simp only [Finishes, Unfinished.next, hx, hy]
      exact ⟨hin, by simp; omega⟩
  | @four w p q r hp hq hr hlow hhigh =>
      have hb := byte_toNat (n := w + 0xf0) (by omega)
      have hx := byte_toNat (n := p + 0x80) (by omega)
      have hy := byte_toNat (n := q + 0x80) (by omega)
      have hz := byte_toNat (n := r + 0x80) (by omega)
      obtain ⟨low, high, htail, hfirst, hin⟩ := firstByte_four hb hp hlow hhigh
      refine .inr ⟨_, congrArg Prod.snd hfirst, ?_⟩
      simp only [Finishes, Unfinished.next, hx, hy, hz]
      exact ⟨hin, by simp; omega⟩

/-- A byte from its number. -/
theorem byte_eq {k : ℕ} (h : k = b.toNat) : UInt8.ofNat k = b := by
  subst h
  simp

/-- One byte finishes a character that needs one. -/
theorem finishes_one (hneed : u.need = 1) (h : Finishes u bytes) :
    ∃ x : UInt8, bytes = [x] ∧ u.low ≤ x.toNat ∧ x.toNat ≤ u.high := by
  cases bytes with
  | nil => exact h.elim
  | cons x bytes =>
      rw [Finishes, if_pos hneed] at h
      exact ⟨x, by rw [h.2], h.1⟩

/-- The first byte of several that finish a character. -/
theorem finishes_more (hneed : u.need ≠ 1) (h : Finishes u bytes) :
    ∃ (x : UInt8) (bytes' : List UInt8), bytes = x :: bytes' ∧
      (u.low ≤ x.toNat ∧ x.toNat ≤ u.high) ∧ Finishes (u.next x.toNat) bytes' := by
  cases bytes with
  | nil => exact h.elim
  | cons x bytes =>
      rw [Finishes, if_neg hneed] at h
      exact ⟨x, bytes, rfl, h⟩

/-- A first byte and the bytes that finish it are those of a character. -/
theorem encode_of_finishes (hfirst : (firstByte b.toNat).2 = some u) (h : Finishes u bytes) :
    ∃ c : Char, String.utf8EncodeChar c = b :: bytes := by
  unfold firstByte at hfirst
  -- the rows of the table, by the number of bytes to come
  have htwo : u.need = 1 → u.low = 0x80 → u.high = 0xbf → u.code + 0xc0 = b.toNat →
      0xc2 ≤ b.toNat → b.toNat ≤ 0xdf → ∃ c : Char, String.utf8EncodeChar c = b :: bytes := by
    intro hneed hlow hhigh hcode hb hb'
    obtain ⟨x, rfl, hx, hx'⟩ := finishes_one hneed h
    obtain ⟨r, hr⟩ := Nat.exists_eq_add_of_le (hlow ▸ hx)
    have hchar : Utf8Char _ _ := @Utf8Char.two u.code r (by omega) (by omega) (by omega)
    obtain ⟨c, hc⟩ := hchar.exists_char
    refine ⟨c, ?_⟩
    rw [hc, byte_eq hcode, byte_eq (hr ▸ Nat.add_comm r 0x80)]
  have hthree : u.need = 2 → 0x80 ≤ u.low → u.high ≤ 0xbf → u.code + 0xe0 = b.toNat →
      b.toNat ≤ 0xef → (u.code = 0 → 0xa0 ≤ u.low) → (u.code = 0xd → u.high ≤ 0x9f) →
      ∃ c : Char, String.utf8EncodeChar c = b :: bytes := by
    intro hneed hlow hhigh hcode hb hfirst hlast
    obtain ⟨x, bytes', rfl, ⟨hx, hx'⟩, hrest⟩ := finishes_more (by omega) h
    obtain ⟨y, rfl, hy, hy'⟩ := finishes_one (by simp [Unfinished.next, hneed]) hrest
    obtain ⟨q, hq⟩ := Nat.exists_eq_add_of_le (hlow.trans hx)
    obtain ⟨r, hr⟩ := Nat.exists_eq_add_of_le hy
    simp only [Unfinished.next] at hy' hr
    have hchar : Utf8Char _ _ := @Utf8Char.three u.code q r (by omega) (by omega) (by omega)
      (by omega) (by omega)
    obtain ⟨c, hc⟩ := hchar.exists_char
    refine ⟨c, ?_⟩
    rw [hc, byte_eq hcode, byte_eq (hq ▸ Nat.add_comm q 0x80), byte_eq (hr ▸ Nat.add_comm r 0x80)]
  have hfour : u.need = 3 → 0x80 ≤ u.low → u.high ≤ 0xbf → u.code + 0xf0 = b.toNat →
      b.toNat ≤ 0xf4 → (u.code = 0 → 0x90 ≤ u.low) → (u.code = 4 → u.high ≤ 0x8f) →
      ∃ c : Char, String.utf8EncodeChar c = b :: bytes := by
    intro hneed hlow hhigh hcode hb hfirst hlast
    obtain ⟨x, bytes', rfl, ⟨hx, hx'⟩, hrest⟩ := finishes_more (by omega) h
    obtain ⟨y, bytes', rfl, ⟨hy, hy'⟩, hrest⟩ :=
      finishes_more (by simp [Unfinished.next, hneed]) hrest
    obtain ⟨z, rfl, hz, hz'⟩ := finishes_one (by simp [Unfinished.next, hneed]) hrest
    obtain ⟨p, hp⟩ := Nat.exists_eq_add_of_le (hlow.trans hx)
    obtain ⟨q, hq⟩ := Nat.exists_eq_add_of_le hy
    obtain ⟨r, hr⟩ := Nat.exists_eq_add_of_le hz
    simp only [Unfinished.next] at hy' hq hz' hr
    have hchar : Utf8Char _ _ := @Utf8Char.four u.code p q r (by omega) (by omega) (by omega)
      (by omega) (by omega)
    obtain ⟨c, hc⟩ := hchar.exists_char
    refine ⟨c, ?_⟩
    rw [hc, byte_eq hcode, byte_eq (hp ▸ Nat.add_comm p 0x80), byte_eq (hq ▸ Nat.add_comm q 0x80),
      byte_eq (hr ▸ Nat.add_comm r 0x80)]
  split_ifs at hfirst with h1 h2 h3 h4 h5 h6 h7 h8 <;> obtain rfl := Option.some.inj hfirst
  · exact htwo rfl rfl rfl (Nat.sub_add_cancel (by omega)) h2.1 h2.2
  · exact hthree rfl (by decide) (by decide) h3.symm (by omega) (by simp) (by simp)
  · exact hthree rfl (by decide) (by decide) h4.symm (by omega) (by simp) (by simp)
  · exact hthree rfl (Nat.le_refl _) (Nat.le_refl _) (Nat.sub_add_cancel (by omega)) (by omega)
      (by simp only; omega) (by simp only; omega)
  · exact hfour rfl (by decide) (by decide) h6.symm (by omega) (by simp) (by simp)
  · exact hfour rfl (by decide) (by decide) h7.symm (by omega) (by simp) (by simp)
  · exact hfour rfl (Nat.le_refl _) (Nat.le_refl _) (Nat.sub_add_cancel (by omega)) (by omega)
      (by simp only; omega) (by simp only; omega)

/-- The digits of an escape as a byte. -/
theorem byte_hexByte (hn : hexByte h l = some n) :
    hexByte h l = some (UInt8.ofNat n).toNat ∧ (UInt8.ofNat n).toNat = n := by
  have hlt := hexByte_lt hn
  have hbyte : (UInt8.ofNat n).toNat = n := by
    simp only [UInt8.toNat_ofNat']
    omega
  rw [hbyte]
  exact ⟨hn, rfl⟩

/-- Text behind an unfinished character begins with the escapes of bytes that finish it. -/
theorem decodeEscapes_unfinished (hs : (decodeEscapes (some u) s).isSome) :
    ∃ text bytes rest, s = text ++ rest ∧ EscapeOf text bytes ∧ Finishes u bytes ∧
      (decodeEscapes none rest).isSome := by
  generalize hu : some u = u' at hs
  induction u', s using decodeEscapes.induct generalizing u with
  | case4 u₀ h l rest _ ih =>
      obtain rfl := Option.some.inj hu
      rw [decodeEscapes] at hs
      obtain ⟨out, hout⟩ := Option.isSome_iff_exists.mp hs
      obtain ⟨n, hn, hout⟩ := Option.bind_eq_some_iff.mp hout
      obtain ⟨hb, hbyte⟩ := byte_hexByte hn
      split_ifs at hout with hrange hneed
      · obtain ⟨cs, hcs, -⟩ := Option.map_eq_some_iff.mp hout
        refine ⟨['%', h, l], [UInt8.ofNat n], rest, rfl, .cons hb .nil, ?_, by simp [hcs]⟩
        rw [Finishes, if_pos hneed, hbyte]
        exact ⟨hrange, rfl⟩
      · obtain ⟨text, bytes, rest, rfl, htext, hbytes, hrest⟩ := ih n rfl (by rw [hout]; rfl)
        refine ⟨'%' :: h :: l :: text, UInt8.ofNat n :: bytes, rest, rfl, .cons hb htext, ?_, hrest⟩
        rw [Finishes, if_neg hneed, hbyte]
        exact ⟨hrange, hbytes⟩
  | case1 => cases hu
  | case2 => simp [decodeEscapes] at hs
  | case3 => cases hu
  | case5 => cases hu
  | case6 => cases hu
  | case7 u₀ c rest hno => simp [decodeEscapes] at hs

/-- Escapes of bytes that finish a character are read. -/
theorem decodeEscapes_finishes (htext : EscapeOf text bytes) (h : Finishes u bytes)
    (hrest : (decodeEscapes none rest).isSome) :
    (decodeEscapes (some u) (text ++ rest)).isSome := by
  induction htext generalizing u with
  | nil => exact h.elim
  | @cons x y b text bytes hb htext ih =>
      obtain ⟨hrange, hmore⟩ := h
      rw [List.cons_append, List.cons_append, List.cons_append, decodeEscapes, hb,
        Option.bind_some, if_pos hrange]
      by_cases hneed : u.need = 1
      · rw [if_pos hneed] at hmore ⊢
        subst hmore
        cases htext
        rw [Option.isSome_map]
        exact hrest
      · rw [if_neg hneed] at hmore ⊢
        exact ih hmore

/-- The characters of one byte. -/
theorem encode_ascii (hn : n < 0x80) :
    String.utf8EncodeChar (Char.ofNat n) = [UInt8.ofNat n] := by
  have hc : (Char.ofNat n).val.toNat = n := toNat_ofNat (.inl (by omega))
  rw [String.utf8EncodeChar]
  simp only [hc]
  rw [if_pos (by omega)]

/-- Text that is decoded is made of plain and of escaped characters; the induction is on its
length, since an escaped character takes more than one escape. -/
theorem escaped_of_decode (hs : (decodeEscapes none s).isSome) : Escaped s := by
  induction hlen : s.length using Nat.strong_induction_on generalizing s with
  | _ k ih =>
      cases s with
      | nil => exact .nil
      | cons c rest =>
          by_cases hc : c = '%'
          · subst hc
            match rest with
            | [] => simp [decodeEscapes] at hs
            | [_] => simp [decodeEscapes] at hs
            | h :: l :: rest =>
                rw [decodeEscapes] at hs
                obtain ⟨out, hout⟩ := Option.isSome_iff_exists.mp hs
                obtain ⟨n, hn, hout⟩ := Option.bind_eq_some_iff.mp hout
                obtain ⟨hb, hbyte⟩ := byte_hexByte hn
                cases hfirst : (firstByte n).2 with
                | none =>
                    simp only [hfirst] at hout
                    split_ifs at hout with hascii
                    obtain ⟨cs, hcs, -⟩ := Option.map_eq_some_iff.mp hout
                    have hplain : Escaped rest :=
                      ih rest.length (by simp [← hlen]; omega) (by simp [hcs]) rfl
                    have hchar : EscapeOf ['%', h, l] (String.utf8EncodeChar (Char.ofNat n)) := by
                      rw [encode_ascii hascii]
                      exact .cons hb .nil
                    exact .char hchar hplain
                | some u =>
                    simp only [hfirst] at hout
                    obtain ⟨text, bytes, rest', rfl, htext, hfin, hrest⟩ :=
                      decodeEscapes_unfinished (by rw [hout]; rfl)
                    rw [← hbyte] at hfirst
                    obtain ⟨c, hencode⟩ := encode_of_finishes hfirst hfin
                    have hplain : Escaped rest' :=
                      ih rest'.length (by simp [← hlen]; omega) hrest rfl
                    have hchar : EscapeOf ('%' :: h :: l :: text) (String.utf8EncodeChar c) := by
                      rw [hencode]
                      exact .cons hb htext
                    exact .char hchar hplain
          · have hstep : decodeEscapes none (c :: rest) =
                (decodeEscapes none rest).map (c :: ·) := by
              rw [decodeEscapes, if_neg hc]
              exact fun h l rest' heq => absurd heq hc
            rw [hstep, Option.isSome_map] at hs
            exact .plain hc (ih rest.length (by simp [← hlen]) hs rfl)

/-- Plain and escaped characters are decoded. -/
theorem decode_of_escaped (h : Escaped s) : (decodeEscapes none s).isSome := by
  induction h with
  | nil => rfl
  | @plain c rest hc hrest ih => 
      rw [decodeEscapes, if_neg hc, Option.isSome_map]
      · exact ih
      · intro h l rest' heq
        exact absurd heq hc
  | @char c text rest htext hrest ih =>
      generalize hbytes : String.utf8EncodeChar c = bytes at htext
      cases htext with
      | nil => exact ih
      | @cons x y b text bytes hb htext =>
          rw [List.cons_append, List.cons_append, List.cons_append, decodeEscapes, hb,
            Option.bind_some]
          rcases finishes_of_encode hbytes with ⟨hascii, rfl⟩ | ⟨u, hu, hfin⟩
          · cases htext
            rw [firstByte_ascii hascii]
            simp only [if_pos hascii, Option.isSome_map, List.nil_append, ih]
          · rw [hu]
            exact decodeEscapes_finishes htext hfin ih

/-- The texts that are decoded. -/
theorem decodeURIComponent_isSome_iff (s : String) :
    (decodeURIComponent s).isSome ↔ Escaped s.toList := by
  rw [decodeURIComponent, Option.isSome_map]
  exact ⟨escaped_of_decode, decode_of_escaped⟩

end OpenUnion.Text
