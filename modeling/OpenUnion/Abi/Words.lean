import Mathlib.Data.Nat.Digits.Defs
import Mathlib.Tactic.IntervalCases
import Mathlib.Tactic.Ring
import Mathlib.Data.List.Forall2

/-!
# Hexadecimal text and words of bytes

The two sides of a call by static arguments: the text a caller writes, two digits a
byte, and the words of 32 bytes the callee reads off it.

* `Spells text n`: the digits of `text`, of either case, denote `n`; leading zeros and
  lower case do not matter, and `spells_toDigits` is the text of a number.
* `hexBytes_word`: 64 digits that spell `n` are the 32 bytes of the word `n`.
* `readWord_append`, `readWords_append`: words are read back one after the other.
-/

namespace Abi

variable {b n k : Nat} {text rest digits : List Char} {ds bs : List Nat}

/-- The number that digits denote, the most significant one first. -/
def ofBigEndian (b : Nat) (ds : List Nat) : Nat := Nat.ofDigits b ds.reverse

theorem ofBigEndian_append (b : Nat) (ds es : List Nat) :
    ofBigEndian b (ds ++ es) = ofBigEndian b ds * b ^ es.length + ofBigEndian b es := by
  simp only [ofBigEndian, List.reverse_append, Nat.ofDigits_append, List.length_reverse]
  ring

theorem ofBigEndian_singleton (b d : Nat) : ofBigEndian b [d] = d := by
  simp [ofBigEndian]

/-- Leading zeros do not change a number. -/
theorem ofBigEndian_zeros (b k : Nat) (ds : List Nat) :
    ofBigEndian b (List.replicate k 0 ++ ds) = ofBigEndian b ds := by
  simp [ofBigEndian, Nat.ofDigits_append_replicate_zero]

theorem ofBigEndian_lt (hb : 1 < b) (h : ∀ d ∈ ds, d < b) : ofBigEndian b ds < b ^ ds.length := by
  have hrev : ∀ d ∈ ds.reverse, d < b := fun d hd => h d (List.mem_reverse.mp hd)
  simpa [ofBigEndian] using Nat.ofDigits_lt_base_pow_length hb hrev

/-! ## Digits -/

/-- The value of a hexadecimal digit of either case. -/
def hexValue (c : Char) : Option Nat :=
  if '0' ≤ c ∧ c ≤ '9' then some (c.toNat - '0'.toNat)
  else if 'a' ≤ c ∧ c ≤ 'f' then some (c.toNat - 'a'.toNat + 10)
  else if 'A' ≤ c ∧ c ≤ 'F' then some (c.toNat - 'A'.toNat + 10)
  else none

theorem hexValue_digitChar (h : n < 16) : hexValue n.digitChar = some n := by
  interval_cases n <;> decide

/-- The digits of a text. -/
def hexDigits (text : List Char) : Option (List Nat) := text.mapM hexValue

theorem hexDigits_append {es : List Nat} (h : hexDigits text = some ds)
    (hrest : hexDigits rest = some es) : hexDigits (text ++ rest) = some (ds ++ es) := by
  simp only [hexDigits] at h hrest
  simp [hexDigits, List.mapM_append, h, hrest]

theorem hexDigits_length (h : hexDigits text = some ds) : ds.length = text.length := by
  induction text generalizing ds with
  | nil =>
      obtain rfl : [] = ds := by simpa [hexDigits] using h
      rfl
  | cons c text ih =>
      simp only [hexDigits, List.mapM_cons, Option.bind_eq_bind, Option.bind_eq_some_iff] at h
      obtain ⟨d, -, es, hes, hds⟩ := h
      obtain rfl : d :: es = ds := by simpa using hds
      simp [ih hes]

theorem hexDigits_take (h : hexDigits text = some ds) (k : Nat) :
    hexDigits (text.take k) = some (ds.take k) := by
  induction text generalizing ds k with
  | nil =>
      obtain rfl : [] = ds := by simpa [hexDigits] using h
      simp [hexDigits]
  | cons c text ih =>
      simp only [hexDigits, List.mapM_cons, Option.bind_eq_bind, Option.bind_eq_some_iff] at h
      obtain ⟨d, hd, es, hes, hds⟩ := h
      obtain rfl : d :: es = ds := by simpa using hds
      cases k with
      | zero => rfl
      | succ k =>
          have htail := ih hes k
          simp only [hexDigits] at htail
          simp [hexDigits, hd, htail]

theorem hexDigits_zeros (k : Nat) : hexDigits (List.replicate k '0') = some (List.replicate k 0) := by
  induction k with
  | zero => rfl
  | succ k ih =>
      have hzero : hexValue '0' = some 0 := by decide
      simp only [hexDigits] at ih
      simp [hexDigits, List.replicate_succ, hzero, ih]

theorem hexValue_lt {c : Char} {d : Nat} (h : hexValue c = some d) : d < 16 := by
  simp only [hexValue] at h
  have hle : ∀ a b : Char, a ≤ b → a.toNat ≤ b.toNat := fun _ _ hab => hab
  split_ifs at h with hdigit hlower hupper
  · have hhigh := hle _ _ hdigit.2
    obtain rfl := Option.some.inj h
    have hnine : '9'.toNat - '0'.toNat = 9 := rfl
    omega
  · have hhigh := hle _ _ hlower.2
    obtain rfl := Option.some.inj h
    have hf : 'f'.toNat - 'a'.toNat = 5 := rfl
    omega
  · have hhigh := hle _ _ hupper.2
    obtain rfl := Option.some.inj h
    have hf : 'F'.toNat - 'A'.toNat = 5 := rfl
    omega

theorem hexDigits_lt (h : hexDigits text = some ds) : ∀ d ∈ ds, d < 16 := by
  induction text generalizing ds with
  | nil =>
      obtain rfl : [] = ds := by simpa [hexDigits] using h
      simp
  | cons c text ih =>
      simp only [hexDigits, List.mapM_cons, Option.bind_eq_bind, Option.bind_eq_some_iff] at h
      obtain ⟨d, hd, es, hes, hds⟩ := h
      obtain rfl : d :: es = ds := by simpa using hds
      simpa using ⟨hexValue_lt hd, ih hes⟩

/-- A digit in lower case is the one that is printed. -/
theorem digitChar_of_hexValue {c : Char} {d : Nat} (hlower : c.toLower = c)
    (h : hexValue c = some d) : c = d.digitChar := by
  have hle : ∀ a b : Char, a ≤ b → a.toNat ≤ b.toNat := fun _ _ hab => hab
  rw [← Char.ofNat_toNat c] at hlower ⊢
  simp only [hexValue] at h
  split_ifs at h with hdigit hlow hupper
  · have hlo := hle _ _ hdigit.1
    have hhi := hle _ _ hdigit.2
    obtain rfl := Option.some.inj h
    generalize c.toNat = k at hlo hhi ⊢
    change 48 ≤ k at hlo
    change k ≤ 57 at hhi
    interval_cases k <;> decide
  · have hlo := hle _ _ hlow.1
    have hhi := hle _ _ hlow.2
    obtain rfl := Option.some.inj h
    generalize c.toNat = k at hlo hhi ⊢
    change 97 ≤ k at hlo
    change k ≤ 102 at hhi
    interval_cases k <;> decide
  · have hlo := hle _ _ hupper.1
    have hhi := hle _ _ hupper.2
    exfalso
    revert hlower
    generalize c.toNat = k at hlo hhi ⊢
    change 65 ≤ k at hlo
    change k ≤ 70 at hhi
    interval_cases k <;> decide

/-- The digits of `text` denote `n`. -/
def Spells (text : List Char) (n : Nat) : Prop :=
  ∃ ds, hexDigits text = some ds ∧ ofBigEndian 16 ds = n

/-- The text of a number, as it is printed to base 16. -/
theorem spells_toDigits (n : Nat) : Spells (Nat.toDigits 16 n) n := by
  induction n using Nat.strong_induction_on with
  | _ n ih =>
      rw [Nat.toDigits_eq_if (by decide)]
      split_ifs with hn
      · exact ⟨[n], by simp [hexDigits, hexValue_digitChar hn], ofBigEndian_singleton 16 n⟩
      · obtain ⟨ds, hds, hvalue⟩ := ih (n / 16) (by omega)
        have hlast : hexDigits [(n % 16).digitChar] = some [n % 16] := by
          simp [hexDigits, hexValue_digitChar (Nat.mod_lt n (by decide))]
        refine ⟨ds ++ [n % 16], hexDigits_append hds hlast, ?_⟩
        rw [ofBigEndian_append, hvalue, ofBigEndian_singleton]
        simp only [List.length_singleton, pow_one]
        omega

/-- A text of `k` digits denotes a number below `16 ^ k`. -/
theorem Spells.lt (h : Spells text n) : n < 16 ^ text.length := by
  obtain ⟨ds, hds, rfl⟩ := h
  rw [← hexDigits_length hds]
  exact ofBigEndian_lt (by decide) (hexDigits_lt hds)

/-- Padding with zeros. -/
theorem Spells.leftpad (h : Spells text n) (k : Nat) : Spells (text.leftpad k '0') n := by
  obtain ⟨ds, hds, hvalue⟩ := h
  exact ⟨_, hexDigits_append (hexDigits_zeros _) hds, (ofBigEndian_zeros ..).trans hvalue⟩

/-- Letters have the same value in lower case. -/
theorem hexValue_toLower (c : Char) : hexValue c.toLower = hexValue c := by
  by_cases hupper : c.val ≥ 'A'.val ∧ c.val ≤ 'Z'.val
  · have hlow : 65 ≤ c.toNat := hupper.1
    have hhigh : c.toNat ≤ 90 := hupper.2
    rw [← Char.ofNat_toNat c]
    generalize c.toNat = m at hlow hhigh ⊢
    interval_cases m <;> decide
  · have hsame : c.toLower = c := dif_neg hupper
    rw [hsame]

theorem hexDigits_toLower (text : List Char) :
    hexDigits (text.map Char.toLower) = hexDigits text := by
  simp only [hexDigits, List.mapM_map]
  exact congrArg (fun f => text.mapM f) (funext hexValue_toLower)

/-- Lower case. -/
theorem Spells.toLower (h : Spells text n) : Spells (text.map Char.toLower) n := by
  obtain ⟨ds, hds, hvalue⟩ := h
  exact ⟨ds, (hexDigits_toLower text).trans hds, hvalue⟩

/-! ## Bytes -/

/-- Two digits make a byte. -/
def bytesOf : List Nat → Option (List Nat)
  | [] => some []
  | [_] => none
  | hi :: lo :: ds => (bytesOf ds).map fun bs => (hi * 16 + lo) :: bs

/-- The bytes of a text. -/
def hexBytes (text : List Char) : Option (List Nat) := (hexDigits text).bind bytesOf

/-- An even number of digits is half as many bytes, with the same value. -/
theorem bytesOf_even : ∀ (k : Nat) (ds : List Nat), ds.length = 2 * k →
    ∃ bs, bytesOf ds = some bs ∧ bs.length = k ∧ ofBigEndian 256 bs = ofBigEndian 16 ds
  | 0, ds, h => by
      obtain rfl : ds = [] := List.length_eq_zero_iff.mp h
      exact ⟨[], rfl, rfl, rfl⟩
  | k + 1, ds, h => by
      match ds, h with
      | hi :: lo :: ds, h =>
          have hlen : ds.length = 2 * k := by
            simp only [List.length_cons] at h
            omega
          obtain ⟨bs, hbs, hk, hvalue⟩ := bytesOf_even k ds hlen
          refine ⟨(hi * 16 + lo) :: bs, by simp [bytesOf, hbs], by simp [hk], ?_⟩
          have hbytes := ofBigEndian_append 256 [hi * 16 + lo] bs
          have hdigits := ofBigEndian_append 16 [hi, lo] ds
          have hpair : ofBigEndian 16 [hi, lo] = hi * 16 + lo := by
            simpa [ofBigEndian_singleton] using ofBigEndian_append 16 [hi] [lo]
          have hpow : (256 : Nat) ^ k = 16 ^ (2 * k) := by rw [pow_mul]; norm_num
          rw [ofBigEndian_singleton, hk, hvalue, hpow] at hbytes
          rw [hpair, hlen] at hdigits
          exact hbytes.trans hdigits.symm

theorem bytesOf_append {es : List Nat} {cs : List Nat} : ∀ {ds bs : List Nat},
    bytesOf ds = some bs → bytesOf es = some cs → bytesOf (ds ++ es) = some (bs ++ cs)
  | [], bs, h, hes => by
      obtain rfl : [] = bs := by simpa [bytesOf] using h
      exact hes
  | [_], _, h, _ => by simp [bytesOf] at h
  | hi :: lo :: ds, bs, h, hes => by
      simp only [bytesOf, Option.map_eq_some_iff] at h
      obtain ⟨bs', hbs', rfl⟩ := h
      simp [bytesOf, bytesOf_append hbs' hes]

theorem hexBytes_append (h : hexBytes text = some ds) (hrest : hexBytes rest = some bs) :
    hexBytes (text ++ rest) = some (ds ++ bs) := by
  simp only [hexBytes, Option.bind_eq_some_iff] at h hrest
  obtain ⟨x, hx, hds⟩ := h
  obtain ⟨y, hy, hbs⟩ := hrest
  simp [hexBytes, hexDigits_append hx hy, bytesOf_append hds hbs]

/-- The first bytes of a text are those of twice as many digits. -/
theorem bytesOf_take : ∀ (k : Nat) {ds bs : List Nat}, bytesOf ds = some bs →
    bytesOf (ds.take (2 * k)) = some (bs.take k)
  | 0, _, _, _ => by simp [bytesOf]
  | k + 1, [], bs, h => by
      obtain rfl : [] = bs := by simpa [bytesOf] using h
      simp [bytesOf]
  | _ + 1, [_], _, h => by simp [bytesOf] at h
  | k + 1, hi :: lo :: ds, bs, h => by
      simp only [bytesOf, Option.map_eq_some_iff] at h
      obtain ⟨bs', hbs', rfl⟩ := h
      have htwo : 2 * (k + 1) = 2 * k + 1 + 1 := by omega
      simp [htwo, bytesOf, bytesOf_take k hbs']

theorem hexBytes_take (h : hexBytes text = some bs) (k : Nat) :
    hexBytes (text.take (2 * k)) = some (bs.take k) := by
  simp only [hexBytes, Option.bind_eq_some_iff] at h
  obtain ⟨ds, hds, hbs⟩ := h
  simp [hexBytes, hexDigits_take hds, bytesOf_take k hbs]

/-- The bytes of the word `n`. -/
structure IsWord (bs : List Nat) (n : Nat) : Prop where
  length : bs.length = 32
  value : ofBigEndian 256 bs = n

/-- 64 digits are a word. -/
theorem hexBytes_word (h : Spells text n) (hlen : text.length = 64) :
    ∃ bs, hexBytes text = some bs ∧ IsWord bs n := by
  obtain ⟨ds, hds, hvalue⟩ := h
  obtain ⟨bs, hbs, hlength, hsame⟩ := bytesOf_even 32 ds ((hexDigits_length hds).trans hlen)
  exact ⟨bs, by simp [hexBytes, hds, hbs], hlength, hsame.trans hvalue⟩

/-- Texts of words that follow each other. -/
theorem hexBytes_words {texts : List (List Char)} {values : List Nat}
    (h : List.Forall₂ (fun text n => Spells text n ∧ text.length = 64) texts values) :
    ∃ words, hexBytes texts.flatten = some words.flatten ∧ List.Forall₂ IsWord words values := by
  induction h with
  | nil => exact ⟨[], rfl, List.Forall₂.nil⟩
  | cons hword _ ih =>
      obtain ⟨bs, hbs, hvalue⟩ := hexBytes_word hword.1 hword.2
      obtain ⟨words, hwords, hvalues⟩ := ih
      exact ⟨bs :: words, hexBytes_append hbs hwords, List.Forall₂.cons hvalue hvalues⟩

/-! ## Words -/

/-- The next word. -/
def readWord (bs : List Nat) : Option (Nat × List Nat) :=
  if 32 ≤ bs.length then some (ofBigEndian 256 (bs.take 32), bs.drop 32) else none

/-- The next `k` words; what follows them is left alone. -/
def readWords : Nat → List Nat → Option (List Nat)
  | 0, _ => some []
  | k + 1, bs => (readWord bs).bind fun (n, rest) => (readWords k rest).map (n :: ·)

theorem readWord_append {rest : List Nat} (h : IsWord bs n) :
    readWord (bs ++ rest) = some (n, rest) := by
  have htake : (bs ++ rest).take 32 = bs := List.take_left' h.length
  have hdrop : (bs ++ rest).drop 32 = rest := List.drop_left' h.length
  have hlong : 32 ≤ (bs ++ rest).length := by simp [h.length]
  rw [readWord, if_pos hlong, htake, hdrop, h.value]

/-- Words that follow each other are read in order. -/
theorem readWords_append {words : List (List Nat)} {values : List Nat} (rest : List Nat)
    (h : List.Forall₂ IsWord words values) :
    readWords values.length (words.flatten ++ rest) = some values := by
  induction h with
  | nil => rfl
  | cons hword _ ih =>
      simp [readWords, List.append_assoc, readWord_append hword, ih]

end Abi
