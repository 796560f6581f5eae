import Mathlib.Tactic.FieldSimp
import OpenUnion.JsonText.Value
import OpenUnion.Numbers.Binary64

/-!
# Numbers of double precision in JSON text

A number is read by rounding it to double precision.  It is printed with the fewest digits that
are read back as the number, of these the nearest one, and with an exponent where the point would
be more than 21 digits behind the first one or more than six in front of it.

* `formatted_number`: the text of digits denotes them.
* `shortest_spec`: the digits that are found are read back.
* `print_read`: a number of double precision is read back from its text.
-/

namespace OpenUnion.JsonText

open Numbers

/-! ## Reading -/

/-- The number that digits denote. -/
def Digits.number (d : Digits) : ℕ := Nat.ofDigitChars 10 d.chars 0

/-- The number behind the point. -/
def fractionNumber : Option Digits → ℚ
  | none => 0
  | some f => f.number / 10 ^ f.chars.length

/-- The number behind the letter. -/
def Exponent.number (e : Exponent) : ℤ :=
  match e.sign with
  | .minus => -e.digits.number
  | _ => e.digits.number

/-- The power of ten. -/
def exponentNumber : Option Exponent → ℤ
  | none => 0
  | some e => e.number

/-- The factor of a minus. -/
def signOf (negative : Bool) : ℚ := if negative then -1 else 1

/-- The number that a text denotes. -/
def Literal.number (l : Literal) : ℚ :=
  signOf l.negative *
    ((l.whole.number + fractionNumber l.fraction) * 10 ^ exponentNumber l.exponent)

/-! ## Printing -/

/-- The text of digits, if there are some. -/
def digits? (cs : List Char) : Option Digits :=
  if h : cs.all Char.isDigit = true ∧ cs ≠ [] then some ⟨cs, List.all_eq_true.mp h.1, h.2⟩
  else none

/-- A number by its parts. -/
def literal? (negative : Bool) (whole fraction : List Char) (exponent : Option Exponent) :
    Option Literal :=
  (digits? whole).bind fun w =>
    if h : w.chars = ['0'] ∨ w.chars.head? ≠ some '0' then
      some ⟨negative, w, h, digits? fraction, exponent⟩
    else none

/-- The exponent `e+n` or `e-n`. -/
def exponentOf (n : ℤ) : Option Exponent :=
  (digits? (Nat.toDigits 10 n.natAbs)).map fun ds => ⟨false, if n < 0 then .minus else .plus, ds⟩

/-- The text of the number `s * 10 ^ e`, `Number::toString`. -/
def formatted (negative : Bool) (s : ℕ) (e : ℤ) : Option Literal :=
  let ds := Nat.toDigits 10 s
  let k := ds.length
  -- the place of the point, from the front of the digits
  let n : ℤ := e + k
  if 0 ≤ e ∧ n ≤ 21 then literal? negative (ds ++ List.replicate e.toNat '0') [] none
  else if 0 < n ∧ n ≤ 21 then literal? negative (ds.take n.toNat) (ds.drop n.toNat) none
  else if -6 < n ∧ n ≤ 0 then
    literal? negative ['0'] (List.replicate (-n).toNat '0' ++ ds) none
  else literal? negative (ds.take 1) (ds.drop 1) (exponentOf (n - 1))

/-- The exponent of the last of `k` digits. -/
def lastPlace (q : ℚ) (k : ℕ) : ℤ := Int.log 10 |q| + 1 - k

/-- `s * 10 ^ e` with the sign of a number. -/
def withSign (q : ℚ) (s : ℤ) (e : ℤ) : ℚ := signOf (decide (q < 0)) * (s * 10 ^ e)

/-- The number of `k` digits that is read back as `q`: the nearest one, or else a neighbour. -/
def digitsOf (q : ℚ) (k : ℕ) : Option ℤ :=
  let y := |q| / 10 ^ lastPlace q k
  [roundHalfEven y, ⌊y⌋, ⌊y⌋ + 1].find? fun s =>
    binary64 (withSign q s (lastPlace q k)) = some q

/-- With as many digits every number of double precision is exact. -/
def mostDigits (q : ℚ) : ℕ := (Int.log 10 |q| + 1 + 1074).toNat

/-- The fewest digits that are read back as `q`, and the exponent of the last one. -/
def shortest (q : ℚ) : Option (ℕ × ℤ) :=
  (List.range (mostDigits q)).findSome? fun k =>
    (digitsOf q (k + 1)).map fun s =>
      -- only a first digit that is rounded up ends in a zero
      if s = 10 then (1, lastPlace q (k + 1) + 1) else (s.toNat, lastPlace q (k + 1))

/-- The text of a finite number. -/
def printFinite (q : ℚ) : Option Literal :=
  if q = 0 then literal? false ['0'] [] none
  else (shortest q).bind fun d => formatted (decide (q < 0)) d.1 d.2

/-- The numbers of the language; `none` is infinite. -/
def doubles : Numerals (Option ℚ) where
  read l := binary64 l.number
  print x := x.bind printFinite

variable {q : ℚ} {s : ℕ} {e : ℤ} {k : ℕ} {negative : Bool}

/-! ## The text of digits -/

theorem digits?_some {cs : List Char} (hdigits : ∀ c ∈ cs, c.isDigit = true) (hne : cs ≠ []) :
    digits? cs = some ⟨cs, hdigits, hne⟩ := dif_pos ⟨List.all_eq_true.mpr hdigits, hne⟩

theorem fractionNumber_digits? {cs : List Char} (hdigits : ∀ c ∈ cs, c.isDigit = true) :
    fractionNumber (digits? cs) = Nat.ofDigitChars 10 cs 0 / 10 ^ cs.length := by
  by_cases hne : cs = []
  · subst hne
    simp [digits?, fractionNumber]
  · rw [digits?_some hdigits hne]
    rfl

/-- A number by its parts, and what it denotes. -/
theorem literal?_number {whole fraction : List Char} {b : Bool} {x : Option Exponent}
    (hwhole : ∀ c ∈ whole, c.isDigit = true) (hne : whole ≠ [])
    (hplain : whole = ['0'] ∨ whole.head? ≠ some '0')
    (hfraction : ∀ c ∈ fraction, c.isDigit = true) :
    ∃ l, literal? b whole fraction x = some l ∧
      l.number = signOf b * ((Nat.ofDigitChars 10 whole 0 +
        Nat.ofDigitChars 10 fraction 0 / 10 ^ fraction.length) * 10 ^ exponentNumber x) := by
  refine ⟨⟨b, ⟨whole, hwhole, hne⟩, hplain, digits? fraction, x⟩, ?_, ?_⟩
  · rw [literal?, digits?_some hwhole hne, Option.bind_some]
    exact dif_pos hplain
  · rw [Literal.number, fractionNumber_digits? hfraction]
    rfl

theorem exponentNumber_exponentOf (n : ℤ) : exponentNumber (exponentOf n) = n := by
  have hdigits : ∀ c ∈ Nat.toDigits 10 n.natAbs, c.isDigit = true := fun c hc =>
    Nat.isDigit_of_mem_toDigits (by decide) (by decide) hc
  rw [exponentOf, digits?_some hdigits Nat.toDigits_ne_nil]
  simp only [Option.map_some, exponentNumber, Exponent.number]
  have hnumber : Digits.number ⟨Nat.toDigits 10 n.natAbs, hdigits, Nat.toDigits_ne_nil⟩ =
      n.natAbs := Nat.ofDigitChars_ten_toDigits
  rw [hnumber]
  split_ifs with hneg <;> simp only <;> omega

/-- The first digit of a number is no zero. -/
theorem toDigits_head (hs : 0 < s) : (Nat.toDigits 10 s).head? ≠ some '0' := by
  induction s using Nat.strong_induction_on with
  | _ s ih =>
      by_cases hlt : s < 10
      · rw [Nat.toDigits_of_lt_base hlt]
        interval_cases s <;> decide
      · rw [Nat.toDigits_of_base_le (by decide) (not_lt.mp hlt)]
        have hdiv : 0 < s / 10 := Nat.div_pos (not_lt.mp hlt) (by decide)
        have hrest := ih (s / 10) (Nat.div_lt_self hs (by decide)) hdiv
        rwa [List.head?_append_of_ne_nil _ Nat.toDigits_ne_nil]

/-- Digits before and behind a point. -/
theorem split_number (a b : List Char) :
    (Nat.ofDigitChars 10 a 0 : ℚ) + Nat.ofDigitChars 10 b 0 / 10 ^ b.length =
      Nat.ofDigitChars 10 (a ++ b) 0 * 10 ^ (-(b.length : ℤ)) := by
  have hvalue : Nat.ofDigitChars 10 (a ++ b) 0 =
      10 ^ b.length * Nat.ofDigitChars 10 a 0 + Nat.ofDigitChars 10 b 0 := by
    rw [Nat.ofDigitChars_append]
    exact Nat.ofDigitChars_eq_ofDigitChars_zero
  rw [hvalue, zpow_neg, zpow_natCast]
  push_cast
  field_simp

/-- A number by the digits before and behind its point. -/
theorem literal?_split {s whole fraction : List Char} {b : Bool} {x : Option Exponent}
    {n : ℤ}
    (hds : whole ++ fraction = s) (hdigits : ∀ c ∈ s, c.isDigit = true) (hne : whole ≠ [])
    (hplain : whole = ['0'] ∨ whole.head? ≠ some '0')
    (hn : exponentNumber x - fraction.length = n) :
    ∃ l, literal? b whole fraction x = some l ∧
      l.number = signOf b * (Nat.ofDigitChars 10 s 0 * 10 ^ n) := by
  subst hds hn
  obtain ⟨l, hl, hnumber⟩ := literal?_number (b := b) (x := x)
    (fun c hc => hdigits c (List.mem_append_left _ hc)) hne hplain
    (fun c hc => hdigits c (List.mem_append_right _ hc))
  refine ⟨l, hl, ?_⟩
  rw [hnumber, split_number, mul_assoc, ← zpow_add₀ (by norm_num : (10 : ℚ) ≠ 0)]
  congr 3
  ring

theorem head?_take {cs : List Char} {m : ℕ} (hm : 0 < m) : (cs.take m).head? = cs.head? := by
  cases cs with
  | nil => rw [List.take_nil]
  | cons c cs =>
      obtain ⟨m, rfl⟩ : ∃ m', m = m' + 1 := ⟨m - 1, by omega⟩
      rfl

/-- The text of digits denotes them. -/
theorem formatted_number (negative : Bool) (hs : 0 < s) (e : ℤ) :
    ∃ l, formatted negative s e = some l ∧
      l.number = signOf negative * (s * 10 ^ e) := by
  have hdigits : ∀ c ∈ Nat.toDigits 10 s, c.isDigit = true := fun c hc =>
    Nat.isDigit_of_mem_toDigits (by decide) (by decide) hc
  have hhead := toDigits_head hs
  have hne : Nat.toDigits 10 s ≠ [] := Nat.toDigits_ne_nil
  have hnumber : Nat.ofDigitChars 10 (Nat.toDigits 10 s) 0 = s := Nat.ofDigitChars_ten_toDigits
  have hlength : 0 < (Nat.toDigits 10 s).length := Nat.length_toDigits_pos
  unfold formatted
  generalize Nat.toDigits 10 s = ds at hdigits hhead hne hnumber hlength
  have hzero : ∀ m, ∀ c ∈ List.replicate m '0', c.isDigit = true := by
    intro m c hc
    rw [List.eq_of_mem_replicate hc]
    rfl
  have htake : ∀ m, 0 < m → ds.take m ≠ [] ∧ (ds.take m).head? ≠ some '0' := by
    intro m hm
    constructor
    · intro hnil
      rw [List.take_eq_nil_iff] at hnil
      rcases hnil with hnil | hnil
      · omega
      · exact hne hnil
    · rwa [head?_take hm]
  simp only
  split_ifs with hwhole hpoint hsmall
  · obtain ⟨l, hl, hvalue⟩ := literal?_split (b := negative) (x := none) (n := 0)
      (List.append_nil (ds ++ List.replicate e.toNat '0'))
      (fun c hc => (List.mem_append.mp hc).elim (hdigits c) (hzero e.toNat c))
      (by simp [hne]) (.inr (by rwa [List.head?_append_of_ne_nil _ hne])) rfl
    refine ⟨l, hl, ?_⟩
    have hpower : ((10 : ℚ) ^ e) = 10 ^ e.toNat := by
      rw [← zpow_natCast, Int.toNat_of_nonneg hwhole.1]
    rw [hvalue, Nat.ofDigitChars_append, hnumber, Nat.ofDigitChars_replicate_zero, hpower]
    push_cast
    ring
  · obtain ⟨hfirst, hhead'⟩ := htake (e + ds.length).toNat (by omega)
    obtain ⟨l, hl, hvalue⟩ := literal?_split (b := negative) (x := none) (n := e)
      (List.take_append_drop (e + ds.length).toNat ds) hdigits hfirst (.inr hhead')
      (by simp only [exponentNumber, List.length_drop]; omega)
    exact ⟨l, hl, by rw [hvalue, hnumber]⟩
  · obtain ⟨l, hl, hvalue⟩ := literal?_split (b := negative) (x := none) (n := e)
      (s := ['0'] ++ (List.replicate (-(e + ds.length)).toNat '0' ++ ds)) rfl
      (fun c hc => by
        rcases List.mem_cons.mp hc with rfl | hc
        · rfl
        · have hmem : c ∈ List.replicate (-(e + ds.length)).toNat '0' ++ ds := hc
          exact (List.mem_append.mp hmem).elim (hzero _ c) (hdigits c))
      (List.cons_ne_nil _ _) (.inl rfl)
      (by simp only [exponentNumber, List.length_append, List.length_replicate]; omega)
    refine ⟨l, hl, ?_⟩
    have hsame : Nat.ofDigitChars 10
        (['0'] ++ (List.replicate (-(e + ds.length)).toNat '0' ++ ds)) 0 = s := by
      rw [Nat.ofDigitChars_append, Nat.ofDigitChars_append]
      have hfirst : Nat.ofDigitChars 10 ['0'] 0 = 0 := rfl
      rw [hfirst, Nat.ofDigitChars_replicate_zero, Nat.mul_zero, hnumber]
    rw [hvalue, hsame]
  · obtain ⟨hfirst, hhead'⟩ := htake 1 (by decide)
    obtain ⟨l, hl, hvalue⟩ := literal?_split (b := negative)
      (x := exponentOf (e + ds.length - 1)) (n := e)
      (List.take_append_drop 1 ds) hdigits hfirst (.inr hhead')
      (by rw [exponentNumber_exponentOf, List.length_drop]; omega)
    exact ⟨l, hl, by rw [hvalue, hnumber]⟩

/-! ## The digits that are found -/

/-- A number of double precision is a multiple of the least positive one. -/
theorem exists_multiple (hq : binary64 q = some q) : ∃ m : ℤ, q * 2 ^ 1074 = m := by
  have hrounded : roundedTo q = q := by
    rw [binary64_eq] at hq
    split_ifs at hq
    exact Option.some.inj hq
  have hunit : -1074 ≤ unitExponent q := by
    unfold unitExponent
    omega
  obtain ⟨t, ht⟩ : ∃ t : ℕ, unitExponent q = -1074 + t := ⟨(unitExponent q + 1074).toNat, by omega⟩
  refine ⟨roundHalfEven (q / 2 ^ unitExponent q) * 2 ^ t, ?_⟩
  have htop : (0 : ℚ) < 2 ^ 1074 := pow_pos (by norm_num) 1074
  have hpower : (2 : ℚ) ^ unitExponent q * 2 ^ 1074 = 2 ^ t := by
    have hneg : (2 : ℚ) ^ (-1074 : ℤ) * 2 ^ 1074 = 1 := by
      rw [zpow_neg]
      exact inv_mul_cancel₀ htop.ne'
    rw [ht, zpow_add₀ (by norm_num), zpow_natCast, mul_right_comm, hneg, one_mul]
  conv_lhs => rw [← hrounded]
  rw [roundedTo, mul_assoc, hpower]
  push_cast
  rfl

/-- A digit string that is found is read back, and it is no zero. -/
theorem digitsOf_spec {m : ℤ} (hq : q ≠ 0) (h : digitsOf q k = some m) (hk : 0 < k) :
    0 < m ∧ binary64 (withSign q m (lastPlace q k)) = some q := by
  have hpos : 0 < |q| := abs_pos.mpr hq
  have hunit : (0 : ℚ) < 10 ^ lastPlace q k := zpow_pos (by norm_num) _
  have hone : 1 ≤ |q| / 10 ^ lastPlace q k := by
    rw [one_le_div hunit]
    have hlog : (10 : ℚ) ^ Int.log 10 |q| ≤ |q| := by
      exact_mod_cast Int.zpow_log_le_self (b := 10) (by decide) hpos
    refine le_trans (zpow_le_zpow_right₀ (by norm_num) ?_) hlog
    unfold lastPlace
    omega
  unfold digitsOf at h
  simp only at h
  have hread := List.find?_some h
  have hmem := List.mem_of_find?_eq_some h
  refine ⟨?_, by simpa using hread⟩
  generalize |q| / 10 ^ lastPlace q k = y at hone hmem
  have hfloor : 1 ≤ ⌊y⌋ := Int.le_floor.mpr (by exact_mod_cast hone)
  have hround : ⌊y⌋ ≤ roundHalfEven y := by
    unfold roundHalfEven
    simp only
    split_ifs <;> omega
  simp only [List.mem_cons, List.not_mem_nil, or_false] at hmem
  omega

/-- A number with its sign. -/
theorem withSign_abs {m : ℤ} (h : |q| = m * 10 ^ e) : withSign q m e = q := by
  rw [withSign, ← h, signOf]
  by_cases hneg : q < 0
  · rw [decide_eq_true hneg, if_pos rfl, abs_of_neg hneg]
    ring
  · rw [decide_eq_false hneg, if_neg (by decide), abs_of_nonneg (not_lt.mp hneg), one_mul]

/-- A multiple of a power of two is one of the power of ten. -/
theorem scaled_ten {n : ℕ} {m : ℤ} (hm : q * 2 ^ n = m) : ∃ i : ℤ, |q| * 10 ^ n = i := by
  refine ⟨|m| * 5 ^ n, ?_⟩
  have hten : (10 : ℚ) ^ n = 2 ^ n * 5 ^ n := by
    rw [← mul_pow]
    norm_num
  have htwo : |(2 : ℚ) ^ n| = 2 ^ n := abs_of_pos (pow_pos (by norm_num) n)
  push_cast
  rw [hten, ← mul_assoc, ← hm, abs_mul, htwo]

/-- As many digits as there are in front of the place of the least positive number are exact. -/
theorem digitsOf_most (hq : q ≠ 0) (hdouble : binary64 q = some q) :
    0 < mostDigits q ∧ (digitsOf q (mostDigits q)).isSome := by
  obtain ⟨m, hm⟩ := exists_multiple hdouble
  have hpos : 0 < |q| := abs_pos.mpr hq
  obtain ⟨i, hinteger⟩ := scaled_ten hm
  have htop : (0 : ℚ) < 10 ^ 1074 := pow_pos (by norm_num) 1074
  have hplace : (10 : ℚ) ^ (-1074 : ℤ) = (10 ^ 1074)⁻¹ := by
    rw [zpow_neg]
    rfl
  have hexact : |q| = i * 10 ^ (-1074 : ℤ) := by
    rw [← hinteger, hplace, mul_assoc, mul_inv_cancel₀ htop.ne', mul_one]
  have hi : 1 ≤ i := by
    have hcast : (0 : ℚ) < i := by
      rw [← hinteger]
      exact mul_pos hpos htop
    exact_mod_cast hcast
  have hlog : -1074 ≤ Int.log 10 |q| := by
    rw [← Int.zpow_le_iff_le_log (b := 10) (by decide) hpos, hexact]
    have hunit : (0 : ℚ) < 10 ^ (-1074 : ℤ) := zpow_pos (by norm_num) _
    have hcast : (1 : ℚ) ≤ i := by exact_mod_cast hi
    simpa using le_mul_of_one_le_left hunit.le hcast
  have hlast : lastPlace q (mostDigits q) = -1074 := by
    unfold lastPlace mostDigits
    omega
  refine ⟨by unfold mostDigits; omega, ?_⟩
  have hread : binary64 (withSign q i (-1074)) = some q := by
    rw [withSign_abs hexact, hdouble]
  have hdigits : |q| / 10 ^ (-1074 : ℤ) = i := by
    rw [hexact, mul_div_assoc, div_self (zpow_pos (by norm_num) _).ne', mul_one]
  unfold digitsOf
  simp only [hlast, hdigits, Int.floor_intCast]
  rw [List.find?_isSome]
  exact ⟨i, by simp, by simp [hread]⟩

/-- The digits that are found are read back. -/
theorem shortest_spec (hq : q ≠ 0) (hdouble : binary64 q = some q) :
    ∃ s e, shortest q = some (s, e) ∧ 0 < s ∧ binary64 (withSign q s e) = some q := by
  obtain ⟨hmost, hsome⟩ := digitsOf_most hq hdouble
  have hfound : (shortest q).isSome := by
    rw [shortest, List.isSome_findSome?, List.any_eq_true]
    refine ⟨mostDigits q - 1, List.mem_range.mpr (by omega), ?_⟩
    rw [Nat.sub_add_cancel hmost]
    simpa using hsome
  obtain ⟨⟨s, e⟩, hse⟩ := Option.isSome_iff_exists.mp hfound
  refine ⟨s, e, hse, ?_⟩
  obtain ⟨k, -, hk⟩ := List.exists_of_findSome?_eq_some hse
  obtain ⟨m, hm, hvalue⟩ := Option.map_eq_some_iff.mp hk
  obtain ⟨hpos, hread⟩ := digitsOf_spec hq hm (Nat.succ_pos k)
  split_ifs at hvalue with hten
  · obtain ⟨rfl, rfl⟩ := Prod.mk.inj hvalue
    refine ⟨one_pos, ?_⟩
    have hsame : withSign q ((1 : ℕ) : ℤ) (lastPlace q (k + 1) + 1) =
        withSign q m (lastPlace q (k + 1)) := by
      rw [withSign, withSign, hten, zpow_add₀ (by norm_num)]
      push_cast
      ring
    rw [hsame, hread]
  · obtain ⟨rfl, rfl⟩ := Prod.mk.inj hvalue
    have hcast : ((m.toNat : ℕ) : ℤ) = m := Int.toNat_of_nonneg hpos.le
    exact ⟨by omega, by rw [hcast, hread]⟩

/-- A number of double precision is read back from its text. -/
theorem print_read (hdouble : binary64 q = some q) :
    ∃ l, doubles.print (some q) = some l ∧ doubles.read l = some q := by
  simp only [doubles, Option.bind_some, printFinite]
  by_cases hq : q = 0
  · subst hq
    have hdigits : ∀ c ∈ ['0'], c.isDigit = true := List.all_eq_true.mp rfl
    obtain ⟨l, hl, hnumber⟩ := literal?_split (b := false) (x := none) (n := 0)
      (List.append_nil ['0']) hdigits (List.cons_ne_nil _ _) (.inl rfl) rfl
    refine ⟨l, by rw [if_pos rfl, hl], ?_⟩
    have hzero : Nat.ofDigitChars 10 ['0'] 0 = 0 := rfl
    rw [hnumber, hzero, Nat.cast_zero, zero_mul, mul_zero, hdouble]
  · obtain ⟨s, e, hse, hs, hread⟩ := shortest_spec hq hdouble
    obtain ⟨l, hl, hnumber⟩ := formatted_number (decide (q < 0)) hs e
    refine ⟨l, by rw [if_neg hq, hse, Option.bind_some, hl], ?_⟩
    rw [hnumber]
    exact hread

end OpenUnion.JsonText
