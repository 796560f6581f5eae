import OpenUnion.Code.Prices

/-!
# Prices that are read back

An amount is written with a comma between groups of three digits.  The first number of the text
is the first group, so the price is read back if there is no other group.

* `grouped_split`: the first group, and whether another one follows.
* `parse_price`: the number that is read.
* `prices_read_iff`: it is the amount just if that is below one thousand units, and the order of
  such amounts is kept.
-/

namespace OpenUnion

open Numbers

/-- The digits of a number, in groups of three with commas between them. -/
def grouped (n : ℕ) : List Char :=
  if n < 1000 then Nat.toDigits 10 n
  else grouped (n / 1000) ++ ',' :: (Nat.toDigits 10 (n % 1000)).leftpad 3 '0'

/-- The decimals of an amount in cents. -/
def centChars (x : ℕ) : List Char := '.' :: (Nat.toDigits 10 (x % 100)).leftpad 2 '0'

/-- A text that writes `x` cents, between text without digits that has a currency sign; whole
units need no decimals. -/
def PriceText (x : ℕ) (text : String) : Prop :=
  ∃ before decimals after, text.toList = before ++ (grouped (x / 100) ++ decimals) ++ after ∧
    (decimals = centChars x ∨ decimals = [] ∧ x % 100 = 0) ∧
    (∀ c ∈ before ++ after, c.isDigit = false) ∧ ∃ c ∈ before ++ after, c ∈ ['$', '€', '£']

variable {x y n : ℕ} {before after digits rest : List Char} {c : Char}

/-! ## The text -/

/-- The first group, and whether another one follows. -/
theorem grouped_split (n : ℕ) : ∃ g rest, g < 1000 ∧ grouped n = Nat.toDigits 10 g ++ rest ∧
    (n < 1000 ∧ g = n ∧ rest = [] ∨ 1000 ≤ n ∧ ∃ more, rest = ',' :: more) := by
  induction n using Nat.strong_induction_on with
  | _ n ih =>
      rw [grouped]
      split_ifs with hn
      · exact ⟨n, [], hn, (List.append_nil _).symm, .inl ⟨hn, rfl, rfl⟩⟩
      · obtain ⟨g, rest, hg, hrest, hcase⟩ := ih (n / 1000) (by omega)
        rw [hrest, List.append_assoc]
        refine ⟨g, _, hg, rfl, .inr ⟨by omega, ?_⟩⟩
        rcases hcase with ⟨-, -, rfl⟩ | ⟨-, more, rfl⟩
        · exact ⟨_, rfl⟩
        · exact ⟨_, rfl⟩

/-- The first number behind text without digits. -/
theorem firstNumber_eq (hbefore : ∀ c ∈ before, c.isDigit = false)
    (hdigits : ∀ c ∈ digits, c.isDigit = true) (hne : digits ≠ [])
    (hrest : ∀ c ∈ rest.head?, c.isDigit = false) :
    firstNumber (before ++ (digits ++ rest)) = some (digits, decimalDigits rest) := by
  have hskip : (before ++ (digits ++ rest)).dropWhile (fun c => !c.isDigit) = digits ++ rest := by
    obtain ⟨d, ds, rfl⟩ := List.exists_cons_of_ne_nil hne
    rw [List.dropWhile_append_of_pos fun c hc => by rw [hbefore c hc]; rfl, List.cons_append,
      List.dropWhile_cons_of_neg (by rw [hdigits d List.mem_cons_self]; decide)]
  have htake : (digits ++ rest).takeWhile Char.isDigit = digits := by
    rw [List.takeWhile_append_of_pos hdigits]
    cases rest with
    | nil => simp
    | cons c rest => 
        have hc : c.isDigit = false := hrest c rfl
        rw [List.takeWhile_cons_of_neg (by rw [hc]; decide), List.append_nil]
  have hdrop : (digits ++ rest).dropWhile Char.isDigit = rest := by
    rw [List.dropWhile_append_of_pos hdigits]
    cases rest with
    | nil => rfl
    | cons c rest =>
        have hc : c.isDigit = false := hrest c rfl
        exact List.dropWhile_cons_of_neg (by rw [hc]; decide)
  rw [firstNumber, hskip]
  split
  · rename_i hnil
    exact absurd (List.append_eq_nil_iff.mp hnil).1 hne
  · rw [htake, hdrop]

theorem toDigits_ne_nil (n : ℕ) : Nat.toDigits 10 n ≠ [] := by
  have hpos : 0 < (Nat.toDigits 10 n).length := Nat.length_toDigits_pos
  exact List.length_pos_iff.mp hpos

theorem toDigits_isDigit (hc : c ∈ Nat.toDigits 10 n) : c.isDigit = true :=
  Nat.isDigit_of_mem_toDigits (by decide) (by decide) hc

/-- Padding adds digits, and does not change the number. -/
theorem leftpad_digits (k n : ℕ) :
    (∀ c ∈ (Nat.toDigits 10 n).leftpad k '0', c.isDigit = true) ∧
      Nat.ofDigitChars 10 ((Nat.toDigits 10 n).leftpad k '0') 0 = n := by
  constructor
  · intro c hc
    rcases List.mem_append.mp hc with hc | hc
    · rw [List.eq_of_mem_replicate hc]
      decide
    · exact toDigits_isDigit hc
  · rw [List.leftpad, Nat.ofDigitChars_append, Nat.ofDigitChars_replicate_zero, Nat.mul_zero,
      Nat.ofDigitChars_ten_toDigits]

/-- Two decimals. -/
theorem centChars_length (x : ℕ) : ((Nat.toDigits 10 (x % 100)).leftpad 2 '0').length = 2 := by
  have htwo : ∀ n < 100, (Nat.toDigits 10 n).length ≤ 2 := by decide
  have hlen := htwo (x % 100) (Nat.mod_lt x (by decide))
  rw [List.length_leftpad]
  omega

theorem spaced_isDigit : (spaced c).isDigit = c.isDigit := by
  unfold spaced
  split_ifs with hc
  · rw [hc]
    decide
  · rfl

/-- Digits are no commas. -/
theorem map_spaced_digits (h : ∀ c ∈ digits, c.isDigit = true) : digits.map spaced = digits := by
  refine (List.map_congr_left fun c hc => ?_).trans (List.map_id digits)
  have hne : c ≠ ',' := by
    rintro rfl
    exact absurd (h ',' hc) (by decide)
  exact if_neg hne

/-! ## The number -/

/-- Text without digits has no decimals. -/
theorem decimalDigits_plain (h : ∀ c ∈ rest, c.isDigit = false) : decimalDigits rest = [] := by
  unfold decimalDigits
  split
  · rename_i behind
    cases behind with
    | nil => rfl
    | cons c behind =>
        have hc : c.isDigit = false := h c (List.mem_cons_of_mem _ List.mem_cons_self)
        rw [List.takeWhile_cons_of_neg (by rw [hc]; decide), List.take_nil]
  · rfl

/-- Two decimals before text without digits. -/
theorem decimalDigits_cents (h : ∀ c ∈ rest, c.isDigit = false) (x : ℕ) :
    decimalDigits (centChars x ++ rest) = (Nat.toDigits 10 (x % 100)).leftpad 2 '0' := by
  have hnone : rest.takeWhile Char.isDigit = [] := by
    cases rest with
    | nil => rfl
    | cons c rest =>
        have hc : c.isDigit = false := h c List.mem_cons_self
        exact List.takeWhile_cons_of_neg (by rw [hc]; decide)
  rw [centChars, List.cons_append, decimalDigits,
    List.takeWhile_append_of_pos (leftpad_digits 2 (x % 100)).1, hnone, List.append_nil]
  exact List.take_of_length_le (centChars_length x).le

/-- The amount from its units and cents. -/
theorem units_cents (x : ℕ) : ((x / 100 : ℕ) : ℚ) + ((x % 100 : ℕ) : ℚ) / 100 = x / 100 := by
  have hsplit : ((100 * (x / 100) + x % 100 : ℕ) : ℚ) = x := by rw [Nat.div_add_mod]
  push_cast at hsplit
  linarith

/-- The number that is read: the amount, or its first group alone. -/
theorem parse_price {text : String} (h : PriceText x text) :
    x < 100000 ∧ parsePriceNumber text = binary64 (x / 100) ∨
      100000 ≤ x ∧ ∃ g : ℕ, g < 1000 ∧ parsePriceNumber text = binary64 g := by
  obtain ⟨before, decimals, after, htext, hdecimals, hplain, -⟩ := h
  obtain ⟨g, groups, hg, hgrouped, hcase⟩ := grouped_split (x / 100)
  have hmapped : ∀ side : List Char, (∀ c ∈ side, c.isDigit = false) →
      ∀ c ∈ side.map spaced, c.isDigit = false := by
    intro side hside c hc
    obtain ⟨c', hc', rfl⟩ := List.mem_map.mp hc
    rw [spaced_isDigit]
    exact hside c' hc'
  have hbefore := hmapped before fun c hc => hplain c (List.mem_append_left after hc)
  have hafter := hmapped after fun c hc => hplain c (List.mem_append_right before hc)
  have hfirst : ∀ c ∈ Nat.toDigits 10 g, c.isDigit = true := fun c hc => toDigits_isDigit hc
  have hread : ∀ rest, (groups ++ (decimals ++ after)).map spaced = rest →
      (∀ c ∈ rest.head?, c.isDigit = false) →
      parsePriceNumber text = binary64 (decimalOf (Nat.toDigits 10 g) (decimalDigits rest)) := by
    intro rest hrest hhead
    have hshape : text.toList.map spaced = before.map spaced ++ (Nat.toDigits 10 g ++ rest) := by
      rw [htext, hgrouped, ← hrest]
      simp only [List.map_append, List.append_assoc, map_spaced_digits hfirst]
    rw [parsePriceNumber, hshape, firstNumber_eq hbefore hfirst (toDigits_ne_nil g) hhead,
      Option.bind_some]
  have hwhole : ∀ n : ℕ, decimalOf (Nat.toDigits 10 n) [] = n := by
    intro n
    simp [decimalOf, Nat.ofDigitChars_ten_toDigits]
  rcases hcase with ⟨hsmall, rfl, rfl⟩ | ⟨hlarge, more, rfl⟩
  · refine .inl ⟨by omega, ?_⟩
    rcases hdecimals with rfl | ⟨rfl, hcents⟩
    · have hdot : (([] : List Char) ++ (centChars x ++ after)).map spaced =
          centChars x ++ after.map spaced := by
        have hpad := map_spaced_digits (leftpad_digits 2 (x % 100)).1
        rw [List.nil_append, List.map_append, centChars, List.map_cons, hpad]
        rfl
      rw [hread _ hdot (by simp [centChars]), decimalDigits_cents hafter, decimalOf,
        (leftpad_digits 2 (x % 100)).2, centChars_length, Nat.ofDigitChars_ten_toDigits]
      norm_num [units_cents]
    · have hhead : ∀ c ∈ (after.map spaced).head?, c.isDigit = false :=
        fun c hc => hafter c (List.mem_of_head? hc)
      have hamount := units_cents x
      rw [hcents, Nat.cast_zero, zero_div, add_zero] at hamount
      rw [hread (after.map spaced) rfl hhead, decimalDigits_plain hafter, hwhole, hamount]
  · refine .inr ⟨by omega, g, hg, ?_⟩
    have hspace : (',' :: more ++ (decimals ++ after)).map spaced =
        ' ' :: (more ++ (decimals ++ after)).map spaced := rfl
    rw [hread _ hspace (by simp), ← hwhole g]
    rfl

/-! ## Rounding -/

/-- An amount in cents is zero or a normal number. -/
theorem cents_normal (x : ℕ) : (x : ℚ) / 100 = 0 ∨ (2 : ℚ) ^ (-1022 : ℤ) ≤ (x : ℚ) / 100 := by
  rcases Nat.eq_zero_or_pos x with rfl | hx
  · exact .inl (by norm_num)
  · right
    have hone : (1 : ℚ) ≤ x := by exact_mod_cast hx
    calc (2 : ℚ) ^ (-1022 : ℤ) ≤ 2 ^ (-7 : ℤ) := zpow_le_zpow_right₀ (by norm_num) (by decide)
      _ ≤ 1 / 100 := by norm_num
      _ ≤ (x : ℚ) / 100 := div_le_div_of_nonneg_right hone (by norm_num)

/-- A number below a million is rounded by less than a thousandth, and stays finite. -/
theorem rounded_small {q : ℚ} (hq : q = 0 ∨ (2 : ℚ) ^ (-1022 : ℤ) ≤ q) (hle : q ≤ 1000000) :
    binary64 q = some (roundedTo q) ∧ |roundedTo q - q| < 1 / 1000 := by
  have htop : (1000000 : ℚ) ≤ 2 ^ 1023 := by
    calc (1000000 : ℚ) ≤ 2 ^ 20 := by norm_num
      _ ≤ 2 ^ 1023 := pow_le_pow_right₀ (by norm_num) (by decide)
  refine ⟨binary64_of_le hq (hle.trans htop), lt_of_le_of_lt (abs_roundedTo hq) ?_⟩
  rw [div_lt_iff₀ (by norm_num)]
  norm_num
  linarith

/-- The order of rounded amounts. -/
theorem rounded_lt_iff (hx : x < 100000) (hy : y < 100000) :
    roundedTo ((x : ℚ) / 100) < roundedTo ((y : ℚ) / 100) ↔ x < y := by
  have hbound : ∀ z : ℕ, z < 100000 → |roundedTo ((z : ℚ) / 100) - (z : ℚ) / 100| < 1 / 1000 := by
    intro z hz
    have hz' : (z : ℚ) < 100000 := by exact_mod_cast hz
    exact (rounded_small (cents_normal z) (by linarith)).2
  have hstep : ∀ u v : ℕ, u < 100000 → v < 100000 → u < v →
      roundedTo ((u : ℚ) / 100) < roundedTo ((v : ℚ) / 100) := by
    intro u v hu hv huv
    have hu := abs_lt.mp (hbound u hu)
    have hv := abs_lt.mp (hbound v hv)
    have huv : (u : ℚ) + 1 ≤ v := by exact_mod_cast huv
    linarith
  constructor
  · intro hlt
    by_contra hle
    rcases Nat.lt_or_eq_of_le (Nat.le_of_not_lt hle) with hless | heq
    · exact absurd (hstep y x hy hx hless) hlt.le.not_gt
    · rw [heq] at hlt
      exact lt_irrefl _ hlt
  · exact hstep x y hx hy

/-- The first group is not the amount. -/
theorem group_ne_amount {g : ℕ} (hg : g < 1000) (hx : 100000 ≤ x) :
    binary64 g ≠ binary64 ((x : ℚ) / 100) := by
  have hg' : (g : ℚ) + 1 ≤ 1000 := by exact_mod_cast hg
  have hx' : (100000 : ℚ) ≤ x := by exact_mod_cast hx
  have hnormal : (g : ℚ) = 0 ∨ (2 : ℚ) ^ (-1022 : ℤ) ≤ g := by
    have hcents := cents_normal (100 * g)
    rwa [Nat.cast_mul, Nat.cast_ofNat, mul_div_cancel_left₀ _ (by norm_num)] at hcents
  obtain ⟨hgroup, herror⟩ := rounded_small hnormal (by linarith only [hg'])
  clear hnormal
  have herror := abs_lt.mp herror
  have hamount := abs_le.mp (abs_roundedTo (cents_normal x))
  intro heq
  rw [hgroup, binary64_eq] at heq
  split_ifs at heq
  have hsame := Option.some.inj heq
  have hsmall : (x : ℚ) / 100 / 2 ^ 53 ≤ (x : ℚ) / 100 / 1000000 :=
    div_le_div_of_nonneg_left (by positivity) (by norm_num) (by norm_num)
  linarith

/-! ## Prices -/

/-- The amount is read back just if it is below one thousand units, and the order of such amounts
is kept. -/
theorem prices_read_iff {text text' : String} (h : PriceText x text) (h' : PriceText y text') :
    (parsePriceNumber text = binary64 ((x : ℚ) / 100) ↔ x < 100000) ∧
      (x < 100000 → y < 100000 → ∃ a b, parsePriceNumber text = some a ∧
        parsePriceNumber text' = some b ∧ (a < b ↔ x < y)) := by
  constructor
  · rcases parse_price h with ⟨hsmall, hread⟩ | ⟨hlarge, g, hg, hread⟩
    · exact iff_of_true hread hsmall
    · refine iff_of_false ?_ (by omega)
      rw [hread]
      exact group_ne_amount hg hlarge
  · intro hx hy
    have hsmall : ∀ z : ℕ, z < 100000 → ∀ t, PriceText z t →
        parsePriceNumber t = some (roundedTo ((z : ℚ) / 100)) := by
      intro z hz t ht
      have hz' : (z : ℚ) < 100000 := by exact_mod_cast hz
      rcases parse_price ht with ⟨-, hread⟩ | ⟨hlarge, -⟩
      · exact hread.trans (rounded_small (cents_normal z) (by linarith)).1
      · omega
    exact ⟨_, _, hsmall x hx text h, hsmall y hy text' h', rounded_lt_iff hx hy⟩

theorem no_digits {s : List Char} (h : (s.all fun c => !c.isDigit) = true) :
    ∀ c ∈ s, c.isDigit = false := by
  intro c hc
  have hdigit := List.all_eq_true.mp h c hc
  rwa [Bool.not_eq_true'] at hdigit

theorem small_price : PriceText 1299 "Now only $12.99!" := by
  have hgrouped : grouped (1299 / 100) = "12".toList := by
    rw [grouped]
    decide
  refine ⟨"Now only $".toList, ".99".toList, "!".toList, ?_, .inl (by decide),
    no_digits (by decide), '$', by decide, by decide⟩
  rw [hgrouped]
  decide

theorem whole_price : PriceText 90000 "900 €" := by
  have hgrouped : grouped (90000 / 100) = "900".toList := by
    rw [grouped]
    decide
  refine ⟨[], [], " €".toList, ?_, .inr ⟨rfl, rfl⟩, no_digits (by decide), '€', by decide, by decide⟩
  rw [hgrouped]
  decide

theorem large_price : PriceText 129900 "$1,299.00" := by
  have hgrouped : grouped (129900 / 100) = "1,299".toList := by
    rw [grouped, grouped]
    decide
  refine ⟨"$".toList, ".00".toList, [], ?_, .inl (by decide), no_digits (by decide),
    '$', by decide, by decide⟩
  rw [hgrouped]
  decide

/-- Prices below one thousand are read back. -/
theorem prices_read : parsePriceNumber "Now only $12.99!" = binary64 (1299 / 100) ∧
    ∃ a b, parsePriceNumber "Now only $12.99!" = some a ∧ parsePriceNumber "900 €" = some b ∧
      a < b := by
  obtain ⟨hread, horder⟩ := prices_read_iff small_price whole_price
  obtain ⟨a, b, ha, hb, hlt⟩ := horder (by decide) (by decide)
  exact ⟨by exact_mod_cast hread.mpr (by decide), a, b, ha, hb, hlt.mpr (by decide)⟩

/-- A price of 1299 is read as 1, and is less than one of 12.99. -/
theorem large_price_misread : PriceText 129900 "$1,299.00" ∧
    PriceText 1299 "Now only $12.99!" ∧
    parsePriceNumber "$1,299.00" = binary64 1 ∧
    parsePriceNumber "$1,299.00" ≠ binary64 (129900 / 100) ∧
    ∃ a b, parsePriceNumber "$1,299.00" = some a ∧
      parsePriceNumber "Now only $12.99!" = some b ∧ a < b := by
  have hmatch : firstNumber ("$1,299.00".toList.map spaced) = some (['1'], []) := by decide
  have hone : decimalOf ['1'] [] = (100 : ℕ) / 100 := by
    have hdigit : Nat.ofDigitChars 10 ['1'] 0 = 1 := by decide
    rw [decimalOf, hdigit]
    norm_num
  have hread : parsePriceNumber "$1,299.00" = binary64 ((100 : ℕ) / 100) := by
    rw [parsePriceNumber, hmatch, Option.bind_some, hone]
  have hunit : ((100 : ℕ) : ℚ) / 100 = (1 : ℕ) := by norm_num
  have hother : parsePriceNumber "Now only $12.99!" = some (roundedTo ((1299 : ℕ) / 100)) := by
    rcases parse_price small_price with ⟨-, hsmall⟩ | ⟨hlarge, -⟩
    · exact hsmall.trans (rounded_small (cents_normal 1299) (by norm_num)).1
    · omega
  refine ⟨large_price, small_price, ?_, ?_, roundedTo ((100 : ℕ) / 100), _, ?_, hother, ?_⟩
  · rw [hread, hunit, Nat.cast_one]
  · rw [hread, hunit]
    exact_mod_cast group_ne_amount (by decide : 1 < 1000) (by decide : 100000 ≤ 129900)
  · exact hread.trans (rounded_small (cents_normal 100) (by norm_num)).1
  · exact (rounded_lt_iff (by decide) (by decide)).mpr (by decide)

end OpenUnion
