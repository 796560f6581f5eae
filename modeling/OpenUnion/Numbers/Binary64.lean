import Mathlib.Algebra.Order.Floor.Ring
import Mathlib.Data.Int.Log
import Mathlib.Data.Rat.Floor
import Mathlib.Tactic.Linarith
import Mathlib.Tactic.Positivity
import Mathlib.Tactic.Ring

/-!
# Numbers of double precision

A rational number is rounded to a multiple of the unit in its last place, of two equally near ones
to the even one, and becomes infinite beyond the greatest finite number.

* `abs_roundHalfEven`: rounding to an integer is off by one half at most.
* `binary64_error`: the relative error is `2 ^ -53` at most, from the least normal number on.
* `binary64_isSome`: numbers that are not too great are finite.
-/

namespace OpenUnion.Numbers

variable {q d : ℚ}

/-- The nearest integer, of two the even one. -/
def roundHalfEven (q : ℚ) : ℤ :=
  let below := ⌊q⌋
  if q - below < 1 / 2 then below
  else if 1 / 2 < q - below then below + 1
  else if Even below then below
  else below + 1

/-- The exponent of the unit in the last place. -/
def unitExponent (q : ℚ) : ℤ := max (Int.log 2 |q|) (-1022) - 52

/-- The nearest number of double precision; `none` is infinite. -/
def binary64 (q : ℚ) : Option ℚ :=
  let unit : ℚ := 2 ^ unitExponent q
  let rounded := roundHalfEven (q / unit) * unit
  if |rounded| < 2 ^ 1024 then some rounded else none

/-- Rounding to an integer is off by one half at most. -/
theorem abs_roundHalfEven (q : ℚ) : |(roundHalfEven q : ℚ) - q| ≤ 1 / 2 := by
  have hlow := Int.floor_le q
  have hhigh := Int.lt_floor_add_one q
  simp only [roundHalfEven]
  rw [abs_le]
  split_ifs <;> push_cast <;> constructor <;> linarith

/-- The unit in the last place of a normal number. -/
theorem unit_le (hq : (2 : ℚ) ^ (-1022 : ℤ) ≤ q) : (2 : ℚ) ^ unitExponent q ≤ q / 2 ^ 52 := by
  have hpos : 0 < q := lt_of_lt_of_le (zpow_pos (by decide) _) hq
  have habs : |q| = q := abs_of_pos hpos
  have hlog : (2 : ℚ) ^ Int.log 2 q ≤ q := by
    exact_mod_cast Int.zpow_log_le_self (b := 2) (by decide) hpos
  have hnormal : max (Int.log 2 q) (-1022) = Int.log 2 q := by
    refine max_eq_left ?_
    exact (Int.zpow_le_iff_le_log (b := 2) (by decide) hpos).mp (by exact_mod_cast hq)
  rw [unitExponent, habs, hnormal, zpow_sub₀ (by decide)]
  have h52 : (2 : ℚ) ^ (52 : ℤ) = 2 ^ 52 := by norm_cast
  rw [h52]
  exact div_le_div_of_nonneg_right hlog (by positivity)

/-- What a number is rounded to, before it is found to be finite. -/
def roundedTo (q : ℚ) : ℚ := roundHalfEven (q / 2 ^ unitExponent q) * 2 ^ unitExponent q

theorem binary64_eq (q : ℚ) :
    binary64 q = if |roundedTo q| < 2 ^ 1024 then some (roundedTo q) else none := rfl

/-- The relative error, `2 ^ -53` at most. -/
theorem abs_roundedTo (hq : q = 0 ∨ (2 : ℚ) ^ (-1022 : ℤ) ≤ q) :
    |roundedTo q - q| ≤ q / 2 ^ 53 := by
  rcases hq with rfl | hq
  · have hzero : roundHalfEven 0 = 0 := by
      rw [roundHalfEven]
      norm_num
    simp [roundedTo, hzero]
  · have hunit : (0 : ℚ) < 2 ^ unitExponent q := zpow_pos (by decide) _
    have hround := abs_roundHalfEven (q / 2 ^ unitExponent q)
    calc |roundedTo q - q|
        = |((roundHalfEven (q / 2 ^ unitExponent q) : ℚ) - q / 2 ^ unitExponent q) *
            2 ^ unitExponent q| := by
          rw [sub_mul, div_mul_cancel₀ q hunit.ne', roundedTo]
      _ = |(roundHalfEven (q / 2 ^ unitExponent q) : ℚ) - q / 2 ^ unitExponent q| *
            2 ^ unitExponent q := by rw [abs_mul, abs_of_pos hunit]
      _ ≤ 1 / 2 * (q / 2 ^ 52) :=
          mul_le_mul hround (unit_le hq) hunit.le (by norm_num)
      _ = q / 2 ^ 53 := by ring

/-- A number is finite if it is not too great. -/
theorem binary64_of_le (hq : q = 0 ∨ (2 : ℚ) ^ (-1022 : ℤ) ≤ q) (hle : q ≤ 2 ^ 1023) :
    binary64 q = some (roundedTo q) := by
  have hpos : 0 ≤ q := by
    rcases hq with rfl | hq
    · exact le_refl 0
    · exact (zpow_pos (by decide) _).le.trans hq
  have herror := abs_le.mp (abs_roundedTo hq)
  have hsmall : q / 2 ^ 53 ≤ q / 2 := div_le_div_of_nonneg_left hpos (by norm_num) (by norm_num)
  have hdouble : (2 : ℚ) ^ 1024 = 2 * 2 ^ 1023 := pow_succ' 2 1023
  have hbig : (0 : ℚ) < 2 ^ 1023 := pow_pos (by norm_num) 1023
  rw [binary64_eq, if_pos]
  rw [hdouble]
  generalize (2 : ℚ) ^ 1023 = top at hle hbig
  rw [abs_lt]
  constructor
  · linarith
  · linarith

end OpenUnion.Numbers
