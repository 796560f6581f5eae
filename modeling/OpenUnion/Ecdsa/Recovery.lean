import Mathlib.Data.ZMod.Basic
import Mathlib.Algebra.Module.Basic

/-!
# Recovering the key of an ECDSA signature

The group of a curve over the scalars modulo its order, as key recovery sees it: a base point,
and the points with a given x-coordinate, told apart by the parity of y.

* `recover_sub`: the signature with `n - s` in place of `s` and the other parity recovers the
  same key.
* `recover_none_iff`: a point that exists recovers no key when `s • R = z • G`.
-/

namespace Ecdsa

variable {n : Nat} {P : Type*} [AddCommGroup P] [Module (ZMod n) P]

/-- A curve whose points have order `n`. -/
structure Curve (n : Nat) (P : Type*) [AddCommGroup P] [Module (ZMod n) P] where
  base : P
  /-- The point with this x-coordinate and an odd or an even y. -/
  lift : Nat → Bool → Option P
  /-- A point and its negative share x and differ in the parity of y. -/
  lift_not : ∀ r odd, lift r (!odd) = (lift r odd).map Neg.neg

variable [DecidableEq P]

/-- The key that the digest `z` and the signature `(r, s)` belong to; the point at infinity is
no key. -/
def Curve.recover (c : Curve n P) (z r s : Nat) (odd : Bool) : Option P :=
  (c.lift r odd).bind fun R =>
    let key := (r : ZMod n)⁻¹ • ((s : ZMod n) • R - (z : ZMod n) • c.base)
    if key = 0 then none else some key

/-- Negating `s` and flipping the parity. -/
theorem Curve.recover_sub (c : Curve n P) {z r s : Nat} (hs : s ≤ n) (odd : Bool) :
    c.recover z r (n - s) (!odd) = c.recover z r s odd := by
  have hneg : ((n - s : Nat) : ZMod n) = -(s : ZMod n) := by
    rw [Nat.cast_sub hs, ZMod.natCast_self, zero_sub]
  unfold recover
  rw [c.lift_not, Option.bind_map]
  congr 1
  funext R
  simp only [Function.comp_apply, hneg, neg_smul, smul_neg, neg_neg]

/-- When a point with an invertible x-coordinate recovers no key. -/
theorem Curve.recover_none_iff (c : Curve n P) {z r s : Nat} {odd : Bool} {R : P}
    (hr : r.Coprime n) (hlift : c.lift r odd = some R) :
    c.recover z r s odd = none ↔ (s : ZMod n) • R = (z : ZMod n) • c.base := by
  have hunit : (r : ZMod n) * (r : ZMod n)⁻¹ = 1 := ZMod.coe_mul_inv_eq_one r hr
  have hzero : ∀ p : P, (r : ZMod n)⁻¹ • p = 0 ↔ p = 0 := by
    intro p
    constructor
    · intro h
      have hback := congrArg ((r : ZMod n) • ·) h
      simpa only [smul_smul, hunit, one_smul, smul_zero] using hback
    · rintro rfl
      exact smul_zero _
  simp only [recover, hlift, Option.bind_some, hzero, sub_eq_zero, ite_eq_left_iff, reduceCtorEq,
    imp_false, not_not]

end Ecdsa
