import Mathlib.NumberTheory.LucasPrimality
import Mathlib.Tactic.NormNum.Prime
import Mathlib.Tactic.ReduceModChar

/-!
# The order of secp256k1 is a prime

A chain of Lucas certificates: each prime comes with a primitive root and with the factors of
its predecessor.

* `prime_of_certificate`: a root and the prime factors of `p - 1` make `p` a prime.
* `prime_secp256k1Order`: the order of the group is a prime.
-/

namespace Ecdsa

/-- A root `a` whose order is `p - 1`, as its powers at the prime factors of `p - 1` show. -/
theorem prime_of_certificate {p : Nat} (a : ZMod p) (factors : List (Nat × Nat))
    (hprod : (factors.map fun f => f.1 ^ f.2).prod = p - 1) (hprime : ∀ f ∈ factors, f.1.Prime)
    (hone : a ^ (p - 1) = 1) (hroot : ∀ f ∈ factors, a ^ ((p - 1) / f.1) ≠ 1) : p.Prime := by
  refine lucas_primality p a hone fun q hq hdvd => ?_
  obtain ⟨power, hpower, hqpower⟩ := (hq.prime.dvd_prod_iff).mp (hprod ▸ hdvd)
  obtain ⟨f, hf, rfl⟩ := List.mem_map.mp hpower
  have hsame : q = f.1 :=
    (Nat.prime_dvd_prime_iff_eq hq (hprime f hf)).mp (hq.dvd_of_dvd_pow hqpower)
  exact hsame ▸ hroot f hf

theorem prime_297159362677 : Nat.Prime 297159362677 := by
  refine prime_of_certificate 2 [(2, 2), (3, 2), (11, 1), (461, 1), (1627771, 1)]
    (by norm_num) ?_ (by reduce_mod_char) ?_
  · simp only [List.forall_mem_cons, List.not_mem_nil, false_implies, implies_true, and_true]
    exact ⟨by norm_num, by norm_num, by norm_num, by norm_num, by norm_num⟩
  · simp only [List.forall_mem_cons, List.not_mem_nil, false_implies, implies_true, and_true]
    refine ⟨?_, ?_, ?_, ?_, ?_⟩ <;> · reduce_mod_char; decide

theorem prime_545358713 : Nat.Prime 545358713 := by
  refine prime_of_certificate 5 [(2, 3), (41, 1), (59, 1), (28181, 1)]
    (by norm_num) ?_ (by reduce_mod_char) ?_
  · simp only [List.forall_mem_cons, List.not_mem_nil, false_implies, implies_true, and_true]
    exact ⟨by norm_num, by norm_num, by norm_num, by norm_num⟩
  · simp only [List.forall_mem_cons, List.not_mem_nil, false_implies, implies_true, and_true]
    refine ⟨?_, ?_, ?_, ?_⟩ <;> · reduce_mod_char; decide

theorem prime_29047611873442575647497758179 : Nat.Prime 29047611873442575647497758179 := by
  refine prime_of_certificate 2 [(2, 1), (293, 1), (305873, 1), (545358713, 1), (297159362677, 1)]
    (by norm_num) ?_ (by reduce_mod_char) ?_
  · simp only [List.forall_mem_cons, List.not_mem_nil, false_implies, implies_true, and_true]
    exact ⟨by norm_num, by norm_num, by norm_num, prime_545358713, prime_297159362677⟩
  · simp only [List.forall_mem_cons, List.not_mem_nil, false_implies, implies_true, and_true]
    refine ⟨?_, ?_, ?_, ?_, ?_⟩ <;> · reduce_mod_char; decide

theorem prime_341948486974166000522343609283189 : Nat.Prime 341948486974166000522343609283189 := by
  refine prime_of_certificate 2 [(2, 2), (3, 3), (109, 1), (29047611873442575647497758179, 1)]
    (by norm_num) ?_ (by reduce_mod_char) ?_
  · simp only [List.forall_mem_cons, List.not_mem_nil, false_implies, implies_true, and_true]
    exact ⟨by norm_num, by norm_num, by norm_num, prime_29047611873442575647497758179⟩
  · simp only [List.forall_mem_cons, List.not_mem_nil, false_implies, implies_true, and_true]
    refine ⟨?_, ?_, ?_, ?_⟩ <;> · reduce_mod_char; decide

theorem prime_107361793816595537 : Nat.Prime 107361793816595537 := by
  refine prime_of_certificate 3 [(2, 4), (16699, 1), (85831, 1), (4681609, 1)]
    (by norm_num) ?_ (by reduce_mod_char) ?_
  · simp only [List.forall_mem_cons, List.not_mem_nil, false_implies, implies_true, and_true]
    exact ⟨by norm_num, by norm_num, by norm_num, by norm_num⟩
  · simp only [List.forall_mem_cons, List.not_mem_nil, false_implies, implies_true, and_true]
    refine ⟨?_, ?_, ?_, ?_⟩ <;> · reduce_mod_char; decide

theorem prime_174723607534414371449 : Nat.Prime 174723607534414371449 := by
  refine prime_of_certificate 3 [(2, 3), (17, 1), (59, 1), (4051, 1), (120233, 1), (44706919, 1)]
    (by norm_num) ?_ (by reduce_mod_char) ?_
  · simp only [List.forall_mem_cons, List.not_mem_nil, false_implies, implies_true, and_true]
    exact ⟨by norm_num, by norm_num, by norm_num, by norm_num, by norm_num, by norm_num⟩
  · simp only [List.forall_mem_cons, List.not_mem_nil, false_implies, implies_true, and_true]
    refine ⟨?_, ?_, ?_, ?_, ?_, ?_⟩ <;> · reduce_mod_char; decide

theorem prime_secp256k1Order : Nat.Prime
    0xFFFFFFFFFFFFFFFFFFFFFFFFFFFFFFFEBAAEDCE6AF48A03BBFD25E8CD0364141 := by
  refine prime_of_certificate 7
    [(2, 6), (3, 1), (149, 1), (631, 1), (107361793816595537, 1), (174723607534414371449, 1),
     (341948486974166000522343609283189, 1)]
    (by norm_num) ?_ (by reduce_mod_char) ?_
  · simp only [List.forall_mem_cons, List.not_mem_nil, false_implies, implies_true, and_true]
    exact ⟨by norm_num, by norm_num, by norm_num, by norm_num, prime_107361793816595537,
      prime_174723607534414371449, prime_341948486974166000522343609283189⟩
  · simp only [List.forall_mem_cons, List.not_mem_nil, false_implies, implies_true, and_true]
    refine ⟨?_, ?_, ?_, ?_, ?_, ?_, ?_⟩ <;> · reduce_mod_char; decide

end Ecdsa
