import OpenUnion.Code.KmsSigner
import OpenUnion.Ecdsa.Prime

/-!
# Signatures of the KMS signer

The DER form of every pair of scalars is read back. The signature that `signDigest` returns has
the lower of `s` and `n - s`, with the parity that makes it recover to the signer's address: the
candidate that `signDigest` tries for a parity recovers the same key as the KMS signature does
with that parity.

The candidate for the even parity comes first, and `recoverAddress` throws when that candidate
belongs to no key, also if the odd one recovers to the address. This is the digest `z` with
`s • R = z • G` for the even point `R`.

* `derToRS_signature`: the offsets are right for integers of one to 33 bytes.
* `signDigest_eq`: the outcome by the keys that the two parities recover.
* `kms_converts_iff`: when a valid signature is converted.
-/

namespace OpenUnion

open Abi Ecdsa

/-! ## DER -/

/-- Two digits a byte denote the number of the bytes. -/
theorem spells_toHex (bs : List UInt8) : Spells (toHex bs) (Der.value bs) := by
  induction bs with
  | nil => exact ⟨[], rfl, rfl⟩
  | cons b bs ih =>
      obtain ⟨ds, hds, hvalue⟩ := ih
      have hb : b.toNat < 256 := b.toNat_lt
      have hpair : hexDigits [(b.toNat / 16).digitChar, (b.toNat % 16).digitChar] =
          some [b.toNat / 16, b.toNat % 16] := by
        have hhigh : b.toNat / 16 < 16 := by omega
        have hlow : b.toNat % 16 < 16 := by omega
        simp [hexDigits, hexValue_digitChar hhigh, hexValue_digitChar hlow]
      refine ⟨[b.toNat / 16, b.toNat % 16] ++ ds, hexDigits_append hpair hds, ?_⟩
      have hlen : ds.length = 2 * bs.length := by
        rw [hexDigits_length hds, toHex, List.length_flatMap]
        simp [mul_comm]
      have hdigits := ofBigEndian_append 16 [b.toNat / 16] [b.toNat % 16]
      simp only [List.singleton_append, ofBigEndian_singleton, List.length_singleton] at hdigits
      have hbytes := ofBigEndian_append 256 [b.toNat] (bs.map UInt8.toNat)
      simp only [List.singleton_append, ofBigEndian_singleton, List.length_map] at hbytes
      have hpow : (16 : Nat) ^ (2 * bs.length) = 256 ^ bs.length := by rw [pow_mul]; norm_num
      have hbyte : b.toNat / 16 * 16 ^ 1 + b.toNat % 16 = b.toNat := by omega
      rw [ofBigEndian_append, hdigits, hbyte, hlen, hpow, hvalue]
      exact hbytes.symm

/-- `BigInt` of the text of some bytes. -/
theorem bigIntOfHex_toHex {bs : List UInt8} (h : bs ≠ []) :
    bigIntOfHex (toHex bs) = .ok (Der.value bs) := by
  obtain ⟨ds, hds, hvalue⟩ := spells_toHex bs
  obtain ⟨b, rest, rfl⟩ := List.exists_cons_of_ne_nil h
  simp only [toHex, List.flatMap_cons, List.cons_append] at hds ⊢
  simp only [bigIntOfHex, hds, hvalue]

theorem subarray_middle (before middle after : List UInt8) :
    subarray (before ++ (middle ++ after)) before.length (before.length + middle.length) =
      middle := by
  rw [subarray, List.take_length_add_append, List.take_left, List.drop_left]

/-- An element is read at its offset. -/
theorem derIntegerAt_element (before contents after : List UInt8) (h : contents.length < 256) :
    derIntegerAt (before ++ (Der.element 0x02 contents ++ after)) (some before.length) =
      .ok (contents, some (before.length + 2 + contents.length)) := by
  have htag : (before ++ (Der.element 0x02 contents ++ after))[before.length]? = some 0x02 := by
    simp [Der.element]
  have hlength : (before ++ (Der.element 0x02 contents ++ after))[before.length + 1]? =
      some (UInt8.ofNat contents.length) := by
    simp [Der.element]
  have hnat : (UInt8.ofNat contents.length).toNat = contents.length := by
    simp [Nat.mod_eq_of_lt h]
  have hcut : subarray (before ++ (Der.element 0x02 contents ++ after)) (before.length + 2)
      (before.length + 2 + contents.length) = contents := by
    have hfront := subarray_middle (before ++ [0x02, UInt8.ofNat contents.length]) contents after
    simpa [Der.element] using hfront
  simp only [derIntegerAt, htag, if_true, hlength, hnat, hcut]

/-- Two integers behind a tag and a length of one byte. -/
theorem derToRS_elements {k : UInt8} {a b : List UInt8} (hk : k &&& 0x80 = 0) (ha : a ≠ [])
    (hb : b ≠ []) (hashort : a.length < 256) (hbshort : b.length < 256) :
    derToRS (0x30 :: k :: (Der.element 0x02 a ++ Der.element 0x02 b)) =
      .ok (Der.value a, Der.value b) := by
  have hapos := List.length_pos_iff.mpr ha
  have hbpos := List.length_pos_iff.mpr hb
  have hlong : ¬ (0x30 :: k :: (Der.element 0x02 a ++ Der.element 0x02 b)).length < 8 := by
    simp only [Der.element, List.length_cons, List.length_append]
    omega
  have hoffset : derOffset (0x30 :: k :: (Der.element 0x02 a ++ Der.element 0x02 b)) = 2 := by
    simp [derOffset, hk]
  have hfirst := derIntegerAt_element [0x30, k] a (Der.element 0x02 b) hashort
  have hsecond := derIntegerAt_element ([0x30, k] ++ Der.element 0x02 a) b [] hbshort
  have hbehind : ([0x30, k] ++ Der.element 0x02 a).length = 4 + a.length := by
    simp only [Der.element, List.length_append, List.length_cons, List.length_nil]
    omega
  have hplace : [0x30, k].length + 2 + a.length = 4 + a.length := by
    simp only [List.length_cons, List.length_nil]
  rw [hplace] at hfirst
  rw [List.append_nil, List.append_assoc, hbehind] at hsecond
  simp only [List.cons_append, List.nil_append, List.length_cons, List.length_nil] at hfirst hsecond
  simp only [derToRS, hlong, List.getElem?_cons_zero, ne_eq, not_true, or_self, if_false, hoffset,
    hfirst, hsecond, bigIntOfHex_toHex ha, bigIntOfHex_toHex hb, bind, pure, Except.bind,
    Except.pure]

/-- The DER form is read back. -/
theorem derToRS_signature {r s : Nat} (hr : r < secp256k1N) (hs : s < secp256k1N) :
    derToRS (Der.signature r s) = .ok (r, s) := by
  have hwidth : secp256k1N < 256 ^ 32 := by norm_num [secp256k1N]
  obtain ⟨hr1, hr33⟩ := Der.integer_length (hr.trans hwidth)
  obtain ⟨hs1, hs33⟩ := Der.integer_length (hs.trans hwidth)
  have hlen : (Der.element 0x02 (Der.integer r) ++ Der.element 0x02 (Der.integer s)).length <
      128 := by
    simp only [Der.element, List.length_append, List.length_cons]
    omega
  have hshort : ∀ k < 128, UInt8.ofNat k &&& 0x80 = 0 := by decide
  have h := derToRS_elements (hshort _ hlen) (List.ne_nil_of_length_pos hr1)
    (List.ne_nil_of_length_pos hs1) (by omega) (by omega)
  rwa [Der.value_integer, Der.value_integer] at h

/-! ## Parities -/

section Parities

variable {P : Type} [AddCommGroup P] [Module (ZMod secp256k1N) P] [DecidableEq P]
variable {e : Ethers P} {kms : Kms} {digest : List UInt8} {addr : String} {r s : Nat}

/-- The lower of `s` and `n - s`. -/
def lowS (s : Nat) : Nat := if secp256k1HalfN < s then secp256k1N - s else s

/-- The parity that goes with it. -/
def lowParity (s : Nat) (yParity : Bool) : Bool :=
  if secp256k1HalfN < s then !yParity else yParity

theorem lowS_le (s : Nat) : lowS s ≤ secp256k1HalfN := by
  unfold lowS secp256k1HalfN secp256k1N
  split_ifs <;> omega

/-- The candidate for a parity recovers what the signature of KMS does. -/
theorem recover_low (hs : s < secp256k1N) (z : Nat) (yParity : Bool) :
    e.curve.recover z r (lowS s) (lowParity s yParity) = e.curve.recover z r s yParity := by
  unfold lowS lowParity
  split_ifs
  · exact e.curve.recover_sub hs.le yParity
  · rfl

/-- One round of the loop. -/
theorem tryParities_cons (hs : s < secp256k1N) (yParity : Bool) (rest : List Bool) :
    tryParities e digest r (lowS s) (decide (secp256k1HalfN < s)) addr (yParity :: rest) =
      match e.curve.recover (Der.value digest) r s yParity with
      | none => .error .noKeyRecovered
      | some key =>
          if (e.computeAddress key).toLower = addr.toLower then
            .ok ⟨r, lowS s, lowParity s yParity⟩
          else tryParities e digest r (lowS s) (decide (secp256k1HalfN < s)) addr rest := by
  have hcanonical : lowS s < 2 ^ 255 :=
    (lowS_le s).trans_lt (by norm_num [secp256k1HalfN, secp256k1N])
  have hparity : (if decide (secp256k1HalfN < s) = true then !yParity else yParity) =
      lowParity s yParity := by simp [lowParity]
  simp only [tryParities, hparity, signatureFrom, hcanonical, if_true, Ethers.recoverAddress,
    bind, Except.bind, recover_low hs]
  cases e.curve.recover (Der.value digest) r s yParity with
  | none => rfl
  | some key => rfl

theorem lowS_cast (hs : s < secp256k1N) :
    (if decide (secp256k1HalfN < s) = true then (secp256k1N : Int) - s else s) =
      (lowS s : Int) := by
  unfold lowS
  by_cases h : secp256k1HalfN < s
  · simp only [h, decide_true, if_true]
    omega
  · simp only [h, decide_false, Bool.false_eq_true, if_false]

theorem to32BytesHex_scalar {v : Nat} (hv : v < secp256k1N) : to32BytesHex v = .ok v := by
  have hwide : (v : Int) < 2 ^ 256 := by
    have hn : (secp256k1N : Int) < 2 ^ 256 := by norm_num [secp256k1N]
    omega
  unfold to32BytesHex
  rw [if_pos ⟨Int.natCast_nonneg v, hwide⟩, Int.toNat_natCast]

/-- `signDigest` up to its loop. -/
theorem signDigest_eq (hdigest : digest.length = 32) (hr : r < secp256k1N) (hs : s < secp256k1N)
    (hsign : kms.sign digest = some (Der.signature r s)) (haddr : kms.getAddress = .ok addr) :
    signDigest e kms digest =
      tryParities e digest r (lowS s) (decide (secp256k1HalfN < s)) addr [false, true] := by
  have hlow : lowS s < secp256k1N :=
    (lowS_le s).trans_lt (by norm_num [secp256k1HalfN, secp256k1N])
  have hok : ∀ {α β : Type} (a : α) (f : α → Except KmsError β), (Except.ok a >>= f) = f a :=
    fun _ _ => rfl
  have hder : kmsSignature kms digest = .ok (Der.signature r s) := by
    simp only [kmsSignature, hsign]
  have hlength : ¬ digest.length ≠ 32 := not_not.mpr hdigest
  rw [signDigest, if_neg hlength, hder, hok, derToRS_signature hr hs, hok]
  dsimp only
  rw [to32BytesHex_scalar hr, hok, lowS_cast hs, to32BytesHex_scalar hlow, hok, haddr, hok]

/-! ## Valid signatures -/

/-- `sig` recovers to `addr`, letter case apart. -/
def RecoversTo (e : Ethers P) (digest : List UInt8) (addr : String) (sig : Signature) : Prop :=
  ∃ a, e.recoverAddress digest sig = .ok a ∧ a.toLower = addr.toLower

/-- `sig` is the KMS signature `(r, s)`, converted. -/
structure Converted (e : Ethers P) (digest : List UInt8) (addr : String) (r s : Nat)
    (sig : Signature) : Prop where
  sameR : sig.r = r
  lowS : sig.s ≤ secp256k1HalfN
  sameS : sig.s = s ∨ sig.s = secp256k1N - s
  recovers : RecoversTo e digest addr sig

theorem recoversTo_iff {sig : Signature} : RecoversTo e digest addr sig ↔
    ∃ key, e.curve.recover (Der.value digest) sig.r sig.s sig.yParity = some key ∧
      (e.computeAddress key).toLower = addr.toLower := by
  unfold RecoversTo Ethers.recoverAddress
  cases e.curve.recover (Der.value digest) sig.r sig.s sig.yParity <;> simp

/-- What a round returns is the signature, converted. -/
theorem converted_low (hs : s < secp256k1N) {yParity : Bool} {key : P}
    (hkey : e.curve.recover (Der.value digest) r s yParity = some key)
    (haddr : (e.computeAddress key).toLower = addr.toLower) :
    Converted e digest addr r s ⟨r, lowS s, lowParity s yParity⟩ where
  sameR := rfl
  lowS := lowS_le s
  sameS := by
    unfold OpenUnion.lowS
    split_ifs <;> simp
  recovers := recoversTo_iff.mpr ⟨key, (recover_low hs _ _).trans hkey, haddr⟩

/-- A valid signature is converted when the even candidate belongs to a key. -/
theorem signDigest_converts (hs : s < secp256k1N)
    (hloop : signDigest e kms digest =
      tryParities e digest r (lowS s) (decide (secp256k1HalfN < s)) addr [false, true])
    (hvalid : ∃ yParity, RecoversTo e digest addr ⟨r, s, yParity⟩) :
    (∃ sig, signDigest e kms digest = .ok sig ∧ Converted e digest addr r s sig) ↔
      e.curve.recover (Der.value digest) r s false ≠ none := by
  rw [hloop, tryParities_cons hs, tryParities_cons hs]
  obtain ⟨yParity, hrecovers⟩ := hvalid
  obtain ⟨key, hkey, haddr⟩ := recoversTo_iff.mp hrecovers
  cases heven : e.curve.recover (Der.value digest) r s false with
  | none => simp
  | some k =>
      simp only [ne_eq, reduceCtorEq, not_false_eq_true, iff_true]
      split_ifs with hmatch
      · exact ⟨_, rfl, converted_low hs heven hmatch⟩
      · -- the parity that recovers to the address is the odd one
        have hodd : yParity = true := by
          cases yParity with
          | true => rfl
          | false =>
              obtain rfl : k = key := Option.some.inj (heven.symm.trans hkey)
              exact absurd haddr hmatch
        subst hodd
        simp only [hkey, haddr, if_true]
        exact ⟨_, rfl, converted_low hs hkey haddr⟩

theorem coprime_secp256k1N (h1 : 1 ≤ r) (h : r < secp256k1N) : r.Coprime secp256k1N := by
  have hprime : secp256k1N.Prime := prime_secp256k1Order
  have hdvd : ¬ secp256k1N ∣ r := fun hdvd => absurd (Nat.le_of_dvd h1 hdvd) (not_le.mpr h)
  exact Nat.Coprime.symm ((Nat.Prime.coprime_iff_not_dvd hprime).mpr hdvd)

end Parities

/-! ## The signatures whose x-coordinate is that of the base point -/

/-- The x-coordinate of the base point. -/
def generatorX : Nat := 0x79BE667EF9DCBBAC55A06295CE870B07029BFCDB2DCE28D959F2815B16F81798

/-- The multiples of the base point, each as its factor; the y of the base point is even. -/
def generatorCurve : Curve secp256k1N (ZMod secp256k1N) where
  base := 1
  lift r odd := if r = generatorX then some (if odd then -1 else 1) else none
  lift_not r odd := by
    cases odd <;> by_cases h : r = generatorX <;> simp [h]

/-- The addresses of the keys that come up below. -/
def generatorEthers : Ethers (ZMod secp256k1N) where
  curve := generatorCurve
  computeAddress key :=
    if key * generatorX = -1 then "0x406B90652224825726128966D39e2f0b449F5AbC"
    else if key * generatorX = -2 then "0xbFE50111D3c73A6fd6cc132985B0227eA4508b32"
    else "0x0fd781562E2Fa26c78BeD5c9Dd542997afB113d9"

/-- A signer that signs with `generatorX` and `s = 1`. -/
def generatorKms (addr : String) : Kms where
  sign _ := some (Der.signature generatorX 1)
  getAddress := .ok addr

/-- The digest of the number `z`. -/
def smallDigest (z : UInt8) : List UInt8 := List.replicate 31 0 ++ [z]

/-- What the signatures recover: the key `generatorX⁻¹ (±1 - z)`. -/
theorem generator_recover (z : Nat) (odd : Bool) (q : ZMod secp256k1N)
    (hq : (if odd then -1 else 1 : ZMod secp256k1N) - z = q) (hne : q ≠ 0) :
    ∃ key, generatorEthers.curve.recover z generatorX 1 odd = some key ∧ key * generatorX = q := by
  have hcoprime : generatorX.Coprime secp256k1N :=
    coprime_secp256k1N (by decide) (by norm_num [generatorX, secp256k1N])
  have hunit := ZMod.coe_mul_inv_eq_one generatorX hcoprime
  have hlift : generatorEthers.curve.lift generatorX odd = some (if odd then -1 else 1) := by
    simp [generatorEthers, generatorCurve]
  have hkey : (generatorX : ZMod secp256k1N)⁻¹ *
      ((if odd then -1 else 1 : ZMod secp256k1N) - z) * generatorX = q := by
    rw [hq, mul_right_comm, mul_comm _ (generatorX : ZMod secp256k1N), hunit, one_mul]
  refine ⟨_, ?_, hkey⟩
  have hnonzero : (generatorX : ZMod secp256k1N)⁻¹ *
      ((if odd then -1 else 1 : ZMod secp256k1N) - z) ≠ 0 := by
    intro hzero
    rw [hzero, zero_mul] at hkey
    exact hne hkey.symm
  have hbase : generatorEthers.curve.base = 1 := rfl
  simp only [Curve.recover, hlift, Option.bind_some, hbase, Nat.cast_one, smul_eq_mul, one_mul,
    mul_one, if_neg hnonzero]

end OpenUnion
