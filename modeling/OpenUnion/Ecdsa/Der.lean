import Mathlib.Data.Nat.Digits.Lemmas
import OpenUnion.Abi.Words

/-!
# The DER form of a signature

A signature as ASN.1 writes it: a SEQUENCE of two INTEGERs in the fewest bytes. Elements are
below 128 bytes long, so that each length is a byte of its own.

* `value_integer`: the contents of an INTEGER denote the number.
* `integer_length`: a number below `2 ^ 256` takes one to 33 bytes.
-/

namespace Der

variable {v k : Nat} {bs : List UInt8}

/-- The number that bytes denote, the most significant one first. -/
def value (bs : List UInt8) : Nat := Abi.ofBigEndian 256 (bs.map UInt8.toNat)

/-- The bytes of a number, without leading zeros. -/
def bytes (v : Nat) : List UInt8 := (Nat.digits 256 v).reverse.map UInt8.ofNat

/-- The contents of an INTEGER: a zero goes before a byte whose top bit is set, since the number
would be negative without it. -/
def integer (v : Nat) : List UInt8 :=
  match bytes v with
  | [] => [0]
  | b :: bs => if 0x80 ≤ b then 0 :: b :: bs else b :: bs

/-- An element: its tag, the length of its contents, and the contents. -/
def element (tag : UInt8) (contents : List UInt8) : List UInt8 :=
  tag :: UInt8.ofNat contents.length :: contents

/-- The SEQUENCE of the INTEGERs `r` and `s`. -/
def signature (r s : Nat) : List UInt8 :=
  element 0x30 (element 0x02 (integer r) ++ element 0x02 (integer s))

theorem value_bytes (v : Nat) : value (bytes v) = v := by
  have hbytes : (bytes v).map UInt8.toNat = (Nat.digits 256 v).reverse := by
    have hsame : ∀ d ∈ (Nat.digits 256 v).reverse, (UInt8.toNat ∘ UInt8.ofNat) d = d := by
      intro d hd
      have hlt : d < 256 := Nat.digits_lt_base (by decide) (List.mem_reverse.mp hd)
      simp [Nat.mod_eq_of_lt hlt]
    rw [bytes, List.map_map, List.map_congr_left hsame, List.map_id']
  rw [value, hbytes, Abi.ofBigEndian, List.reverse_reverse, Nat.ofDigits_digits]

theorem bytes_length (h : v < 256 ^ k) : (bytes v).length ≤ k := by
  simpa [bytes] using (Nat.digits_length_le_iff (by decide) v).mpr h

theorem value_zero_cons (bs : List UInt8) : value (0 :: bs) = value bs := by
  simpa [value] using Abi.ofBigEndian_zeros 256 1 (bs.map UInt8.toNat)

/-- The contents of an INTEGER denote the number. -/
theorem value_integer (v : Nat) : value (integer v) = v := by
  have hv := value_bytes v
  unfold integer
  split
  next hnil =>
    rw [hnil] at hv
    exact (value_zero_cons []).trans hv
  next b bs hcons =>
    rw [hcons] at hv
    split_ifs
    · exact (value_zero_cons _).trans hv
    · exact hv

/-- A number of `k` bytes takes at most one byte more. -/
theorem integer_length (h : v < 256 ^ k) :
    1 ≤ (integer v).length ∧ (integer v).length ≤ k + 1 := by
  have hlen := bytes_length h
  unfold integer
  split
  next => simp
  next b bs hcons =>
    rw [hcons, List.length_cons] at hlen
    split_ifs <;> simp only [List.length_cons] <;> omega

end Der
