import OpenUnion.Ecdsa.Der
import OpenUnion.Ecdsa.Recovery

/-!
# The KMS signer

`derToRS` reads the two integers of a DER signature by their offsets. `signDigest` has KMS sign a
digest, brings `s` into the lower half of the scalars, and looks for the parity under which the
signature recovers to the signer's address.

The curve of `ethers` and `computeAddress` are parameters, and so is what KMS answers. A read
beyond the end of a buffer is `undefined`, here `none`.
-/

namespace OpenUnion

open Abi Ecdsa

/-- The order of secp256k1. -/
def secp256k1N : Nat := 0xFFFFFFFFFFFFFFFFFFFFFFFFFFFFFFFEBAAEDCE6AF48A03BBFD25E8CD0364141

def secp256k1HalfN : Nat := secp256k1N / 2

/-- What is thrown. -/
inductive KmsError where
  | signatureBadDer
  | digestMustBe32Bytes
  | signatureMissing
  | signatureRecoveryFailed
  /-- `BigInt` of a text without digits. -/
  | syntaxError
  /-- `toBeHex` of a value that is negative or wider than 32 bytes. -/
  | valueExceedsWidth
  /-- `Signature.from` of an `s` whose top bit is set. -/
  | nonCanonicalS
  /-- `recoverAddress` of a signature that no key belongs to. -/
  | noKeyRecovered
  /-- A failure of `getAddress`. -/
  | publicKey (message : String)
  deriving DecidableEq

/-! ## `derToRS` -/

/-- `bytes.toString('hex')`. -/
def toHex (bs : List UInt8) : List Char :=
  bs.flatMap fun b => [(b.toNat / 16).digitChar, (b.toNat % 16).digitChar]

/-- `BigInt('0x' + text)`. -/
def bigIntOfHex (text : List Char) : Except KmsError Nat :=
  match text, hexDigits text with
  | _ :: _, some ds => .ok (ofBigEndian 16 ds)
  | _, _ => .error .syntaxError

/-- `buf.subarray(start, stop)`. -/
def subarray (buf : List UInt8) (start stop : Nat) : List UInt8 := (buf.take stop).drop start

/-- Where the first element starts: behind a length of one byte, or of as many as it says. -/
def derOffset (buf : List UInt8) : Nat :=
  match buf[1]? with
  | some b => if b &&& 0x80 ≠ 0 then 2 + (b &&& 0x7f).toNat else 2
  | none => 2

/-- The bytes of the integer at `offset` and the offset behind them, which is `NaN` when the
length is missing. -/
def derIntegerAt (buf : List UInt8) (offset : Option Nat) :
    Except KmsError (List UInt8 × Option Nat) :=
  match offset with
  | none => .error .signatureBadDer
  | some i =>
    if buf[i]? = some 0x02 then
      match buf[i + 1]? with
      | some len => .ok (subarray buf (i + 2) (i + 2 + len.toNat), some (i + 2 + len.toNat))
      | none => .ok ([], none)
    else .error .signatureBadDer

def derToRS (buf : List UInt8) : Except KmsError (Nat × Nat) :=
  if buf.length < 8 ∨ buf[0]? ≠ some 0x30 then .error .signatureBadDer
  else do
    let (rBytes, behind) ← derIntegerAt buf (some (derOffset buf))
    let (sBytes, _) ← derIntegerAt buf behind
    let r ← bigIntOfHex (toHex rBytes)
    let s ← bigIntOfHex (toHex sBytes)
    return (r, s)

/-! ## `signDigest` -/

/-- A signature of `ethers`; `yParity` is set for an odd y. -/
structure Signature where
  r : Nat
  s : Nat
  yParity : Bool
  deriving DecidableEq

/-- What `ethers` brings: the curve, and the address of a key. -/
structure Ethers (P : Type) [AddCommGroup P] [Module (ZMod secp256k1N) P] where
  curve : Curve secp256k1N P
  computeAddress : P → String

/-- What KMS answers. -/
structure Kms where
  /-- The signature for a digest, if the reply has one. -/
  sign : List UInt8 → Option (List UInt8)
  /-- `getAddress()`. -/
  getAddress : Except KmsError String

variable {P : Type} [AddCommGroup P] [Module (ZMod secp256k1N) P] [DecidableEq P]

/-- `recoverAddress(digest, sig)`. -/
def Ethers.recoverAddress (e : Ethers P) (digest : List UInt8) (sig : Signature) :
    Except KmsError String :=
  match e.curve.recover (Der.value digest) sig.r sig.s sig.yParity with
  | some key => .ok (e.computeAddress key)
  | none => .error .noKeyRecovered

/-- `to32BytesHex(v)`: the value of the text. -/
def to32BytesHex (v : Int) : Except KmsError Nat :=
  if 0 ≤ v ∧ v < 2 ^ 256 then .ok v.toNat else .error .valueExceedsWidth

/-- `Signature.from({ r, s, yParity })`. -/
def signatureFrom (r s : Nat) (yParity : Bool) : Except KmsError Signature :=
  if s < 2 ^ 255 then .ok ⟨r, s, yParity⟩ else .error .nonCanonicalS

/-- The loop over both parities. -/
def tryParities (e : Ethers P) (digest : List UInt8) (r s : Nat) (flipParity : Bool)
    (addr : String) : List Bool → Except KmsError Signature
  | [] => .error .signatureRecoveryFailed
  | yParity :: rest => do
      let yp := if flipParity then !yParity else yParity
      let sig ← signatureFrom r s yp
      let recovered ← e.recoverAddress digest sig
      if recovered.toLower = addr.toLower then return sig
      tryParities e digest r s flipParity addr rest

/-- The signature KMS returns for a digest. -/
def kmsSignature (kms : Kms) (digest : List UInt8) : Except KmsError (List UInt8) :=
  match kms.sign digest with
  | some der => .ok der
  | none => .error .signatureMissing

def signDigest (e : Ethers P) (kms : Kms) (digest : List UInt8) : Except KmsError Signature :=
  if digest.length ≠ 32 then .error .digestMustBe32Bytes
  else do
    let der ← kmsSignature kms digest
    let (r, s) ← derToRS der
    -- EIP-2 asks for the lower of `s` and `n - s`
    let flipParity := decide (secp256k1HalfN < s)
    let low : Int := if flipParity then (secp256k1N : Int) - s else s
    let rHex ← to32BytesHex r
    let sHex ← to32BytesHex low
    let addr ← kms.getAddress
    tryParities e digest rHex sHex flipParity addr [false, true]

end OpenUnion
