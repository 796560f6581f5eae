import OpenUnion.Abi.Words
import OpenUnion.Code.Payouts

/-!
# The splitter call on the wire

The worker writes the arguments of a payout as hexadecimal text
(`encodePayoutSplitterCallV2`); the contract is called with the bytes of that text, reads
seven static words behind its selector, and `payoutV2` checks them and moves the legs.
`decode_encode` says that it reads what was written.

keccak256 is not part of the repository.  `Keccak` is what the two sides share of it: one
prints it (`id`), the other compares its first four bytes.
-/

namespace OpenUnion

open Abi

/-- `keccak256` of a text, and `id`, which prints it. -/
structure Keccak where
  keccak256 : List Char → List Nat
  id : List Char → List Char
  size : ∀ s, (keccak256 s).length = 32
  prints : ∀ s, ∃ digits, id s = '0' :: 'x' :: digits ∧ digits.length = 64 ∧
    hexBytes digits = some (keccak256 s)

/-! ## The encoder -/

/-- The input of `encodePayoutSplitterCallV2`. -/
structure EncodeInput where
  token : List Char
  worker : List Char
  platform : List Char
  proofwork : List Char
  net : Nat
  platformFee : Nat
  proofworkFee : Nat

/-- `pad32`. -/
def pad32 (hexNo0x : List Char) : List Char := hexNo0x.leftpad 64 '0'

/-- `replace(/^0x/, '')`. -/
def strip0x : List Char → List Char
  | '0' :: 'x' :: rest => rest
  | text => text

/-- `addr`. -/
def addr (a : List Char) : List Char := pad32 (strip0x (a.map Char.toLower))

/-- `u256`. -/
def u256 (v : Nat) : List Char := pad32 (Nat.toDigits 16 v)

/-- The signature whose hash selects `payoutV2`. -/
def payoutV2Signature : List Char :=
  "payoutV2(address,address,address,address,uint256,uint256,uint256)".toList

/-- `encodePayoutSplitterCallV2`. -/
def encodePayoutSplitterCallV2 (k : Keccak) (input : EncodeInput) : List Char :=
  let selector := (k.id payoutV2Signature).take 10
  selector ++ addr input.token ++ addr input.worker ++ addr input.platform ++
    addr input.proofwork ++ u256 input.net ++ u256 input.platformFee ++ u256 input.proofworkFee

/-! ## The contract -/

/-- The bytes of the `data` of a transaction. -/
def calldata : List Char → Option (List Nat)
  | '0' :: 'x' :: digits => hexBytes digits
  | _ => none

/-- A word is an address if it fits into 20 bytes. -/
def IsAddress (n : Nat) : Prop := n < 2 ^ 160

instance : DecidablePred IsAddress := fun n => inferInstanceAs (Decidable (n < 2 ^ 160))

/-- The arguments of `payoutV2` from its static words. -/
def decodeArguments : List Nat → Option SplitterCall
  | [token, worker, platform, proofwork, net, platformFee, proofworkFee] =>
      if IsAddress token ∧ IsAddress worker ∧ IsAddress platform ∧ IsAddress proofwork then
        some ⟨token, worker, platform, proofwork, net, platformFee, proofworkFee⟩
      else none
  | _ => none

/-- The arguments of a call of `payoutV2`. -/
def decodeCall (k : Keccak) (data : List Nat) : Option SplitterCall :=
  if data.take 4 = (k.keccak256 payoutV2Signature).take 4 then
    (readWords 7 (data.drop 4)).bind decodeArguments
  else none

/-- A call of `transferFrom` on a token. -/
structure TransferFrom where
  token : Nat
  sender : Nat
  recipient : Nat
  amount : Nat
  deriving DecidableEq

/-- `require`: revert with a reason. -/
def require (condition : Bool) (reason : String) : Except String Unit :=
  if condition then .ok () else .error reason

/-- Transfer a leg that carries money. -/
def transferLeg (transferFrom : TransferFrom → Bool) (leg : TransferFrom) (reason : String) :
    Except String (List TransferFrom) :=
  if 0 < leg.amount then do
    require (transferFrom leg) reason
    return [leg]
  else return []

/-- `PayoutSplitter.payoutV2`: the transfers of a call; `transferFrom` answers for the token. -/
def payoutV2 (paused : Bool) (transferFrom : TransferFrom → Bool) (sender : Nat)
    (c : SplitterCall) : Except String (List TransferFrom) := do
  require (!paused) "paused"
  require (decide (c.worker ≠ 0 ∧ c.proofwork ≠ 0)) "bad_address"
  (if 0 < c.platformFee then require (decide (c.platform ≠ 0)) "bad_platform" else .ok ())
  let net ← transferLeg transferFrom ⟨c.token, sender, c.worker, c.net⟩ "net_transfer_failed"
  let platform ← transferLeg transferFrom ⟨c.token, sender, c.platform, c.platformFee⟩
    "platform_fee_transfer_failed"
  let proofwork ← transferLeg transferFrom ⟨c.token, sender, c.proofwork, c.proofworkFee⟩
    "proofwork_fee_transfer_failed"
  return net ++ platform ++ proofwork

/-- The splitter executes a transaction; data it cannot decode reverts without a reason. -/
def executeSplitter (k : Keccak) (paused : Bool) (transferFrom : TransferFrom → Bool)
    (sender : Nat) (data : List Char) : Except String (List TransferFrom) :=
  match (calldata data).bind (decodeCall k) with
  | none => .error ""
  | some call => payoutV2 paused transferFrom sender call

/-! ## What is written is what is read -/

/-- A text of an address: 20 bytes behind `0x`, in either case. -/
def AddressText (text : List Char) (a : Nat) : Prop :=
  ∃ digits, text = '0' :: 'x' :: digits ∧ digits.length = 40 ∧ Spells digits a

/-- The addresses of an input are texts of those of a call, and the amounts are the same. -/
structure EncodeInput.Names (input : EncodeInput) (c : SplitterCall) : Prop where
  token : AddressText input.token c.token
  worker : AddressText input.worker c.worker
  platform : AddressText input.platform c.platform
  proofwork : AddressText input.proofwork c.proofwork
  net : input.net = c.net
  platformFee : input.platformFee = c.platformFee
  proofworkFee : input.proofworkFee = c.proofworkFee

/-- The amounts of a call are 256-bit numbers. -/
structure SplitterCall.Fits (c : SplitterCall) : Prop where
  net : c.net < 2 ^ 256
  platformFee : c.platformFee < 2 ^ 256
  proofworkFee : c.proofworkFee < 2 ^ 256

/-- The text of a word. -/
def WordText (text : List Char) (n : Nat) : Prop := Spells text n ∧ text.length = 64

theorem AddressText.isAddress {text : List Char} {a : Nat} (h : AddressText text a) :
    IsAddress a := by
  obtain ⟨digits, -, hlen, hspells⟩ := h
  have hlt := hspells.lt
  rw [hlen] at hlt
  exact hlt.trans_eq (by norm_num)

theorem pad32_word {text : List Char} {n : Nat} (h : Spells text n) (hlen : text.length ≤ 64) :
    WordText (pad32 text) n := by
  refine ⟨h.leftpad 64, ?_⟩
  rw [pad32, List.length_leftpad, max_eq_left hlen]

theorem addr_word {text : List Char} {a : Nat} (h : AddressText text a) :
    WordText (addr text) a := by
  obtain ⟨digits, rfl, hlen, hspells⟩ := h
  have hstrip : strip0x (('0' :: 'x' :: digits).map Char.toLower) = digits.map Char.toLower := rfl
  rw [addr, hstrip]
  exact pad32_word hspells.toLower (by simp [hlen])

theorem u256_word {n : Nat} (h : n < 2 ^ 256) : WordText (u256 n) n := by
  refine pad32_word (spells_toDigits n) ((Nat.length_toDigits_le_iff (by decide) (by decide)).mpr ?_)
  exact h.trans_eq (by norm_num)

/-- The selector is written as four bytes behind `0x`. -/
theorem selector_bytes (k : Keccak) (s : List Char) : ∃ digits,
    (k.id s).take 10 = '0' :: 'x' :: digits ∧ hexBytes digits = some ((k.keccak256 s).take 4) := by
  obtain ⟨digits, hid, hlen, hbytes⟩ := k.prints s
  exact ⟨digits.take 8, by rw [hid]; rfl, hexBytes_take hbytes 4⟩

/-- The words of an input are texts of the arguments. -/
theorem EncodeInput.Names.words {input : EncodeInput} {c : SplitterCall} (h : input.Names c)
    (hfits : c.Fits) :
    List.Forall₂ WordText
      [addr input.token, addr input.worker, addr input.platform, addr input.proofwork,
        u256 input.net, u256 input.platformFee, u256 input.proofworkFee]
      [c.token, c.worker, c.platform, c.proofwork, c.net, c.platformFee, c.proofworkFee] := by
  have hnet : WordText (u256 input.net) c.net := h.net ▸ u256_word (h.net ▸ hfits.net)
  have hplatform : WordText (u256 input.platformFee) c.platformFee :=
    h.platformFee ▸ u256_word (h.platformFee ▸ hfits.platformFee)
  have hproofwork : WordText (u256 input.proofworkFee) c.proofworkFee :=
    h.proofworkFee ▸ u256_word (h.proofworkFee ▸ hfits.proofworkFee)
  refine .cons (addr_word h.token) <| .cons (addr_word h.worker) <|
    .cons (addr_word h.platform) <| .cons (addr_word h.proofwork) <|
    .cons hnet <| .cons hplatform <| .cons hproofwork .nil

/-- **The contract reads what the worker has written.** -/
theorem decode_encode (k : Keccak) {input : EncodeInput} {c : SplitterCall} (h : input.Names c)
    (hfits : c.Fits) :
    (calldata (encodePayoutSplitterCallV2 k input)).bind (decodeCall k) = some c := by
  obtain ⟨digits, htext, hselector⟩ := selector_bytes k payoutV2Signature
  obtain ⟨words, hwords, hvalues⟩ := hexBytes_words (h.words hfits)
  have hdata : calldata (encodePayoutSplitterCallV2 k input) =
      some ((k.keccak256 payoutV2Signature).take 4 ++ words.flatten) := by
    have happend := hexBytes_append hselector hwords
    rw [← happend, encodePayoutSplitterCallV2, htext]
    simp [calldata, List.append_assoc]
  have hfour : ((k.keccak256 payoutV2Signature).take 4).length = 4 := by
    simp [k.size]
  have hread : readWords 7 words.flatten =
      some [c.token, c.worker, c.platform, c.proofwork, c.net, c.platformFee, c.proofworkFee] := by
    rw [← List.append_nil words.flatten]
    exact readWords_append [] hvalues
  have hplain : IsAddress c.token ∧ IsAddress c.worker ∧ IsAddress c.platform ∧
      IsAddress c.proofwork :=
    ⟨h.token.isAddress, h.worker.isAddress, h.platform.isAddress, h.proofwork.isAddress⟩
  rw [hdata, Option.bind_some, decodeCall, List.take_left' hfour, if_pos rfl,
    List.drop_left' hfour, hread, Option.bind_some, decodeArguments, if_pos hplain]

end OpenUnion
