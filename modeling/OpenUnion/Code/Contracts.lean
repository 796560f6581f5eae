import OpenUnion.Code.Calldata
import OpenUnion.Holdings.Totals

/-!
# The contracts

`contracts/MockUSDC.sol` and `contracts/PayoutSplitter.sol` with their storage, and a chain
on which any number of them are deployed beside other code.

* `MockUSDC` and `PayoutSplitter` are the storages; a function that reverts is an `.error`,
  and a chain that executes it stays as it was.
* `OtherCode` is what a contract that is not of this repository does when a splitter calls
  its `transferFrom`: it answers, and whatever it called in between has happened.
* `Chain.execute` is one message: a function of a contract, called by an account.

Arithmetic is that of Solidity 0.8, which checks every operation.
-/

namespace OpenUnion

open Holdings

/-- Why a message reverts: the reason of a `require`, a checked operation, or no data. -/
inductive Revert where
  | reason (text : String)
  | panic
  | bare
  deriving DecidableEq

/-- `require` in a contract with a storage. -/
def demand (condition : Bool) (reason : String) : Except Revert Unit :=
  (require condition reason).mapError Revert.reason

/-- `+` on `uint256`. -/
def checkedAdd (a b : Nat) : Except Revert Nat :=
  if a + b < 2 ^ 256 then .ok (a + b) else .error .panic

/-- `-` on `uint256`. -/
def checkedSub (a b : Nat) : Except Revert Nat :=
  if b ≤ a then .ok (a - b) else .error .panic

/-! ## The token -/

/-- The storage of a `MockUSDC`; a new one is empty. -/
structure MockUSDC where
  totalSupply : Nat := 0
  balanceOf : Nat → Nat := fun _ => 0
  allowance : Nat → Nat → Nat := fun _ _ => 0

/-- The events of a `MockUSDC`. -/
inductive TokenEvent where
  | transfer (sender recipient amount : Nat)
  | approval (owner spender amount : Nat)
  deriving DecidableEq

namespace MockUSDC

/-- `mint`, which anybody may call. -/
def mint (m : MockUSDC) (recipient amount : Nat) : Except Revert (MockUSDC × TokenEvent) := do
  let balance ← checkedAdd (m.balanceOf recipient) amount
  let supply ← checkedAdd m.totalSupply amount
  return ({ m with
    balanceOf := Function.update m.balanceOf recipient balance
    totalSupply := supply }, .transfer 0 recipient amount)

/-- An allowance is set. -/
def setAllowance (m : MockUSDC) (owner spender amount : Nat) : MockUSDC :=
  { m with
    allowance := Function.update m.allowance owner
      (Function.update (m.allowance owner) spender amount) }

/-- `approve`. -/
def approve (m : MockUSDC) (msgSender spender amount : Nat) :
    Except Revert (MockUSDC × TokenEvent) :=
  return (m.setAllowance msgSender spender amount, .approval msgSender spender amount)

/-- `_transfer`. -/
def transferInternal (m : MockUSDC) (sender recipient amount : Nat) :
    Except Revert (MockUSDC × TokenEvent) := do
  demand (decide (amount ≤ m.balanceOf sender)) "balance"
  let left ← checkedSub (m.balanceOf sender) amount
  let debited := Function.update m.balanceOf sender left
  let credited ← checkedAdd (debited recipient) amount
  return ({ m with balanceOf := Function.update debited recipient credited },
    .transfer sender recipient amount)

/-- `transfer`. -/
def transfer (m : MockUSDC) (msgSender recipient amount : Nat) :
    Except Revert (MockUSDC × TokenEvent) :=
  m.transferInternal msgSender recipient amount

/-- `transferFrom`. -/
def transferFrom (m : MockUSDC) (msgSender sender recipient amount : Nat) :
    Except Revert (MockUSDC × TokenEvent) := do
  let allowed := m.allowance sender msgSender
  demand (decide (amount ≤ allowed)) "allowance"
  let left ← checkedSub allowed amount
  (m.setAllowance sender msgSender left).transferInternal sender recipient amount

end MockUSDC

/-! ## The splitter and the chain -/

/-- The storage of a `PayoutSplitter`. -/
structure PayoutSplitter where
  paused : Bool := false
  owner : Nat
  deriving DecidableEq

/-- The arguments of `payout`. -/
structure PayoutCall where
  token : Nat
  worker : Nat
  platform : Nat
  net : Nat
  fee : Nat
  deriving DecidableEq

/-- The code at an address, with its storage. -/
inductive Contract where
  | mockUSDC (storage : MockUSDC)
  | payoutSplitter (storage : PayoutSplitter)
  | other

/-- The events of a chain, each with the contract it is from. -/
inductive ChainLog where
  | token (address : Nat) (event : TokenEvent)
  | payout (splitter payer : Nat) (call : PayoutCall)
  | payoutV2 (splitter payer : Nat) (call : SplitterCall)
  deriving DecidableEq

/-- The contracts of a chain and what they have logged, the oldest event first. -/
structure Chain where
  contracts : Nat → Option Contract := fun _ => none
  logs : List ChainLog := []

namespace Chain

/-- Set the contract at an address. -/
def put (chain : Chain) (address : Nat) (contract : Contract) : Chain :=
  { chain with contracts := Function.update chain.contracts address (some contract) }

/-- Emit an event. -/
def emit (chain : Chain) (log : ChainLog) : Chain := { chain with logs := chain.logs ++ [log] }

/-- What a function of a token has done. -/
def tokenDone (chain : Chain) (address : Nat) (done : MockUSDC × TokenEvent) : Chain :=
  (chain.put address (.mockUSDC done.1)).emit (.token address done.2)

end Chain

/-- Code that is not of this repository, as a splitter calls its `transferFrom`. -/
def OtherCode := (splitter : Nat) → TransferFrom → Chain → Except Revert (Bool × Chain)

/-- `IERC20(token).transferFrom(...)`, called by the splitter at an address; a call of an
address with no code, or with code that lacks the function, reverts. -/
def callTransferFrom (other : OtherCode) (splitter : Nat) (t : TransferFrom) (chain : Chain) :
    Except Revert (Bool × Chain) :=
  match chain.contracts t.token with
  | some (.mockUSDC m) => do
      let done ← m.transferFrom splitter t.sender t.recipient t.amount
      return (true, chain.tokenDone t.token done)
  | some .other => other splitter t chain
  | some (.payoutSplitter _) => .error .bare
  | none => .error .bare

/-- One leg of a payout: nothing is called for an amount of zero. -/
def payLeg (other : OtherCode) (splitter : Nat) (leg : TransferFrom) (reason : String)
    (chain : Chain) : Except Revert Chain :=
  if 0 < leg.amount then do
    let (done, chain) ← callTransferFrom other splitter leg chain
    demand done reason
    return chain
  else return chain

namespace PayoutSplitter

/-- `setPaused`, for the owner only. -/
def setPaused (p : PayoutSplitter) (msgSender : Nat) (v : Bool) : Except Revert PayoutSplitter := do
  demand (decide (msgSender = p.owner)) "not_owner"
  return { p with paused := v }

/-- `payout`. -/
def payout (other : OtherCode) (p : PayoutSplitter) (self msgSender : Nat) (c : PayoutCall)
    (chain : Chain) : Except Revert Chain := do
  demand (!p.paused) "paused"
  demand (decide (c.worker ≠ 0 ∧ c.platform ≠ 0)) "bad_address"
  let chain ← payLeg other self ⟨c.token, msgSender, c.worker, c.net⟩ "net_transfer_failed" chain
  let chain ← payLeg other self ⟨c.token, msgSender, c.platform, c.fee⟩ "fee_transfer_failed" chain
  return chain.emit (.payout self msgSender c)

/-- `payoutV2`, on a chain. -/
def payoutV2 (other : OtherCode) (p : PayoutSplitter) (self msgSender : Nat) (c : SplitterCall)
    (chain : Chain) : Except Revert Chain := do
  demand (!p.paused) "paused"
  demand (decide (c.worker ≠ 0 ∧ c.proofwork ≠ 0)) "bad_address"
  (if 0 < c.platformFee then demand (decide (c.platform ≠ 0)) "bad_platform" else .ok ())
  let chain ← payLeg other self ⟨c.token, msgSender, c.worker, c.net⟩ "net_transfer_failed" chain
  let chain ← payLeg other self ⟨c.token, msgSender, c.platform, c.platformFee⟩
    "platform_fee_transfer_failed" chain
  let chain ← payLeg other self ⟨c.token, msgSender, c.proofwork, c.proofworkFee⟩
    "proofwork_fee_transfer_failed" chain
  return chain.emit (.payoutV2 self msgSender c)

end PayoutSplitter

/-! ## Messages -/

/-- What a message asks for: a contract to be deployed, or a function of one. -/
inductive ContractCall where
  | deployToken
  | deploySplitter
  | deployOther
  | mint (recipient amount : Nat)
  | approve (spender amount : Nat)
  | transfer (recipient amount : Nat)
  | transferFrom (sender recipient amount : Nat)
  | setPaused (v : Bool)
  | payout (c : PayoutCall)
  | payoutV2 (c : SplitterCall)
  deriving DecidableEq

/-- A message; the target of a deployment is the address of the new contract. -/
structure ChainMessage where
  sender : Nat
  target : Nat
  call : ContractCall
  deriving DecidableEq

/-- The code and the first storage of a deployment; the constructor of a splitter makes its
deployer the owner. -/
def ChainMessage.deploys (msg : ChainMessage) : Option Contract :=
  match msg.call with
  | .deployToken => some (.mockUSDC {})
  | .deploySplitter => some (.payoutSplitter { owner := msg.sender })
  | .deployOther => some .other
  | _ => none

/-- The functions of a token. -/
def MockUSDC.called (m : MockUSDC) (msgSender : Nat) :
    ContractCall → Except Revert (MockUSDC × TokenEvent)
  | .mint recipient amount => m.mint recipient amount
  | .approve spender amount => m.approve msgSender spender amount
  | .transfer recipient amount => m.transfer msgSender recipient amount
  | .transferFrom sender recipient amount => m.transferFrom msgSender sender recipient amount
  | _ => .error .bare

/-- The functions of a splitter. -/
def PayoutSplitter.called (other : OtherCode) (p : PayoutSplitter) (self msgSender : Nat)
    (chain : Chain) : ContractCall → Except Revert Chain
  | .setPaused v => do
      let p ← p.setPaused msgSender v
      return chain.put self (.payoutSplitter p)
  | .payout c => p.payout other self msgSender c chain
  | .payoutV2 c => p.payoutV2 other self msgSender c chain
  | _ => .error .bare

/-- A message is executed.  Code that is not of this repository acts by messages of its own,
so a message to it does nothing here. -/
def Chain.execute (other : OtherCode) (chain : Chain) (msg : ChainMessage) : Except Revert Chain :=
  match msg.deploys, chain.contracts msg.target with
  | some contract, none => .ok (chain.put msg.target contract)
  | some _, some _ => .error .bare
  | none, some (.mockUSDC m) => do
      let done ← m.called msg.sender msg.call
      return chain.tokenDone msg.target done
  | none, some (.payoutSplitter p) => p.called other msg.target msg.sender chain msg.call
  | none, some .other => .ok chain
  | none, none => .ok chain

/-- The sender of a message: an account that has a key, or other code.  The contracts of the
repository send no messages but the `transferFrom` of a payout. -/
def Chain.External (chain : Chain) (sender : Nat) : Prop :=
  sender ≠ 0 ∧ ∀ contract, chain.contracts sender = some contract → contract = .other

/-- What messages can make of a chain, each allowed by `may`.  Code that a payout calls in
between does no more than send messages itself. -/
inductive Becomes (may : ChainMessage → Prop) : Chain → Chain → Prop
  | refl (chain : Chain) : Becomes may chain chain
  | call {start chain next : Chain} {msg : ChainMessage} {other : OtherCode}
      (before : Becomes may start chain) (external : chain.External msg.sender)
      (allowed : may msg)
      (within : ∀ splitter t c done c', other splitter t c = .ok (done, c') → Becomes may c c')
      (executed : chain.execute other msg = .ok next) : Becomes may start next

end OpenUnion
