import OpenUnion.Db.Engine

/-!
# Writing requests

`Code` is the type of translated functions, and the functions here are the
one-statement functions of the data layer under their names in the source.

`Config` holds what the code reads from its environment, `Http` an answer of the
server, and `Tag` names a commit with the values that identify it.
-/

namespace OpenUnion

open Interleave

/-- What a commit is the end of. -/
inductive Tag where
  | leaseJob (jobId workerId : Nat)
  | publishBounty (bountyId : Nat)
  | setBountyStatus (bountyId : Nat) (status : BountyStatus)
  /-- A close that releases the rest of a reservation, given the cents it found committed. -/
  | closeBounty (bountyId committed : Nat)
  | createDispute (disputeId payoutId : Nat)
  | cancelDispute (disputeId : Nat)
  | resolveDispute (disputeId : Nat) (refund : Bool)
  | unblockPayouts (workerId : Nat)
  | claimOutboxBatch
  | broadcast (payoutId txHash : Nat)
  | stripeWebhook (stripeEventId : Nat)

/-- A translated function. -/
abbrev Code := Prog Stmt Stmt.Val Tag Err

/-- The environment variables the modelled code reads. -/
structure Config where
  leaseTtlMs : Nat
  maxVerificationAttempts : Nat
  maxOutboxAttempts : Nat
  outboxLockTimeoutMs : Nat
  paymentsProvider : Provider
  proofworkFeeBps : Nat
  maxProofworkFeeBps : Nat
  proofworkFeeWallet : Option Nat
  baseUsdcAddress : Nat
  maxOrgPlatformFeeBps : Nat
  kmsPayoutKeyConfigured : Bool
  baseConfirmationsRequired : Nat
  sha256 : List Nat → Nat

/-- The defaults of the environment variables. -/
def Config.default : Config where
  leaseTtlMs := 20 * 60 * 1000
  maxVerificationAttempts := 3
  maxOutboxAttempts := 10
  outboxLockTimeoutMs := 600 * 1000
  paymentsProvider := .mock
  proofworkFeeBps := 100
  maxProofworkFeeBps := 10000
  proofworkFeeWallet := none
  baseUsdcAddress := 0x833589fcd6edb6e08f4c7c32d4f71b54bda02913
  maxOrgPlatformFeeBps := 5000
  kmsPayoutKeyConfigured := false
  baseConfirmationsRequired := 5
  sha256 := List.sum

/-- An answer of the server. -/
inductive Http (α : Type) where
  | ok (value : α)
  | error (status : Nat) (code message : String)

/-- Change the value of a successful answer. -/
def Http.map {α β : Type} (f : α → β) : Http α → Http β
  | .ok a => .ok (f a)
  | .error status code message => .error status code message

/-- Throw the error of a pure computation. -/
def orThrow {α : Type} : Except Err α → Code α
  | .ok a => .ret a
  | .error e => .fail e

/-- An `INSERT` whose key is taken throws. -/
def orUniqueViolation : Bool → Code Unit
  | true => .ret ()
  | false => .fail .uniqueViolation

/-- Execute `body` only if `c` holds. -/
def onlyIf (c : Prop) [Decidable c] (body : Code Unit) : Code Unit :=
  if c then body else .ret ()

/-- Execute a statement. -/
abbrev run (s : Stmt) : Code s.Val := perform s

/-- Ask a question. -/
abbrev ask (q : Query) : Code q.Val := perform (Stmt.read q)

/-- `Date.now()`, `now()` or `new Date()`. -/
abbrev dateNow : Code Nat := ask .now

abbrev nanoid : Code Nat := run .nanoid

abbrev getBounty (id : Nat) : Code (Option Bounty) := ask (.bounty id)

/-- `getBountyOrThrow`. -/
def getBountyOrThrow (id : Nat) : Code Bounty := do
  match ← getBounty id with
  | some bounty => return bounty
  | none => throw .bountyNotFound

abbrev getJob (id : Nat) : Code (Option Job) := ask (.job id)

abbrev updateJob (id : Nat) (job : Job) : Code Unit := run (.job (.update id job))

abbrev getSubmission (id : Nat) : Code (Option Submission) := ask (.submission id)

abbrev updateSubmission (id : Nat) (submission : Submission) : Code Unit :=
  run (.submission (.update id submission))

abbrev findVerificationBySubmission (submissionId attemptNo : Nat) : Code (Option Verification) :=
  ask (.verification submissionId attemptNo)

abbrev updateVerification (submissionId attemptNo : Nat) (v : Verification) : Code Unit :=
  run (.verification (.update (submissionId, attemptNo) v))

abbrev getPayout (id : Nat) : Code (Option Payout) := ask (.payout id)

/-- The organisation's billing account, created with an empty balance if missing. -/
def ensureAccount (orgId : Nat) : Code Account := do
  match ← ask (.account orgId) with
  | some account => return account
  | none =>
      match ← run (.account (.insertOrIgnore orgId)) with
      | some account => return account
      | none =>
          match ← ask (.account orgId) with
          | some account => return account
          | none => throw .noResult

/-- Book an event on an existing account. -/
def insertBillingEvent (account : Nat) (kind : BillingKind) (amountCents : Int) (createdAt : Nat) :
    Code Unit := do
  match ← run (.billing ⟨account, kind, amountCents, createdAt⟩) with
  | true => return
  | false => throw .foreignKeyViolation

/-- `addSubmission`. -/
def addSubmission (id : Nat) (submission : Submission) : Code Unit :=
  (run (.submission (.insert id submission))).bind orUniqueViolation

/-- `addVerification`. -/
def addVerification (submissionId attemptNo : Nat) (v : Verification) : Code Unit :=
  (run (.verification (.insert (submissionId, attemptNo) v))).bind orUniqueViolation

/-- `markPayoutStatus`; a metadata field that is not given is left alone. -/
def markPayoutStatus (id : Nat) (status : PayoutStatus) (provider : Option (Option Provider))
    (providerRef : Option (Option Nat)) : Code (Option Payout) :=
  run (.payout (.setStatus id status provider providerRef))

/-- `enqueueOutbox` with an idempotency key: an existing event is left alone. -/
def enqueueOutbox (key : OutboxKey) (availableAt : Option Nat) : Code Unit := do
  let now ← dateNow
  run (.outbox (.insertOrIgnore key (availableAt.getD now) now))

end OpenUnion
