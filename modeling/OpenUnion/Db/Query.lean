import OpenUnion.Db.World

/-!
# Reads

Every `SELECT` without a lock, and every question the code puts to the clock, to
the RPC endpoint or to the verifier gateway.  `Query.Val` is the type of the
answer and `Query.eval` the answer in a given state.

Joins and aggregates range over the identifiers handed out so far.
-/

namespace OpenUnion

/-- The first milliseconds of the UTC day of `now`. -/
def dayStart (now : Nat) : Nat := now - now % 86400000

/-- The day of the month (from 1) of a number of days since 1970-01-01. -/
def dayOfMonth (days : Nat) : Nat :=
  let doe := (days + 719468) % 146097
  let yoe := (doe - doe / 1460 + doe / 36524 - doe / 146096) / 365
  let doy := doe - (365 * yoe + yoe / 4 - yoe / 100)
  doy - (153 * ((5 * doy + 2) / 153) + 2) / 5 + 1

/-- The first milliseconds of the UTC month of `now`. -/
def monthStart (now : Nat) : Nat :=
  dayStart now - (dayOfMonth (now / 86400000) - 1) * 86400000

/-- The event types that count towards a spending limit. -/
def BillingKind.isSpend : BillingKind → Bool
  | .bountyBudgetReserve _ | .bountyBudgetRelease _ | .disputeRefund _ _ => true
  | .stripeTopup _ | .adminTopup => false

/-- The statuses of jobs that count as open work. -/
def JobStatus.isOpenWork : JobStatus → Bool
  | .opened | .claimed | .submitted | .verifying => true
  | .done | .expired => false

/-- What `addPayout` reads of a submission's bounty and organisation. -/
structure PayoutContext where
  disputeWindowSec : Nat
  platformFeeBps : Nat
  platformFeeWalletAddress : Option Nat

/-- What `createDispute` reads of its target; the payout may be missing. -/
structure DisputeTarget where
  orgId : Nat
  bountyId : Nat
  submissionId : Nat
  payout : Option (Nat × Payout)

/-- The questions. -/
inductive Query where
  | now
  | bounty (id : Nat)
  | org (id : Nat)
  | account (orgId : Nat)
  | reservation (bountyId : Nat)
  | originAllowed (orgId origin : Nat)
  | urlBlocked (origin : Nat)
  | spentSince (orgId since : Nat)
  | countJobs (bountyId : Nat)
  | countOpenJobs (orgId : Nat)
  | committedCents (bountyId : Nat)
  | job (id : Nat)
  | hasActiveJob (workerId : Nat)
  | hasActiveLease (workerId now : Nat)
  | submission (id : Nat)
  | submissionByKey (jobId workerId idempotencyKey : Nat)
  | isAcceptedDuplicate (bountyId dedupeKey : Nat)
  | verification (submissionId attemptNo : Nat)
  | latestVerification (submissionId : Nat)
  | maxAttempt (submissionId : Nat)
  | reputation (workerId : Nat)
  | artifact (id : Nat)
  | payoutContext (submissionId : Nat)
  | payout (id : Nat)
  | payoutOrg (payoutId : Nat)
  | worker (id : Nat)
  | transfers (payoutId : Nat)
  | disputeTargetByPayout (payoutId : Nat)
  | disputeTargetBySubmission (submissionId : Nat)
  | openDispute (payoutId : Nat)
  | outboxEvent (key : OutboxKey)
  | stripeBillingEvent (stripeEventId : Nat)
  | pendingNonce
  | transactionReceipt (txHash : Nat)
  | latestBlockNumber
  | gatewayVerdict

/-- The type of the answer. -/
@[reducible] def Query.Val : Query → Type
  | .now => Nat
  | .bounty _ => Option Bounty
  | .org _ => Option Org
  | .account _ => Option Account
  | .reservation _ => Option Reservation
  | .originAllowed _ _ => Bool
  | .urlBlocked _ => Bool
  | .spentSince _ _ => Int
  | .countJobs _ => Nat
  | .countOpenJobs _ => Nat
  | .committedCents _ => Nat
  | .job _ => Option Job
  | .hasActiveJob _ => Bool
  | .hasActiveLease _ _ => Bool
  | .submission _ => Option Submission
  | .submissionByKey _ _ _ => Option (Nat × Submission)
  | .isAcceptedDuplicate _ _ => Bool
  | .verification _ _ => Option Verification
  | .latestVerification _ => Option Nat
  | .maxAttempt _ => Option Nat
  | .reputation _ => Option Reputation
  | .artifact _ => Option Artifact
  | .payoutContext _ => Option PayoutContext
  | .payout _ => Option Payout
  | .payoutOrg _ => Option Org
  | .worker _ => Option Worker
  | .transfers _ => List Transfer
  | .disputeTargetByPayout _ => Option DisputeTarget
  | .disputeTargetBySubmission _ => Option DisputeTarget
  | .openDispute _ => Option Nat
  | .outboxEvent _ => Option OutboxEvent
  | .stripeBillingEvent _ => Bool
  | .pendingNonce => Nat
  | .transactionReceipt _ => Option Receipt
  | .latestBlockNumber => Nat
  | .gatewayVerdict => Verdict × String × Nat

namespace World

variable (w : World)

/-- The identifiers handed out so far. -/
def ids : List Nat := List.range w.nextId

/-- `payouts ⋈ submissions ⋈ jobs`: the bounty a payout belongs to. -/
def bountyOfPayout (p : Payout) : Option Nat :=
  (w.submissions p.submissionId).bind fun s => (w.jobs s.jobId).map Job.bountyId

/-- The organisation of a submission's bounty. -/
def orgOfSubmission (submissionId : Nat) : Option (Bounty × Org) :=
  (w.submissions submissionId).bind fun s =>
    (w.jobs s.jobId).bind fun j =>
      (w.bounties j.bountyId).bind fun b => (w.orgs b.orgId).map fun o => (b, o)

/-- The cents of one payout that closing bounty `b` may not release. -/
def committedOf (b id : Nat) : Nat :=
  match w.payouts id with
  | some p => if w.bountyOfPayout p = some b then p.amountCents else 0
  | none => 0

/-- The target of a dispute, from its submission. -/
def disputeTarget (submissionId : Nat) (payout : Option (Nat × Payout)) : Option DisputeTarget :=
  (w.submissions submissionId).bind fun s =>
    (w.jobs s.jobId).bind fun j =>
      (w.bounties j.bountyId).map fun b => ⟨b.orgId, j.bountyId, submissionId, payout⟩

/-- The submission row with this unique key. -/
def submissionByKey (jobId workerId key : Nat) : Option (Nat × Submission) :=
  w.ids.findSome? fun i => (w.submissions i).bind fun s =>
    if s.jobId = jobId ∧ s.workerId = workerId ∧ s.idempotencyKey = some key then some (i, s) else none

/-- The attempt numbers of a submission's verifications. -/
def attempts (submissionId : Nat) : List Nat :=
  (w.verificationKeys.filter fun k => k.1 = submissionId ∧ (w.verifications k).isSome).map Prod.snd

/-- The largest attempt number of a submission. -/
def maxAttempt (submissionId : Nat) : Option Nat :=
  (w.attempts submissionId).foldl (fun m n => some (max n (m.getD 0))) none

end World

/-- A job the lease check counts as active work of worker `workerId`. -/
def Job.activeFor (workerId now : Nat) (j : Job) : Bool :=
  decide (j.leaseWorkerId = some workerId) &&
    match j.status with
    | .submitted | .verifying => true
    | .claimed => j.leaseExpiresAt.all fun t => decide (now ≤ t)
    | .opened | .done | .expired => false

/-- The answer to a question. -/
def Query.eval : (q : Query) → World → q.Val
  | .now, w => w.now
  | .bounty b, w => w.bounties b
  | .org o, w => w.orgs o
  | .account o, w => w.accounts o
  | .reservation b, w => w.reservations b
  | .originAllowed o x, w => w.originAllowed o x
  | .urlBlocked x, w => w.urlBlocked x
  | .spentSince o t, w =>
      ((w.billing.filter fun e => e.account = o ∧ e.kind.isSpend ∧ t ≤ e.createdAt).map
        BillingEvent.amountCents).sum
  | .countJobs b, w => (w.ids.filter fun i => (w.jobs i).any fun j => j.bountyId = b).length
  | .countOpenJobs o, w =>
      (w.ids.filter fun i => (w.jobs i).any fun j =>
        j.status.isOpenWork && (w.bounties j.bountyId).any fun b => b.orgId = o).length
  | .committedCents b, w => (w.ids.map (w.committedOf b)).sum
  | .job j, w => w.jobs j
  | .hasActiveJob i, w =>
      w.ids.any fun j => (w.jobs j).any fun r => r.leaseWorkerId = some i ∧
        (r.status = .claimed ∨ r.status = .submitted ∨ r.status = .verifying)
  | .hasActiveLease i t, w => w.ids.any fun j => (w.jobs j).any (Job.activeFor i t)
  | .submission s, w => w.submissions s
  | .submissionByKey j i k, w => w.submissionByKey j i k
  | .isAcceptedDuplicate b k, w => w.acceptedDedupe (b, k)
  | .verification s n, w => w.verifications (s, n)
  | .latestVerification s, w =>
      (w.maxAttempt s).bind fun n => (w.verifications (s, n)).map Verification.id
  | .maxAttempt s, w => w.maxAttempt s
  | .reputation i, w => w.reputation i
  | .artifact i, w => w.artifacts i
  | .payoutContext s, w =>
      (w.orgOfSubmission s).map fun (b, o) =>
        ⟨b.disputeWindowSec, o.platformFeeBps, o.platformFeeWalletAddress⟩
  | .payout p, w => w.payouts p
  | .payoutOrg p, w =>
      (w.payouts p).bind fun r => (w.orgOfSubmission r.submissionId).map Prod.snd
  | .worker i, w => w.workers i
  | .transfers p, w =>
      [TransferKind.net, .platformFee, .proofworkFee].filterMap fun k => w.transfers (p, k)
  | .disputeTargetByPayout p, w =>
      (w.payouts p).bind fun r => w.disputeTarget r.submissionId (some (p, r))
  | .disputeTargetBySubmission s, w =>
      w.disputeTarget s ((w.payoutOf s).bind fun p =>
        ((w.payouts p).filter fun r => r.submissionId = s).map fun r => (p, r))
  | .openDispute p, w =>
      w.ids.find? fun d => (w.disputes d).any fun r => r.payoutId = some p ∧ r.status = .opened
  | .outboxEvent k, w => w.outbox k
  | .stripeBillingEvent e, w => w.booked e
  | .pendingNonce, w => w.outside.nextPendingNonce
  | .transactionReceipt _, w => w.outside.nextReceipt
  | .latestBlockNumber, w => w.outside.nextLatestBlock
  | .gatewayVerdict, w => (w.outside.nextVerdict, w.outside.nextReason, w.outside.nextScore)

end OpenUnion
