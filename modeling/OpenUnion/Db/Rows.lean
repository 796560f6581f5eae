import Mathlib.Algebra.GroupWithZero.Nat
import Mathlib.Algebra.Ring.Int.Defs
import Mathlib.Logic.Function.Basic

/-!
# Table rows

One structure per database table the modelled requests read or write, with the
columns they use, and one enumeration per text column with a closed set of
values.  Identifiers (`nanoid` strings in the database), money in cents and
times in milliseconds are natural numbers; `null` is `none`.

Two enumerations avoid a Lean keyword: an `open` job is `opened`, and so is an
`open` dispute.
-/

namespace OpenUnion

/-- `bounties.status`. -/
inductive BountyStatus where
  | draft | published | paused | closed
  deriving DecidableEq

/-- `jobs.status`. -/
inductive JobStatus where
  | opened | claimed | submitted | verifying | done | expired
  deriving DecidableEq

/-- A verifier's verdict. -/
inductive Verdict where
  | pass | fail | inconclusive
  deriving DecidableEq

/-- `submissions.status`. -/
inductive SubmissionStatus where
  | submitted | duplicate | accepted | failed | inconclusive
  deriving DecidableEq

/-- `submissions.payout_status`. -/
inductive SubmissionPayoutStatus where
  | none | pending | paid | failed | reversed
  deriving DecidableEq

/-- `verifications.status`. -/
inductive VerificationStatus where
  | queued | inProgress | finished
  deriving DecidableEq

/-- `payouts.status`. -/
inductive PayoutStatus where
  | pending | paid | failed | refunded
  deriving DecidableEq

/-- `payouts.blocked_reason`. -/
inductive BlockedReason where
  | disputeOpen | disputeRefund | workerPayoutAddressMissing
  deriving DecidableEq

/-- The text of a blocked reason. -/
def BlockedReason.text : BlockedReason → String
  | .disputeOpen => "dispute_open"
  | .disputeRefund => "dispute_refund"
  | .workerPayoutAddressMissing => "worker_payout_address_missing"

/-- `payout_transfers.status`, as far as the payout code writes it. -/
inductive TransferStatus where
  | broadcast | confirmed | failed
  deriving DecidableEq

/-- `payout_transfers.kind`: the legs of one splitter transaction. -/
inductive TransferKind where
  | net | platformFee | proofworkFee
  deriving DecidableEq

/-- `disputes.status`. -/
inductive DisputeStatus where
  | opened | cancelled | resolved
  deriving DecidableEq

/-- `disputes.resolution`. -/
inductive Resolution where
  | cancelled | refund | uphold
  deriving DecidableEq

/-- `outbox_events.status`. -/
inductive OutboxStatus where
  | pending | processing | sent | deadletter
  deriving DecidableEq

/-- `artifacts.status`, as far as attaching distinguishes it. -/
inductive ArtifactStatus where
  | presigned | uploaded | scanned | accepted | blocked
  deriving DecidableEq

/-- `bounty_budget_reservations.status`. -/
inductive ReservationStatus where
  | active | released
  deriving DecidableEq

/-- `billing_events.event_type`, with the part of the metadata that is used. -/
inductive BillingKind where
  | bountyBudgetReserve (bountyId : Nat)
  | bountyBudgetRelease (bountyId : Nat)
  | disputeRefund (disputeId payoutId : Nat)
  | stripeTopup (stripeEventId : Nat)
  | adminTopup
  deriving DecidableEq

/-- `stripe_webhook_events.status`. -/
inductive StripeEventStatus where
  | received | processed | ignored | failed
  deriving DecidableEq

/-- `PAYMENTS_PROVIDER`, and `manual` for a payout marked by an admin. -/
inductive Provider where
  | mock | http | cryptoBaseUsdc | cryptoEvmLocal | manual
  deriving DecidableEq

/-- Outbox topics. -/
inductive Topic where
  | verificationRequested | payoutRequested | payoutConfirmRequested | disputeAutoRefundRequested
  deriving DecidableEq

/-- Topic and idempotency key of an outbox event.  The pair is unique, and the
key spells out the identifiers of the payload. -/
inductive OutboxKey where
  /-- `verification:<submissionId>:<attemptNo>` -/
  | verification (submissionId attemptNo : Nat)
  /-- `payout:<payoutId>` -/
  | payout (payoutId : Nat)
  /-- `payout_confirm:<payoutId>` -/
  | payoutConfirm (payoutId : Nat)
  /-- `dispute:auto_refund:<disputeId>` -/
  | disputeAutoRefund (disputeId : Nat)
  deriving DecidableEq

/-- The topic of an event. -/
def OutboxKey.topic : OutboxKey → Topic
  | .verification _ _ => .verificationRequested
  | .payout _ => .payoutRequested
  | .payoutConfirm _ => .payoutConfirmRequested
  | .disputeAutoRefund _ => .disputeAutoRefundRequested

/-- The errors the modelled code throws. -/
inductive Err where
  | statementFailed
  | uniqueViolation | foreignKeyViolation | noResult
  | bountyNotFound
  | insufficientFunds | dailySpendLimitExceeded | monthlySpendLimitExceeded | maxOpenJobsExceeded
  | missingTarget | targetNotFound | forbidden | payoutMissing | payoutAlreadyPaid
  | disputeWindowDisabled | disputeWindowExpired | disputeAlreadyOpen
  | notFound | notOpen
  | payoutNotFound | platformFeeWalletMissing | invalidPlatformFeeBps | invalidProofworkFeeBps
  | invalidMaxProofworkFeeBps | proofworkFeeBpsExceedsMax | feeBpsSumExceeds100pct | proofworkFeeWalletNotConfigured
  | kmsKeyNotConfigured | unsupportedPaymentsProvider
  | rpcCallFailed | fetchFailed | paymentProviderFailed | paymentProviderInvalidResponse
  | payoutTransfersMissing | txReceiptPending | txNotEnoughConfirmations
  | claimFailed (status : Nat) | verdictFailed (status : Nat)
  | artifactNotFound | artifactDeleted | artifactForbidden | artifactWrongJob | artifactBlocked
  | artifactNotScanned
  deriving DecidableEq

instance : Inhabited Err := ⟨.statementFailed⟩

/-- The text of an error. -/
def Err.message : Err → String
  | .statementFailed => "Connection terminated unexpectedly"
  | .uniqueViolation => "duplicate key value violates unique constraint"
  | .foreignKeyViolation => "insert or update violates foreign key constraint"
  | .noResult => "no result"
  | .bountyNotFound => "Bounty not found"
  | .insufficientFunds => "insufficient_funds"
  | .dailySpendLimitExceeded => "daily_spend_limit_exceeded"
  | .monthlySpendLimitExceeded => "monthly_spend_limit_exceeded"
  | .maxOpenJobsExceeded => "max_open_jobs_exceeded"
  | .missingTarget => "missing_target"
  | .targetNotFound => "target_not_found"
  | .forbidden => "forbidden"
  | .payoutMissing => "payout_missing"
  | .payoutAlreadyPaid => "payout_already_paid"
  | .disputeWindowDisabled => "dispute_window_disabled"
  | .disputeWindowExpired => "dispute_window_expired"
  | .disputeAlreadyOpen => "dispute_already_open"
  | .notFound => "not_found"
  | .notOpen => "not_open"
  | .payoutNotFound => "payout_not_found"
  | .platformFeeWalletMissing => "platform_fee_wallet_missing"
  | .invalidPlatformFeeBps => "invalid_platform_fee_bps"
  | .invalidProofworkFeeBps => "invalid_proofwork_fee_bps"
  | .invalidMaxProofworkFeeBps => "invalid_max_proofwork_fee_bps"
  | .proofworkFeeBpsExceedsMax => "proofwork_fee_bps_exceeds_max"
  | .feeBpsSumExceeds100pct => "fee_bps_sum_exceeds_100pct"
  | .proofworkFeeWalletNotConfigured => "PROOFWORK_FEE_WALLET_BASE not configured"
  | .kmsKeyNotConfigured => "KMS_PAYOUT_KEY_ID not configured"
  | .unsupportedPaymentsProvider => "Unsupported PAYMENTS_PROVIDER"
  | .rpcCallFailed => "rpc_call_failed"
  | .fetchFailed => "fetch failed"
  | .paymentProviderFailed => "payment_provider_failed"
  | .paymentProviderInvalidResponse => "payment_provider_invalid_response"
  | .payoutTransfersMissing => "payout_transfers_missing"
  | .txReceiptPending => "tx_receipt_pending"
  | .txNotEnoughConfirmations => "tx_not_enough_confirmations"
  | .claimFailed status => s!"claim_failed:{status}"
  | .verdictFailed status => s!"verdict_failed:{status}"
  | .artifactNotFound => "artifact_not_found"
  | .artifactDeleted => "artifact_deleted"
  | .artifactForbidden => "artifact_forbidden"
  | .artifactWrongJob => "artifact_wrong_job"
  | .artifactBlocked => "artifact_blocked"
  | .artifactNotScanned => "artifact_not_scanned"

/-- `orgs`: spending limits and the platform fee. -/
structure Org where
  dailySpendLimitCents : Option Nat
  monthlySpendLimitCents : Option Nat
  maxOpenJobs : Option Nat
  platformFeeBps : Nat
  platformFeeWalletAddress : Option Nat

/-- `workers`: where a worker is paid. -/
structure Worker where
  payoutAddress : Option Nat
  payoutChainIsBase : Bool
  payoutAddressVerifiedAt : Option Nat

/-- `bounties`. -/
structure Bounty where
  orgId : Nat
  status : BountyStatus
  allowedOrigins : List Nat
  fingerprintClasses : List Nat
  payoutCents : Nat
  disputeWindowSec : Nat
  freshnessSlaSec : Nat
  publishedAt : Option Nat

/-- `jobs`. -/
structure Job where
  bountyId : Nat
  fingerprintClass : Nat
  status : JobStatus
  leaseWorkerId : Option Nat
  leaseExpiresAt : Option Nat
  leaseNonce : Option Nat
  currentSubmissionId : Option Nat
  finalVerdict : Option Verdict
  finalReason : Option String
  finalQualityScore : Option Nat
  doneAt : Option Nat
  freshnessSlaSec : Nat
  createdAt : Nat

/-- The address a proof pack says it ended on. -/
inductive FinalUrl where
  | absent
  | malformed
  | origin (id : Nat)

/-- What is used of a proof pack manifest; `digest` stands for the rest of the text,
`observed` for the first 200 characters of the observed result. -/
structure Manifest where
  bountyId : Nat
  observed : Nat
  finalUrl : FinalUrl
  digest : Nat

/-- `submissions`. -/
structure Submission where
  jobId : Nat
  workerId : Nat
  idempotencyKey : Option Nat
  requestHash : Option Nat
  manifest : Manifest
  status : SubmissionStatus
  dedupeKey : Option Nat
  finalVerdict : Option Verdict
  finalReason : Option String
  finalQualityScore : Option Nat
  payoutStatus : Option SubmissionPayoutStatus
  createdAt : Nat

/-- `verifications`; submission and attempt number are the row's key. -/
structure Verification where
  id : Nat
  status : VerificationStatus
  claimToken : Option Nat
  claimedBy : Option Nat
  claimExpiresAt : Option Nat
  verdict : Option Verdict
  reason : Option String
  qualityScore : Option Nat

/-- `reputation`. -/
structure Reputation where
  alpha : Nat
  beta : Nat

/-- An internal artifact of the artifact index. -/
structure ArtifactRef where
  artifactId : Nat
  kind : Nat
  label : Nat
  sha256 : Nat
  contentType : Option Nat
  sizeBytes : Option Nat

/-- What the columns of `artifacts` say about the contents. -/
structure ArtifactInfo where
  kind : Nat
  label : Nat
  sha256 : Option Nat
  contentType : Option Nat
  sizeBytes : Option Nat
  deriving DecidableEq

/-- `artifacts`: what attaching a submission checks and writes. -/
structure Artifact extends ArtifactInfo where
  workerId : Option Nat
  jobId : Option Nat
  submissionId : Option Nat
  status : ArtifactStatus
  deleted : Bool

/-- The fee columns of `payouts`. -/
structure Fees where
  netAmountCents : Nat
  platformFeeCents : Nat
  platformFeeBps : Nat
  platformFeeWalletAddress : Option Nat
  proofworkFeeCents : Nat
  proofworkFeeBps : Nat
  proofworkFeeWalletAddress : Option Nat

/-- `payouts`. -/
structure Payout where
  submissionId : Nat
  workerId : Nat
  amountCents : Nat
  status : PayoutStatus
  provider : Option Provider
  providerRef : Option Nat
  payoutChainIsBase : Bool
  fees : Fees
  holdUntil : Option Nat
  blockedReason : Option BlockedReason

/-- `payout_transfers`; payout and kind are the row's key. -/
structure Transfer where
  toAddress : Option Nat
  amountBaseUnits : Nat
  txHash : Nat
  txNonce : Nat
  status : TransferStatus
  deriving DecidableEq

/-- `disputes`. -/
structure Dispute where
  orgId : Nat
  bountyId : Nat
  submissionId : Option Nat
  payoutId : Option Nat
  status : DisputeStatus
  resolution : Option Resolution
  resolvedAt : Option Nat

/-- `outbox_events`; topic and idempotency key are the row's key. -/
structure OutboxEvent where
  status : OutboxStatus
  attempts : Nat
  availableAt : Nat
  lockedAt : Option Nat
  lockedBy : Option Nat
  lastError : Option Err
  createdAt : Nat
  sentAt : Option Nat

/-- `billing_accounts`; the organisation is the row's key. -/
structure Account where
  balanceCents : Int

/-- `billing_events`; `account` is the organisation whose account it is. -/
structure BillingEvent where
  account : Nat
  kind : BillingKind
  amountCents : Int
  createdAt : Nat

/-- `bounty_budget_reservations`; the bounty is the row's key. -/
structure Reservation where
  account : Nat
  amountCents : Nat
  status : ReservationStatus

end OpenUnion
