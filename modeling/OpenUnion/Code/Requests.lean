import OpenUnion.Code.Bounties
import OpenUnion.Code.Billing
import OpenUnion.Code.Outbox

/-!
# The system

`Request` lists what can be asked of the server and which worker rounds can run,
`Request.code` is the program of each, and `system` is the machine that
interleaves them over the database.  A claim about runs chooses what to note in
the history, so `system` takes that as a parameter.
-/

namespace OpenUnion

open Interleave

/-- What can be asked of the system. -/
inductive Request where
  | publish (orgId bountyId : Nat) (publicOrigins : List Nat)
  | pause (orgId bountyId : Nat)
  | close (orgId bountyId : Nat)
  | claim (workerId jobId : Nat)
  | release (workerId jobId leaseNonce : Nat)
  | reapLeases
  | submit (workerId jobId : Nat) (idempotencyKey : Option Nat) (body : SubmitBody)
  | verifierClaim (body : ClaimBody)
  | verifierVerdict (body : VerdictBody)
  | markDuplicate (submissionId : Nat)
  | requeueVerification (submissionId attemptNo : Nat)
  | overrideVerdict (submissionId : Nat) (verdict : Option Verdict) (qualityScore : Option Nat)
  | createDispute (orgId : Nat) (payoutId submissionId : Option Nat)
  | cancelDispute (orgId disputeId : Nat)
  | resolveDispute (disputeId : Nat) (refund : Bool)
  | payoutAddress (workerId address : Nat)
  | platformFee (orgId platformFeeBps : Nat) (walletRaw : WalletField)
  | retryPayout (payoutId : Nat)
  | markPayout (payoutId : Nat) (status : PayoutStatus) (provider : Option Provider)
      (providerRef : Option Nat) (reason : String)
  | stripeWebhook (event : Except String StripeEvent)
  | adminTopup (orgId amountCents : Nat)
  /-- One round of `payout-runner`. -/
  | payoutRunner
  /-- One round of `verification-runner`. -/
  | verificationRunner

/-- What is answered. -/
inductive Reply where
  | bounty (r : Http (Option Bounty))
  | lease (r : Http Job)
  | ok (r : Http Unit)
  | reaped (r : Http (List Nat))
  | submitted (r : Http Submitted)
  | claimed (r : Http VerifierClaim)
  | verdict (r : Http VerdictPosted)
  | disputeOpened (r : Http (Nat × Nat))
  | dispute (r : Http Dispute)
  | unblocked (r : Http Nat)
  | platformFee (r : Http (Nat × Option Nat))
  | roundDone

/-- The program of a request, run by process `pid`. -/
def Request.code (cfg : Config) (pid : Nat) : Request → Code Reply
  | .publish o b origins => (publishRoute o b origins).bind fun r => .ret (.bounty r)
  | .pause o b => (statusRoute o b .paused).bind fun r => .ret (.bounty r)
  | .close o b => (statusRoute o b .closed).bind fun r => .ret (.bounty r)
  | .claim i j => (claimRoute cfg i j).bind fun r => .ret (.lease r)
  | .release i j n => (releaseRoute i j n).bind fun r => .ret (.ok r)
  | .reapLeases => reapRoute.bind fun r => .ret (.reaped r)
  | .submit i j key body => (submitRoute cfg i j key body).bind fun r => .ret (.submitted r)
  | .verifierClaim body => (OpenUnion.verifierClaim body).bind fun r => .ret (.claimed r)
  | .verifierVerdict body => (OpenUnion.verifierVerdict cfg body).bind fun r => .ret (.verdict r)
  | .markDuplicate s => (markDuplicateRoute s).bind fun r => .ret (.ok r)
  | .requeueVerification s n => (requeueRoute s n).bind fun r => .ret (.ok r)
  | .overrideVerdict s v score => (overrideVerdictRoute cfg s v score).bind fun r => .ret (.ok r)
  | .createDispute o p s => (createDisputeRoute o p s).bind fun r => .ret (.disputeOpened r)
  | .cancelDispute o d => (cancelDisputeRoute o d).bind fun r => .ret (.dispute r)
  | .resolveDispute d refund => (resolveDisputeRoute d refund).bind fun r => .ret (.dispute r)
  | .payoutAddress i a => (payoutAddressRoute i a).bind fun r => .ret (.unblocked r)
  | .platformFee o bps wallet => (platformFeeRoute cfg o bps wallet).bind fun r => .ret (.platformFee r)
  | .retryPayout p => (retryRoute p).bind fun r => .ret (.ok r)
  | .markPayout p st pr ref reason =>
      (markRoute p st pr ref reason).bind fun r => .ret (.ok r)
  | .stripeWebhook event => (OpenUnion.stripeWebhook event).bind fun r => .ret (.ok r)
  | .adminTopup o n => (OpenUnion.adminTopup o n).bind fun r => .ret (.ok r)
  | .payoutRunner => (runOutboxLoop cfg payoutTopics pid).bind fun _ => .ret .roundDone
  | .verificationRunner =>
      (runOutboxLoop cfg verificationTopics pid).bind fun _ => .ret .roundDone

/-- A step of a run of the system. -/
abbrev Step := Label Stmt Stmt.Val Tag Reply Request Outdoors

/-- An event of a request of the system. -/
abbrev Happening := Event Stmt Stmt.Val Tag Reply

/-- The machine that interleaves requests over the database. -/
def system (cfg : Config) {H : Type} (note : Actor Request → Happening → World → List H) :
    Machine Stmt Stmt.Val Tag Err Reply Request World Lock Outdoors H where
  engine := engine
  code := Request.code cfg
  env := Outdoors.apply
  env_same := Outdoors.apply_same
  note := note

/-- Nothing is noted. -/
def noNotes : Actor Request → Happening → World → List Unit := fun _ _ _ => []

end OpenUnion
