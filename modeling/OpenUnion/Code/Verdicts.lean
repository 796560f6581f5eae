import OpenUnion.Code.Submit
import OpenUnion.Code.Payouts

/-!
# Verifying a submission

A verifier claims a verification and posts its verdict; the verdict route then
updates submission, reputation, dedupe registry and job, and creates the payout.
Every statement of the two routes commits on its own.

`handleVerificationRequested` is the queue worker that calls both routes, with
the verifier gateway between them.
-/

namespace OpenUnion

open Interleave

/-- The body of a claim. -/
structure ClaimBody where
  submissionId : Nat
  attemptNo : Nat
  verifierInstanceId : Nat
  claimTtlSec : Nat

/-- The answer to a claim. -/
structure VerifierClaim where
  verificationId : Nat
  claimToken : Nat
  jobId : Nat
  submissionId : Nat

/-- The body of a verdict. -/
structure VerdictBody where
  submissionId : Nat
  attemptNo : Nat
  claimToken : Nat
  verdict : Verdict
  reason : String
  qualityScore : Nat

/-- The answer to a verdict; `nextAttemptNo` is set when the verification was requeued. -/
structure VerdictPosted where
  verificationId : Nat
  updatedJobStatus : Option Job
  nextAttemptNo : Option Nat

/-- Somebody's claim on the verification is still running. -/
def Verification.isClaimed (v : Verification) (now : Nat) : Bool :=
  decide (v.status = .inProgress) && v.claimExpiresAt.any fun t => decide (now < t)

/-- The verification of an attempt, created when missing. -/
def findOrAddVerification (submissionId attemptNo : Nat) : Code Verification := do
  match ← findVerificationBySubmission submissionId attemptNo with
  | some verification => return verification
  | none =>
      let id ← nanoid
      addVerification submissionId attemptNo (.queued id)
      return .queued id

/-- `POST /api/verifier/claim`. -/
def verifierClaim (body : ClaimBody) : Code (Http VerifierClaim) := do
  match ← getSubmission body.submissionId with
  | none => return .error 404 "not_found" "Submission not found"
  | some submission =>
      let verification ← findOrAddVerification body.submissionId body.attemptNo
      let now ← dateNow
      if verification.isClaimed now then return .error 409 "claimed" "Already claimed"
      else
        let claimToken ← nanoid
        let t ← dateNow
        updateVerification body.submissionId body.attemptNo
          { verification with
            status := .inProgress
            claimToken := some claimToken
            claimedBy := some body.verifierInstanceId
            claimExpiresAt := some (t + body.claimTtlSec * 1000) }
        match ← getJob submission.jobId with
        | none => return .error 404 "not_found" "Job missing"
        | some job =>
            let _ ← getBountyOrThrow job.bountyId
            return .ok ⟨verification.id, claimToken, submission.jobId, body.submissionId⟩

/-- The status a verdict gives its submission. -/
def Verdict.submissionStatus : Verdict → SubmissionStatus
  | .pass => .accepted
  | .fail => .failed
  | .inconclusive => .inconclusive

/-- A text cut to its first 500 characters. -/
def clip (s : String) : String := String.ofList (s.toList.take 500)

/-- The submission after a verdict. -/
def Submission.judged (s : Submission) (body : VerdictBody) : Submission :=
  { s with
    finalVerdict := some body.verdict
    finalReason := some (clip body.reason)
    status := body.verdict.submissionStatus
    finalQualityScore := some body.qualityScore
    payoutStatus := some (if body.verdict = .pass then .pending else .none) }

/-- The verdict fields of a job. -/
def Job.judged (j : Job) (body : VerdictBody) : Job :=
  { j with
    finalVerdict := some body.verdict
    finalReason := some (clip body.reason)
    finalQualityScore := some body.qualityScore }

/-- A job whose verification goes into another attempt. -/
def Job.requeued (j : Job) : Job := { j with status := .verifying }

/-- A job that is done. -/
def Job.completed (j : Job) (doneAt : Nat) : Job :=
  { j with status := .done, doneAt := some doneAt }

/-- A job an admin has marked a duplicate. -/
def Job.markedDuplicate (j : Job) : Job :=
  { j with
    status := .done
    finalVerdict := some .fail
    finalReason := some "admin_mark_duplicate" }

/-- `recordReputation`. -/
def recordReputation (workerId : Nat) (passed : Bool) : Code Unit := do
  let row ← ask (.reputation workerId)
  let alpha := (row.map Reputation.alpha).getD 2
  let beta := (row.map Reputation.beta).getD 2
  run (.reputation workerId (if passed then ⟨alpha + 1, beta⟩ else ⟨alpha, beta + 1⟩))

/-- Update the dedupe registry on pass. -/
def registerOnPass (submission : Submission) (verdict : Verdict) : Code Unit := do
  match submission.dedupeKey with
  | none => return
  | some dedupeKey =>
      onlyIf (verdict = .pass) do
        match ← getJob submission.jobId with
        | none => return
        | some job =>
            let _ ← getBountyOrThrow job.bountyId
            run (.acceptedDedupe job.bountyId dedupeKey)

/-- The end of a verdict that completes the job. -/
def completeJob (cfg : Config) (body : VerdictBody) (verificationId : Nat) (submission : Submission)
    (job : Job) : Code (Http VerdictPosted) := do
  let doneAt ← dateNow
  updateJob submission.jobId (job.completed doneAt)
  onlyIf (body.verdict = .pass) do
    let bounty ← getBountyOrThrow job.bountyId
    createPayout cfg body.submissionId submission.workerId bounty
    run (.acceptArtifacts body.submissionId)
  return .ok ⟨verificationId, some (job.completed doneAt), none⟩

/-- Requeue an inconclusive verification while attempts remain, else complete the job. -/
def requeueOrComplete (cfg : Config) (body : VerdictBody) (verificationId : Nat)
    (submission : Submission) (job : Job) : Code (Http VerdictPosted) := do
  if body.verdict = .inconclusive then
    let attempts ← ask (.maxAttempt body.submissionId)
    let maxAttempt := attempts.getD 1
    if maxAttempt < cfg.maxVerificationAttempts then
      let nextAttemptNo := maxAttempt + 1
      let id ← nanoid
      addVerification body.submissionId nextAttemptNo (.queued id)
      enqueueOutbox (.verification body.submissionId nextAttemptNo) none
      updateJob submission.jobId job.requeued
      return .ok ⟨verificationId, some job.requeued, some nextAttemptNo⟩
    else completeJob cfg body verificationId submission job
  else completeJob cfg body verificationId submission job

/-- What a verdict does once the verification is finished. -/
def applyVerdict (cfg : Config) (body : VerdictBody) (verificationId : Nat) :
    Code (Http VerdictPosted) := do
  match ← getSubmission body.submissionId with
  | none => return .error 404 "not_found" "Submission not found"
  | some submission =>
      updateSubmission body.submissionId (submission.judged body)
      recordReputation submission.workerId (body.verdict = .pass)
      registerOnPass submission body.verdict
      match ← getJob submission.jobId with
      | none => return .error 404 "not_found" "Job missing"
      | some job => requeueOrComplete cfg body verificationId submission (job.judged body)

/-- `POST /api/verifier/verdict`. -/
def verifierVerdict (cfg : Config) (body : VerdictBody) : Code (Http VerdictPosted) := do
  match ← findVerificationBySubmission body.submissionId body.attemptNo with
  | none => return .error 404 "not_found" "Verification not found"
  | some verification =>
      if verification.claimToken ≠ some body.claimToken then
        return .error 401 "invalid_claim" "Claim token mismatch"
      else if verification.status = .finished then
        match ← getSubmission body.submissionId with
        | none => return .ok ⟨verification.id, none, none⟩
        | some submission =>
            let job ← getJob submission.jobId
            return .ok ⟨verification.id, job, none⟩
      else
        let now ← dateNow
        if verification.claimExpiresAt.any fun t => decide (t < now) then
          return .error 409 "claim_expired" "Claim expired"
        else
          updateVerification body.submissionId body.attemptNo
            { verification with
              status := .finished
              verdict := some body.verdict
              reason := some body.reason
              qualityScore := some body.qualityScore }
          applyVerdict cfg body verification.id

/-- `handleVerificationRequested`, run by the verifier instance `instanceId`. -/
def handleVerificationRequested (cfg : Config) (instanceId submissionId attemptNo : Nat) :
    Code Unit := do
  match ← verifierClaim ⟨submissionId, attemptNo, instanceId, 600⟩ with
  | .error status _ _ => throw (.claimFailed status)
  | .ok claim =>
      let (verdict, reason, qualityScore) ← ask .gatewayVerdict
      match ← verifierVerdict cfg
          ⟨submissionId, attemptNo, claim.claimToken, verdict, reason, qualityScore⟩ with
      | .error status _ _ => throw (.verdictFailed status)
      | .ok _ => return

/-- `POST /api/admin/verifications/:verificationId/requeue`; the key of the row stands
for its id. -/
def requeueRoute (submissionId attemptNo : Nat) : Code (Http Unit) := do
  match ← findVerificationBySubmission submissionId attemptNo with
  | none => return .error 404 "not_found" "verification not found"
  | some ver =>
      updateVerification submissionId attemptNo
        { ver with status := .queued, claimToken := none, claimExpiresAt := none }
      return .ok ()

/-- `POST /api/admin/submissions/:submissionId/mark-duplicate`. -/
def markDuplicateRoute (submissionId : Nat) : Code (Http Unit) := do
  match ← getSubmission submissionId with
  | none => return .error 404 "not_found" "submission not found"
  | some sub =>
      updateSubmission submissionId
        { sub with
          status := .duplicate
          finalVerdict := some .fail
          finalReason := some "admin_mark_duplicate" }
      match ← getJob sub.jobId with
      | none => return .ok ()
      | some job =>
          updateJob sub.jobId job.markedDuplicate
          return .ok ()

/-- The text of a verdict. -/
def Verdict.text : Verdict → String
  | .pass => "pass"
  | .fail => "fail"
  | .inconclusive => "inconclusive"

/-- The submission after an admin has overridden its verdict. -/
def Submission.overridden (s : Submission) (verdict : Verdict) (qualityScore : Option Nat) :
    Submission :=
  { s with
    finalVerdict := some verdict
    finalReason := some s!"admin_override:{verdict.text}"
    status := verdict.submissionStatus
    finalQualityScore := some ((qualityScore.orElse fun _ => s.finalQualityScore).getD 0)
    payoutStatus := some (if verdict = .pass then .pending else .none) }

/-- The job after an admin has overridden the verdict of its submission. -/
def Job.overridden (j : Job) (verdict : Verdict) (sub : Submission) : Job :=
  { j with
    finalVerdict := some verdict
    finalReason := sub.finalReason
    finalQualityScore := sub.finalQualityScore
    status := .done }

/-- `POST /api/admin/submissions/:submissionId/override-verdict`; `verdict` is `none` when
the body has no valid one. -/
def overrideVerdictRoute (cfg : Config) (submissionId : Nat) (verdict : Option Verdict)
    (qualityScore : Option Nat) : Code (Http Unit) := do
  match ← getSubmission submissionId with
  | none => return .error 404 "not_found" "submission not found"
  | some row =>
      match verdict with
      | none => return .error 400 "invalid" "verdict required"
      | some verdict =>
          let sub := row.overridden verdict qualityScore
          updateSubmission submissionId sub
          match ← getJob sub.jobId with
          | none =>
              if verdict = .pass then return .error 409 "not_found" "job missing" else return .ok ()
          | some job =>
              updateJob sub.jobId (job.overridden verdict sub)
              onlyIf (verdict = .pass) do
                let bounty ← getBountyOrThrow job.bountyId
                createPayout cfg submissionId sub.workerId bounty
                match sub.dedupeKey with
                | none => return
                | some dedupeKey => run (.acceptedDedupe job.bountyId dedupeKey)
              return .ok ()

end OpenUnion
