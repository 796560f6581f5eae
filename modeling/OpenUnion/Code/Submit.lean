import OpenUnion.Code.Jobs

/-!
# Submitting a proof pack

The submit route reads the job once, checks the lease, and rewrites the whole job
row from that read at its end; in between it is a sequence of statements that
commit on their own.
-/

namespace OpenUnion

open Interleave

/-- The body of a submit request.  The artifact index has its internal artifacts. -/
structure SubmitBody where
  manifest : Manifest
  artifactIndex : List ArtifactRef
  notes : Option Nat

/-- The text of a reference. -/
def ArtifactRef.digest (ref : ArtifactRef) : List Nat :=
  [ref.artifactId, ref.kind, ref.label, ref.sha256, ref.contentType.elim 0 (· + 1),
    ref.sizeBytes.elim 0 (· + 1)]

/-- The hash an idempotency key is bound to. -/
def SubmitBody.requestHash (cfg : Config) (body : SubmitBody) : Nat :=
  cfg.sha256 (body.manifest.digest ::
    (body.notes.getD 0 :: body.artifactIndex.flatMap ArtifactRef.digest))

/-- The key under which accepted submissions of a bounty are compared. -/
def Manifest.dedupeKey (cfg : Config) (m : Manifest) : Nat :=
  cfg.sha256 [m.bountyId, m.observed]

/-- What the submit route answers with. -/
structure Submitted where
  done : Bool
  job : Job
  submissionId : Nat
  verificationId : Option Nat

/-- What a reference makes of the columns; a content type or size it leaves out stays. -/
def ArtifactRef.info (ref : ArtifactRef) (art : Artifact) : ArtifactInfo where
  kind := ref.kind
  label := ref.label
  sha256 := some ref.sha256
  contentType := ref.contentType.or art.contentType
  sizeBytes := ref.sizeBytes.or art.sizeBytes

/-- `attachSubmissionArtifacts`. -/
def attachSubmissionArtifacts (submissionId jobId workerId : Nat)
    (artifactIndex : List ArtifactRef) : Code Unit :=
  forEach attach artifactIndex
where
  attach (ref : ArtifactRef) : Code Unit := do
    match ← ask (.artifact ref.artifactId) with
    | none => throw .artifactNotFound
    | some art =>
        if art.deleted then throw .artifactDeleted
        else if art.workerId.any fun w => decide (w ≠ workerId) then throw .artifactForbidden
        else if art.jobId.any fun j => decide (j ≠ jobId) then throw .artifactWrongJob
        else if art.status = .blocked then throw .artifactBlocked
        else if art.status ≠ .scanned ∧ art.status ≠ .accepted then throw .artifactNotScanned
        else run (.attachArtifact ref.artifactId submissionId (ref.info art))

/-- Attach, turning an error into the route's 400. -/
def attachOrReject (submissionId jobId workerId : Nat) (artifactIndex : List ArtifactRef) :
    Code (Option String) :=
  (attachSubmissionArtifacts submissionId jobId workerId artifactIndex |>.bind fun _ =>
    return none).orElse fun err => return some err.message

/-- The status a job takes when it is found to have a submission. -/
def JobStatus.orVerifying : JobStatus → JobStatus
  | .claimed | .opened => .verifying
  | st => st

/-- A job without a submission, made to point at one it is found to have. -/
def Job.healed (job : Job) (submissionId : Nat) : Job :=
  match job.currentSubmissionId with
  | some _ => job
  | none => { job with currentSubmissionId := some submissionId, status := job.status.orVerifying }

/-- A job whose submission is being verified. -/
def Job.verifyingAs (job : Job) (submissionId : Nat) : Job :=
  { job with currentSubmissionId := some submissionId, status := .verifying }

/-- A job whose submission is a duplicate. -/
def Job.duplicateAs (job : Job) (submissionId : Nat) : Job :=
  { job with
    currentSubmissionId := some submissionId
    status := .done
    finalVerdict := some .fail
    finalQualityScore := some 0 }

/-- `respondWithExistingSubmission`. -/
def respondWithExistingSubmission (jobId : Nat) (job : Job) (submissionId : Nat) :
    Code (Http Submitted) := do
  onlyIf (job.currentSubmissionId = none) (updateJob jobId (job.healed submissionId))
  let latestVer ← ask (.latestVerification submissionId)
  return .ok
    ⟨(job.healed submissionId).status = .done, job.healed submissionId, submissionId, latestVer⟩

/-- A new, unclaimed verification. -/
def Verification.queued (id : Nat) : Verification where
  id := id
  status := .queued
  claimToken := none
  claimedBy := none
  claimExpiresAt := none
  verdict := none
  reason := none
  qualityScore := none

/-- Create the first verification of a submission and enqueue it. -/
def requestVerification (submissionId : Nat) : Code Nat := do
  let id ← nanoid
  addVerification submissionId 1 (.queued id)
  enqueueOutbox (.verification submissionId 1) none
  return id

/-- The heal path for a submission found by its idempotency key. -/
def resumeSubmission (jobId workerId : Nat) (job : Job) (submissionId : Nat)
    (artifactIndex : List ArtifactRef) : Code (Http Submitted) := do
  match ← attachOrReject submissionId jobId workerId artifactIndex with
  | some message => return .error 400 "invalid_artifact" message
  | none =>
      match ← findVerificationBySubmission submissionId 1 with
      | none =>
          let _ ← requestVerification submissionId
          heal
      | some existingVer =>
          onlyIf (existingVer.status = .queued) (enqueueOutbox (.verification submissionId 1) none)
          heal
where
  heal : Code (Http Submitted) := do
    if job.status = .claimed ∨ job.status = .opened then
      updateJob jobId (job.verifyingAs submissionId)
      respondWithExistingSubmission jobId (job.verifyingAs submissionId) submissionId
    else respondWithExistingSubmission jobId job submissionId

/-- The row of a new submission. -/
def Submission.new (cfg : Config) (jobId workerId : Nat) (idempotencyKey : Option Nat)
    (body : SubmitBody) (duplicate : Bool) (now : Nat) : Submission where
  jobId := jobId
  workerId := workerId
  idempotencyKey := idempotencyKey
  requestHash := some (body.requestHash cfg)
  manifest := body.manifest
  status := if duplicate then .duplicate else .submitted
  dedupeKey := some (body.manifest.dedupeKey cfg)
  finalVerdict := none
  finalReason := none
  finalQualityScore := none
  payoutStatus := some .none
  createdAt := now

/-- The main path: create the submission, then its verification, then move the job. -/
def createSubmission (cfg : Config) (jobId workerId : Nat) (job : Job)
    (idempotencyKey : Option Nat) (body : SubmitBody) : Code (Http Submitted) := do
  let duplicate ← ask (.isAcceptedDuplicate job.bountyId (body.manifest.dedupeKey cfg))
  let submissionId ← nanoid
  let now ← dateNow
  addSubmission submissionId (.new cfg jobId workerId idempotencyKey body duplicate now)
  match ← attachOrReject submissionId jobId workerId body.artifactIndex with
  | some message => return .error 400 "invalid_artifact" message
  | none =>
      if duplicate then
        updateJob jobId (job.duplicateAs submissionId)
        return .ok ⟨true, job.duplicateAs submissionId, submissionId, none⟩
      else
        let verificationId ← requestVerification submissionId
        updateJob jobId (job.verifyingAs submissionId)
        return .ok ⟨false, job.verifyingAs submissionId, submissionId, some verificationId⟩

/-- The checks on a new submission, after the idempotency checks. -/
def checkAndCreate (cfg : Config) (jobId workerId : Nat) (job : Job)
    (idempotencyKey : Option Nat) (body : SubmitBody) : Code (Http Submitted) := do
  let now ← dateNow
  if job.isStale now then return .error 409 "stale_job" "Job is stale (freshness SLA exceeded)"
  else
    let bounty ← getBountyOrThrow job.bountyId
    match body.manifest.finalUrl with
    | .malformed => return .error 400 "invalid" "finalUrl must be a valid URL"
    | .absent => createSubmission cfg jobId workerId job idempotencyKey body
    | .origin o =>
        if o ∉ bounty.allowedOrigins then
          return .error 400 "origin_violation" "finalUrl outside allowedOrigins"
        else createSubmission cfg jobId workerId job idempotencyKey body

/-- Idempotency path 2, or a new submission. -/
def submitByKey (cfg : Config) (jobId workerId : Nat) (job : Job)
    (idempotencyKey : Option Nat) (body : SubmitBody) : Code (Http Submitted) := do
  match idempotencyKey with
  | none => checkAndCreate cfg jobId workerId job none body
  | some key =>
      match ← ask (.submissionByKey jobId workerId key) with
      | none => checkAndCreate cfg jobId workerId job (some key) body
      | some (existingId, existing) =>
          if existing.requestHash.any fun h => decide (h ≠ body.requestHash cfg) then
            return .error 409 "idempotency_conflict" "Idempotency-Key reuse with different payload"
          else resumeSubmission jobId workerId job existingId body.artifactIndex

/-- The submit route for the job row it has read. -/
def submitJob (cfg : Config) (workerId jobId : Nat) (idempotencyKey : Option Nat)
    (body : SubmitBody) (job : Job) : Code (Http Submitted) := do
  if job.leaseWorkerId ≠ some workerId then
    return .error 409 "not_owner" "Worker does not hold lease"
  else
    let now ← dateNow
    if isLeaseExpired job.leaseExpiresAt now then
      return .error 409 "lease_expired" "Lease expired"
    else
      match job.currentSubmissionId with
      | none => submitByKey cfg jobId workerId job idempotencyKey body
      | some current =>
          match ← getSubmission current with
          | none => submitByKey cfg jobId workerId job idempotencyKey body
          | some existing =>
              if existing.workerId = workerId then respondWithExistingSubmission jobId job current
              else submitByKey cfg jobId workerId job idempotencyKey body

/-- `POST /api/jobs/:jobId/submit`. -/
def submitRoute (cfg : Config) (workerId jobId : Nat) (idempotencyKey : Option Nat)
    (body : SubmitBody) : Code (Http Submitted) := do
  match ← getJob jobId with
  | none => return .error 404 "not_found" "Job not found"
  | some job => submitJob cfg workerId jobId idempotencyKey body job

end OpenUnion
