import OpenUnion.Code.Storage

/-!
# The requests about artifacts

The routes that upload, complete, download, quarantine and delete artifacts, the part of the
submit route and of the pass verdict that concerns artifacts, and the deliveries of the
outbox, over one database, disk and set of buckets.  The outside moves the clock, the leases of
jobs and the antivirus engine, puts objects into the staging bucket and starts verifications.
-/

namespace OpenUnion.Storage

open Interleave

/-- Who asks for a download. -/
inductive Reader where
  | admin | verifier
  | worker (id : Nat)
  | buyer (orgId : Nat)

/-- The answer of a request. -/
inductive Reply where
  | ok
  /-- An error; a download that is refused for the status of the artifact tells it. -/
  | error (status : Nat) (code message : String) (detail : Option (ArtifactStatus × Option String))
  | file (contentType : String) (bytes : Bytes)
  /-- A presigned URL of an object. -/
  | redirect (bucket key : String)
  deriving DecidableEq

/-- An error without detail. -/
def Reply.refused (status : Nat) (code message : String) : Reply := .error status code message none

/-- The requests. -/
inductive Request where
  /-- `PUT /api/uploads/local/:artifactId`; no bytes if the body is not binary. -/
  | upload (id : String) (workerId : Nat) (bytes : Option Bytes) (contentType : Option String)
  /-- `PUT /api/verifier/uploads/local/:artifactId`. -/
  | verifierUpload (id : String) (bytes : Option Bytes) (contentType : Option String)
  /-- `POST /api/uploads/complete`. -/
  | complete (id : String) (workerId : Nat) (sha256 : Option String) (sizeBytes : Option Nat)
  /-- `POST /api/verifier/uploads/complete`. -/
  | verifierComplete (id : String) (sha256 : Option String) (sizeBytes : Option Nat)
  /-- A round of `scanner-runner`. -/
  | scannerRound
  /-- A delivery of `artifact.delete.requested`. -/
  | deliverDelete (id : String)
  /-- `POST /api/admin/artifacts/:artifactId/delete`. -/
  | adminDelete (id : String)
  /-- `POST /api/admin/artifacts/:artifactId/quarantine`. -/
  | quarantine (id reason : String)
  /-- The submit route, new or replayed, once it has its submission. -/
  | submit (submissionId jobId workerId : Nat) (refs : List ArtifactRef)
  /-- A pass verdict. -/
  | accept (submissionId : Nat)
  /-- `GET /api/artifacts/:artifactId/download`. -/
  | download (reader : Reader) (id : String)

section Routes

variable (env : StorageEnv)

/-- The upload routes. -/
def uploadRoute (bytes : Option Bytes) (put : Bytes → Code Unit) : Code Reply :=
  match bytes with
  | none => return .refused 400 "invalid" "Expected binary body"
  | some bytes =>
      ((put bytes).bind fun _ => .ret .ok).orElse fun message =>
        .ret (.refused
          (if message = "artifact_not_found" then 404 else if message = "forbidden" then 403 else 400)
          "invalid" message)

/-- What a completion does when its checks have passed. -/
def markComplete (id : String) (sha256 : Option String) (sizeBytes : Option Nat) (art : Artifact) :
    Code Reply :=
  if env.backend ≠ .s3 then return .ok
  else do
    run (.update id (.completed (sha256.or art.sha256) (sizeBytes.or art.sizeBytes)))
    run (.enqueueScan id)
    return .ok

/-- `POST /api/uploads/complete`. -/
def completeRoute (id : String) (workerId : Nat) (sha256 : Option String)
    (sizeBytes : Option Nat) : Code Reply := do
  match ← run (.select id) with
  | none => return .refused 404 "not_found" "Artifact not found"
  | some art =>
      if art.deletedAt.isSome then return .refused 404 "not_found" "Artifact not found"
      else if art.workerId.any (· ≠ workerId) then return .refused 403 "forbidden" "forbidden"
      else
        match art.jobId with
        | none => return .refused 409 "invalid" "Artifact not associated with a job"
        | some jobId => do
            match ← run (.job jobId) with
            | none => return .refused 404 "not_found" "Job not found"
            | some job =>
                if job.leaseWorkerId ≠ some workerId then
                  return .refused 409 "not_owner" "Worker does not hold lease"
                else do
                  let now ← run .now
                  if isLeaseExpired job.leaseExpiresAt now then
                    return .refused 409 "lease_expired" "Lease expired"
                  else markComplete env id sha256 sizeBytes art

/-- `POST /api/verifier/uploads/complete`. -/
def verifierCompleteRoute (id : String) (sha256 : Option String) (sizeBytes : Option Nat) :
    Code Reply := do
  match ← run (.select id) with
  | none => return .refused 404 "not_found" "Artifact not found"
  | some art =>
      if art.deletedAt.isSome then return .refused 404 "not_found" "Artifact not found"
      else if art.workerId.isSome then return .refused 403 "forbidden" "forbidden"
      else if art.submissionId.isNone then
        return .refused 409 "invalid" "Artifact not associated with a submission"
      else markComplete env id sha256 sizeBytes art

/-- `getArtifactAccessInfo`: the row with the organisation it belongs to. -/
def getArtifactAccessInfo (id : String) : Code (Option (Artifact × Option Nat)) := do
  match ← run (.select id) with
  | none => return none
  | some art =>
      match art.jobId, art.submissionId with
      | some jobId, _ => do
          let orgId ← run (.orgOfJob jobId)
          return some (art, orgId)
      | none, some submissionId => do
          let orgId ← run (.orgOfSubmission submissionId)
          return some (art, orgId)
      | none, none => return some (art, none)

/-- The reader may have the artifact. -/
def Reader.mayRead (art : Artifact) (orgId : Option Nat) : Reader → Bool
  | .admin | .verifier => true
  | .worker id => decide (art.workerId = some id)
  | .buyer org => decide (orgId = some org)

/-- `presignArtifactDownloadUrl`, for S3: the bucket and the key of the object. -/
def presignArtifactDownloadUrl (id : String) : Code (String × String) := do
  match ← run (.select id) with
  | none => throw "artifact_not_found"
  | some row =>
      match row.storageKey with
      | none => throw "artifact_missing_storage_key"
      | some key =>
          if !row.servable then throw "artifact_not_scanned"
          else if row.bucketKind ≠ some .clean then throw "artifact_not_in_clean_bucket"
          else return (env.bucketForKind .clean, key)

/-- Send the bytes of an artifact that may be read. -/
def serve (id key : String) (art : Artifact) : Code Reply :=
  match env.backend with
  | .local' =>
      match env.localPath key with
      | none => return .refused 404 "not_found" "invalid_storage_key"
      | some path => do
          match ← run (.readFile path) with
          | none => return .refused 500 "internal" "ENOENT"
          | some bytes => return .file (art.contentType.getD "application/octet-stream") bytes
  | .s3 =>
      ((presignArtifactDownloadUrl env id).bind fun object =>
        .ret (.redirect object.1 object.2)).orElse fun message =>
          .ret (.refused
            (if includes message "not_scanned" || includes message "not_in_clean" then 409 else 400)
            "invalid" message)

/-- `GET /api/artifacts/:artifactId/download`. -/
def downloadRoute (reader : Reader) (id : String) : Code Reply := do
  match ← getArtifactAccessInfo id with
  | none => return .refused 404 "not_found" "artifact not found"
  | some (art, orgId) =>
      if art.deletedAt.isSome then return .refused 404 "not_found" "artifact not found"
      else
        match art.storageKey with
        | none => return .refused 409 "not_ready" "artifact missing storage key"
        | some key =>
            if art.status = .blocked then
              return .error 422 "blocked" "artifact blocked by scanner" (some (art.status, art.scanReason))
            else if !art.servable then
              return .error 409 "not_ready" "artifact not scanned yet" (some (art.status, art.scanReason))
            else if !reader.mayRead art orgId then return .refused 403 "forbidden" "forbidden"
            else serve env id key art

/-- `POST /api/admin/artifacts/:artifactId/delete`. -/
def adminDeleteRoute (id : String) : Code Reply := do
  match ← getArtifactAccessInfo id with
  | none => return .refused 404 "not_found" "artifact not found"
  | some (art, _) =>
      if art.deletedAt.isSome then return .refused 404 "not_found" "artifact not found"
      else do
        deleteArtifactObject env id
        return .ok

/-- `POST /api/admin/artifacts/:artifactId/quarantine`. -/
def quarantineRoute (id reason : String) : Code Reply :=
  ((quarantineArtifactObjectAdmin env id reason).bind fun _ => .ret .ok).orElse fun message =>
    .ret (.refused (if includes message "not_found" then 404 else 400) "invalid" message)

/-- The artifacts of a submission that the submit route has. -/
def submitRoute (submissionId jobId workerId : Nat) (refs : List ArtifactRef) : Code Reply :=
  ((attachSubmissionArtifacts env submissionId jobId workerId refs).bind fun _ =>
    .ret .ok).orElse fun message => .ret (.refused 400 "invalid_artifact" message)

/-- Answer when a part has ended. -/
def answered (p : Code Unit) : Code Reply := p.bind fun _ => .ret .ok

/-- The program of a request. -/
def Request.code : Request → Code Reply
  | .upload id workerId bytes contentType =>
      uploadRoute bytes fun bytes => putLocalUpload env id workerId bytes contentType
  | .verifierUpload id bytes contentType =>
      uploadRoute bytes fun bytes => putVerifierLocalUpload env id bytes contentType
  | .complete id workerId sha256 sizeBytes => completeRoute env id workerId sha256 sizeBytes
  | .verifierComplete id sha256 sizeBytes => verifierCompleteRoute env id sha256 sizeBytes
  | .scannerRound => answered (Storage.scannerRound env)
  | .deliverDelete id => answered (deleteArtifactObject env id)
  | .adminDelete id => adminDeleteRoute env id
  | .quarantine id reason => quarantineRoute env id reason
  | .submit submissionId jobId workerId refs => submitRoute env submissionId jobId workerId refs
  | .accept submissionId => answered (markSubmissionArtifactsAccepted submissionId)
  | .download reader id => downloadRoute env reader id

end Routes

section Statements

variable (env : StorageEnv)

/-- The artifacts of a submission. -/
def World.attached (w : World) (submissionId : Nat) : List String :=
  w.ids.filter fun id => (w.artifacts id).any fun a => decide (a.submissionId = some submissionId)

/-- Change a row, if there is one. -/
def World.modify (w : World) (id : String) (f : Artifact → Artifact) : World :=
  { w with artifacts := Function.update w.artifacts id ((w.artifacts id).map f) }

/-- Change an event, if there is one. -/
def World.modifyEvent (w : World) (id : String) (f : ScanEvent → ScanEvent) : World :=
  { w with events := Function.update w.events id ((w.events id).map f) }

/-- The events of which a stale lock has been released. -/
def World.released (env : StorageEnv) (w : World) (id : String) : Option ScanEvent :=
  (w.events id).map fun e =>
    if e.status = .processing ∧ e.lockedAt.any (fun t => decide (t + env.outboxLockTimeoutMs < w.now))
    then { e with status := .pending, lockedAt := none }
    else e

/-- The batch that is taken, with the number of the attempts. -/
def World.dueScans (env : StorageEnv) (w : World) : List (String × Nat) :=
  (w.eventIds.filterMap fun id => (w.released env id).bind fun e =>
    if e.status = .pending ∧ e.availableAt ≤ w.now then some (id, e.attempts + 1) else none).take 25

/-- The event of an artifact once the batch has been taken. -/
def World.claimed (env : StorageEnv) (w : World) (id : String) : Option ScanEvent :=
  (w.released env id).map fun e =>
    if id ∈ (w.dueScans env).map Prod.fst then
      { e with status := .processing, lockedAt := some w.now, attempts := e.attempts + 1 }
    else e

/-- What a statement answers. -/
def Stmt.result : (s : Stmt) → World → s.Val
  | .now, w => w.now
  | .select id, w => w.artifacts id
  | .job jobId, w => w.jobs jobId
  | .orgOfJob jobId, w => w.orgOfJob jobId
  | .orgOfSubmission submissionId, w => w.orgOfSubmission submissionId
  | .acceptAll submissionId, w => w.attached submissionId
  | .claimScans, w => w.dueScans env
  | .readFile path, w => w.files path
  | .scan bytes contentType, w => scanBytes env.toScannerEnv bytes contentType (w.antivirus bytes)
  | .getObject bucket key, w => w.objects bucket key
  | .copyObject bucket key _, w => (w.objects bucket key).isSome
  | .update _ _, _ | .enqueueScan _, _ | .markSent _, _ | .reschedule _ _ _, _ | .markDead _ _, _
  | .writeFile _ _, _ | .unlink _, _ | .deleteObject _ _, _ => ()

/-- Replace an object. -/
def World.putObject (w : World) (bucket key : String) (bytes : Option Bytes) : World :=
  { w with
    objects := Function.update w.objects bucket (Function.update (w.objects bucket) key bytes) }

/-- What a statement changes. -/
def Stmt.write : Stmt → World → World
  | .update id u, w => w.modify id (Artifact.set u)
  | .acceptAll submissionId, w =>
      { w with artifacts := fun id => (w.artifacts id).map fun a =>
          if id ∈ w.attached submissionId then { a with status := .accepted } else a }
  | .enqueueScan id, w =>
      if (w.events id).isSome then w
      else { w with
        events := Function.update w.events id (some ⟨.pending, 0, w.now, none, none⟩)
        eventIds := w.eventIds ++ [id] }
  | .claimScans, w => { w with events := w.claimed env }
  | .markSent id, w => w.modifyEvent id fun e => { e with status := .sent, lockedAt := none }
  | .reschedule id error delayMs, w => w.modifyEvent id fun e =>
      { e with
        status := .pending
        lastError := some (sliced error 5000)
        availableAt := w.now + delayMs
        lockedAt := none }
  | .markDead id error, w => w.modifyEvent id fun e =>
      { e with status := .deadletter, lastError := some (sliced error 5000), lockedAt := none }
  | .writeFile path bytes, w => { w with files := Function.update w.files path (some bytes) }
  | .unlink path, w => { w with files := Function.update w.files path none }
  | .copyObject bucket key target, w =>
      match w.objects bucket key with
      | some bytes => w.putObject target key (some bytes)
      | none => w
  | .deleteObject bucket key, w => w.putObject bucket key none
  | .now, w | .select _, w | .job _, w | .orgOfJob _, w | .orgOfSubmission _, w
  | .readFile _, w | .scan _ _, w | .getObject _ _, w => w

/-- The meaning of the statements.  Each commits by itself, so none waits for another. -/
def storageEngine : Engine Stmt Stmt.Val World Empty where
  result s _ w := s.result env w
  locks _ _ _ := []
  write s _ _ w := s.write env w
  effect _ _ _ w := w
  same _ _ _ := True
  same_refl _ _ := trivial
  same_trans _ _ _ _ _ _ := trivial
  write_same _ _ _ _ _ _ := trivial
  effect_same _ _ _ _ _ := trivial

end Statements

/-- A statement that a request has executed, with its answer. -/
structure Executed where
  req : Request
  stmt : Stmt
  val : stmt.Val

/-- What happens outside the requests. -/
inductive Outside where
  | tick (ms : Nat)
  | lease (jobId : Nat) (job : Option JobLease)
  | antivirus (engine : Bytes → ScanResult)
  /-- A client puts an object to a presigned URL. -/
  | putObject (key : String) (bytes : Bytes)
  /-- The verification of a submission starts. -/
  | verify (submissionId : Nat)

/-- A move of the outside. -/
def Outside.move (env : StorageEnv) : Outside → World → World
  | .tick ms, w => { w with now := w.now + ms }
  | .lease jobId job, w => { w with jobs := Function.update w.jobs jobId job }
  | .antivirus engine, w => { w with antivirus := engine }
  | .putObject key bytes, w => w.putObject (env.bucketForKind .staging) key (some bytes)
  | .verify submissionId, w =>
      { w with verifying := Function.update w.verifying submissionId true }

/-- The requests over one world.  Every statement is noted with its answer. -/
def storage (env : StorageEnv) :
    Machine Stmt Stmt.Val Empty String Reply Request World Empty Outside Executed where
  engine := storageEngine env
  code _ q := q.code env
  env e w := e.move env w
  env_same _ k _ := k.elim
  note a x _ :=
    match x with
    | .stmt s r => [⟨a.req, s, r⟩]
    | .commit t => t.elim
    | .reply _ => []

end OpenUnion.Storage
