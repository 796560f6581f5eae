import OpenUnion.Code.Jobs
import OpenUnion.Code.Scanner

/-!
# Artifacts

What is uploaded for a job is an artifact: a row, and a file (local backend) or an object in
one of three buckets (S3).  An upload is scanned before it can be downloaded or attached to a
submission.  With the local backend the upload itself scans; with S3 the completion of an
upload enqueues a scan, which `scanner-runner` delivers.

No request here opens a transaction, except for the claim of a batch of scan events, which is
one statement.  Artifacts are created before the run, presigned.
-/

namespace OpenUnion.Storage

open Interleave

/-- `artifacts.status`. -/
inductive ArtifactStatus where
  | presigned | uploaded | scanned | accepted | scanFailed | blocked | deleted
  deriving DecidableEq

/-- `BucketKind`. -/
inductive BucketKind where
  | staging | clean | quarantine
  deriving DecidableEq

/-- `artifacts`. -/
structure Artifact where
  submissionId : Option Nat
  jobId : Option Nat
  workerId : Option Nat
  kind : String
  label : String
  sha256 : Option String
  storageKey : Option String
  contentType : Option String
  sizeBytes : Option Nat
  status : ArtifactStatus
  bucketKind : Option BucketKind
  scanEngine : Option String
  scanReason : Option String
  quarantineKey : Option String
  deletedAt : Option Nat
  deriving DecidableEq

/-- The artifact can be downloaded and attached. -/
def Artifact.servable (a : Artifact) : Bool := decide (a.status = .scanned ∨ a.status = .accepted)

/-- An element of `artifactIndex`. -/
structure ArtifactRef where
  kind : String
  label : String
  sha256 : String
  url : String
  sizeBytes : Option Nat
  contentType : Option String

/-- The updates of a row of `artifacts`, one for each `UPDATE` of the code. -/
inductive ArtifactUpdate where
  | attached (submissionId : Nat) (kind label sha256 : String) (contentType : Option String)
      (sizeBytes : Option Nat)
  /-- A local upload has written its file. -/
  | uploaded (contentType : String) (sizeBytes : Nat)
  /-- An upload to S3 is complete. -/
  | completed (sha256 : Option String) (sizeBytes : Option Nat)
  /-- A scan has read the object; a content type that is unknown is not set. -/
  | scanStarted (contentType : Option String) (sizeBytes : Nat)
  /-- A scan was `ok`; the worker upload records no engine, and a scan of S3 has moved the
  object to the clean bucket. -/
  | scanned (engine : Option String) (moved : Bool)
  | scanFailed (engine reason : String) (moved : Bool)
  /-- A scan or an admin has blocked the artifact. -/
  | blocked (engine reason : Option String) (quarantineKey : Option String)
  /-- The admin quarantine of an object that is in quarantine, which sets no engine. -/
  | blockedAgain (reason : String)
  | scanReason (reason : String)
  | deleted (at' : Nat)
  deriving DecidableEq

/-- The status an update sets. -/
def ArtifactUpdate.status : ArtifactUpdate → Option ArtifactStatus
  | .uploaded _ _ | .completed _ _ | .scanStarted _ _ => some .uploaded
  | .scanned _ _ => some .scanned
  | .scanFailed _ _ _ => some .scanFailed
  | .blocked _ _ _ | .blockedAgain _ => some .blocked
  | .deleted _ => some .deleted
  | .attached .. | .scanReason _ => none

/-- The row after an update. -/
def Artifact.set (u : ArtifactUpdate) (a : Artifact) : Artifact :=
  let row := { a with status := u.status.getD a.status }
  match u with
  | .attached submissionId kind label sha256 contentType sizeBytes =>
      { row with
        submissionId := some submissionId
        kind := kind
        label := label
        sha256 := some sha256
        contentType := contentType
        sizeBytes := sizeBytes }
  | .uploaded contentType sizeBytes =>
      { row with contentType := some contentType, sizeBytes := some sizeBytes }
  | .completed sha256 sizeBytes => { row with sha256 := sha256, sizeBytes := sizeBytes }
  | .scanStarted contentType sizeBytes =>
      { row with contentType := contentType.or a.contentType, sizeBytes := some sizeBytes }
  | .scanned none _ => row
  | .scanned (some engine) moved =>
      let scanned := { row with scanEngine := some engine, scanReason := none }
      if moved then { scanned with bucketKind := some .clean, quarantineKey := none } else scanned
  | .scanFailed engine reason moved =>
      let failed := { row with scanEngine := some engine, scanReason := some reason }
      if moved then { failed with bucketKind := some .staging, quarantineKey := none } else failed
  | .blocked engine reason quarantineKey =>
      let blocked := { row with
        scanEngine := engine.or a.scanEngine
        scanReason := reason.or a.scanReason }
      match quarantineKey with
      | some key => { blocked with bucketKind := some .quarantine, quarantineKey := some key }
      | none => blocked
  | .blockedAgain reason | .scanReason reason => { row with scanReason := some reason }
  | .deleted now => { row with deletedAt := some now }

/-- An outbox event of topic `artifact.scan.requested`; its key is the artifact. -/
structure ScanEvent where
  status : OutboxStatus
  attempts : Nat
  availableAt : Nat
  lockedAt : Option Nat
  lastError : Option String

/-- What of a job the completion of an upload checks. -/
structure JobLease where
  leaseWorkerId : Option Nat
  leaseExpiresAt : Option Nat

/-- The database, the disk, the buckets and the antivirus engine. -/
structure World where
  now : Nat
  /-- The keys of `artifacts`. -/
  ids : List String
  artifacts : String → Option Artifact
  jobs : Nat → Option JobLease
  orgOfJob : Nat → Option Nat
  orgOfSubmission : Nat → Option Nat
  /-- The submissions whose verification has started. -/
  verifying : Nat → Bool
  events : String → Option ScanEvent
  /-- The keys of the events, oldest first. -/
  eventIds : List String
  /-- The files of the local backend by their absolute path. -/
  files : String → Option Bytes
  /-- The objects by bucket and key. -/
  objects : String → String → Option Bytes
  antivirus : Bytes → ScanResult

/-- `STORAGE_BACKEND`. -/
inductive Backend where
  | local' | s3
  deriving DecidableEq

/-- The settings of the server. -/
structure StorageEnv extends ScannerEnv where
  backend : Backend
  maxUploadBytes : Nat
  rootDir : String
  /-- `path.resolve(rootDir, storageKey)`. -/
  resolveKey : String → String
  bucketForKind : BucketKind → String
  /-- The path name of `new URL(url)`, unless it throws. -/
  pathname : String → Option String
  maxScanAttempts : Nat
  outboxLockTimeoutMs : Nat

/-- `ALLOWED_CONTENT_TYPES`. -/
def allowedContentTypes : List String :=
  ["image/png", "image/jpeg", "application/pdf", "application/json", "text/plain",
    "application/zip", "video/mp4", "application/octet-stream"]

/-- `process.env.SCANNER_ENGINE ?? 'basic'`. -/
def StorageEnv.engineName (env : StorageEnv) : String := env.engine.getD "basic"

/-- The file of a storage key, unless it is outside the root directory. -/
def StorageEnv.localPath (env : StorageEnv) (storageKey : String) : Option String :=
  let filePath := env.resolveKey storageKey
  if startsWith filePath env.rootDir then some filePath else none

/-- `extractArtifactIdFromUrl`. -/
def StorageEnv.artifactIdOfUrl (env : StorageEnv) (url : String) : Option String :=
  let path := ((env.pathname url).getD url).toList
  let start := "/api/artifacts/".toList
  let rest := path.drop start.length
  let id := rest.takeWhile (· ≠ '/')
  if start <+: path ∧ id ≠ [] ∧ rest.drop id.length = "/download".toList then
    some (String.ofList id)
  else none

/-- The statements. -/
inductive Stmt where
  | now
  | select (id : String)
  | job (jobId : Nat)
  | orgOfJob (jobId : Nat)
  | orgOfSubmission (submissionId : Nat)
  | update (id : String) (u : ArtifactUpdate)
  /-- `markSubmissionArtifactsAccepted`; the answer is which rows it has changed. -/
  | acceptAll (submissionId : Nat)
  /-- `enqueueOutbox('artifact.scan.requested', ...)`. -/
  | enqueueScan (id : String)
  /-- `claimOutboxBatch` for the topic: the events taken, with the number of their attempt. -/
  | claimScans
  | markSent (id : String)
  | reschedule (id : String) (error : String) (delayMs : Nat)
  | markDead (id : String) (error : String)
  | writeFile (path : String) (bytes : Bytes)
  | readFile (path : String)
  | unlink (path : String)
  /-- `scanBytes`. -/
  | scan (bytes : Bytes) (contentType : Option String)
  | getObject (bucket key : String)
  /-- Whether the object was there to be copied. -/
  | copyObject (bucket key target : String)
  | deleteObject (bucket key : String)
  deriving DecidableEq

/-- What a statement answers. -/
@[reducible] def Stmt.Val : Stmt → Type
  | .now => Nat
  | .select _ => Option Artifact
  | .job _ => Option JobLease
  | .orgOfJob _ | .orgOfSubmission _ => Option Nat
  | .acceptAll _ => List String
  | .claimScans => List (String × Nat)
  | .readFile _ | .getObject _ _ => Option Bytes
  | .scan _ _ => ScanResult
  | .copyObject _ _ _ => Bool
  | .update _ _ | .enqueueScan _ | .markSent _ | .reschedule _ _ _ | .markDead _ _
  | .writeFile _ _ | .unlink _ | .deleteObject _ _ => Unit

/-- A part of a request.  What is thrown is the message of the error. -/
abbrev Code := Prog Stmt Stmt.Val Empty String

/-- One statement. -/
def run (s : Stmt) : Code s.Val := perform s

/-- `await promise.catch(() => undefined)`. -/
def attempt (p : Code Unit) : Code Unit := p.orElse fun _ => .ret ()

section Uploads

variable (env : StorageEnv)

/-- The path a local upload writes to. -/
def StorageEnv.uploadPath (env : StorageEnv) (id : String) (row : Artifact) : Option String :=
  env.localPath (row.storageKey.getD ("artifacts/" ++ id ++ "/blob"))

/-- What is left of an upload when its file is written and the row is marked. -/
def scanUpload (id path : String) (bytes : Bytes) (contentType : String)
    (scanned : ArtifactUpdate) (blocked : ScanResult → ArtifactUpdate) : Code Unit := do
  let scan ← run (.scan bytes (some contentType))
  if !scan.ok then do
    attempt (run (.unlink path))
    run (.update id (blocked scan))
    throw (scan.reason.getD "malware_detected")
  else run (.update id scanned)

/-- A local upload of an artifact that passes `allowed`. -/
def putUpload (id : String) (bytes : Bytes) (contentType : Option String)
    (allowed : Artifact → Bool) (scanned : ArtifactUpdate)
    (blocked : ScanResult → ArtifactUpdate) : Code Unit := do
  match ← run (.select id) with
  | none => throw "artifact_not_found"
  | some row =>
      let contentType := (contentType.or row.contentType).getD "application/octet-stream"
      if !allowed row then throw "forbidden"
      else if contentType ∉ allowedContentTypes then throw "content_type_not_allowed"
      else if env.maxUploadBytes < bytes.length then throw "too_large"
      else
        match env.uploadPath id row with
        | none => throw "invalid_storage_key"
        | some path => do
            run (.writeFile path bytes)
            run (.update id (.uploaded contentType bytes.length))
            scanUpload id path bytes contentType scanned blocked

/-- `putLocalUpload`. -/
def putLocalUpload (id : String) (workerId : Nat) (bytes : Bytes) (contentType : Option String) :
    Code Unit :=
  putUpload env id bytes contentType (fun row => row.workerId.all (· = workerId))
    (.scanned none false) fun _ => .blocked none none none

/-- `putVerifierLocalUpload`. -/
def putVerifierLocalUpload (id : String) (bytes : Bytes) (contentType : Option String) :
    Code Unit :=
  putUpload env id bytes contentType (fun row => row.workerId.isNone)
    (.scanned (some env.engineName) false) fun scan =>
      .blocked (some env.engineName) (some (scan.reason.getD "malware_detected")) none

end Uploads

section Attaching

variable (env : StorageEnv)

/-- Attach one reference. -/
def attachRef (submissionId jobId workerId : Nat) (ref : ArtifactRef) : Code Unit :=
  match env.artifactIdOfUrl ref.url with
  | none => .ret ()
  | some id => do
      match ← run (.select id) with
      | none => throw "artifact_not_found"
      | some art =>
          if art.deletedAt.isSome then throw "artifact_deleted"
          else if art.workerId.any (· ≠ workerId) then throw "artifact_forbidden"
          else if art.jobId.any (· ≠ jobId) then throw "artifact_wrong_job"
          else if art.status = .blocked then throw "artifact_blocked"
          else if !art.servable then throw "artifact_not_scanned"
          else
            run (.update id (.attached submissionId ref.kind ref.label ref.sha256
              (ref.contentType.or art.contentType) (ref.sizeBytes.or art.sizeBytes)))

/-- `attachSubmissionArtifacts`. -/
def attachSubmissionArtifacts (submissionId jobId workerId : Nat) (refs : List ArtifactRef) :
    Code Unit :=
  forEach (attachRef env submissionId jobId workerId) refs

/-- `markSubmissionArtifactsAccepted`. -/
def markSubmissionArtifactsAccepted (submissionId : Nat) : Code Unit := do
  let _ ← run (.acceptAll submissionId)
  return ()

end Attaching

section Scanning

variable (env : StorageEnv)

/-- Read the bytes to scan. -/
def readObject (key : String) : Code Bytes :=
  match env.backend with
  | .local' =>
      match env.localPath key with
      | none => throw "invalid_storage_key"
      | some path => do
          match ← run (.readFile path) with
          | none => throw "ENOENT"
          | some bytes => return bytes
  | .s3 => do
      match ← run (.getObject (env.bucketForKind .staging) key) with
      | none => throw "artifact_body_missing"
      | some bytes => if env.maxUploadBytes < bytes.length then throw "too_large" else return bytes

/-- Move an object to another bucket. -/
def moveObject (source target : BucketKind) (key : String) : Code Unit := do
  let there ← run (.copyObject (env.bucketForKind source) key (env.bucketForKind target))
  if !there then throw "NoSuchKey"
  else run (.deleteObject (env.bucketForKind source) key)

/-- `deleteStorageObject`, for the local backend. -/
def deleteStorageObject (key : String) : Code Unit :=
  match env.localPath key with
  | none => throw "invalid_storage_key"
  | some path => attempt (run (.unlink path))

/-- What a scan does with its result. -/
def finishScan (id key : String) (scan : ScanResult) : Code Unit :=
  let reason := scan.reason.getD "scan_failed"
  let onS3 := decide (env.backend = .s3)
  if scan.ok then do
    if onS3 then moveObject env .staging .clean key
    run (.update id (.scanned (some env.engineName) onS3))
  else if isRetryable env.toScannerEnv reason then do
    run (.update id (.scanFailed env.engineName reason onS3))
    throw reason
  else do
    if onS3 then moveObject env .staging .quarantine key else deleteStorageObject env key
    run (.update id (.blocked (some env.engineName) (some reason) (if onS3 then some key else none)))
    throw reason

/-- `scanArtifactObject`. -/
def scanArtifactObject (id : String) : Code Unit := do
  match ← run (.select id) with
  | none => return ()
  | some row =>
      if row.deletedAt.isSome then return ()
      else
        match row.storageKey with
        | none => throw "artifact_missing_storage_key"
        | some key =>
            if row.status ∈ [.scanned, .accepted, .blocked, .deleted] then return ()
            else do
              let bytes ← readObject env key
              run (.update id (.scanStarted row.contentType (row.sizeBytes.getD bytes.length)))
              let scan ← run (.scan bytes row.contentType)
              finishScan env id key scan

/-- What the outbox loop does with a scan that has thrown. -/
def scanHandlerFailed (id : String) (attemptNo : Nat) (message : String) : Code Unit :=
  if max 10 (min 1000 env.maxScanAttempts) ≤ attemptNo then run (.markDead id message)
  else run (.reschedule id message (min 60 (2 ^ min 10 (attemptNo - 1)) * 1000))

/-- Deliver one event of `scanner-runner`. -/
def deliverScan (evt : String × Nat) : Code Unit :=
  ((scanArtifactObject env evt.1).bind fun _ => run (.markSent evt.1)).orElse
    (scanHandlerFailed env evt.1 evt.2)

/-- One round of `scanner-runner`. -/
def scannerRound : Code Unit := do
  let batch ← run .claimScans
  forEach (deliverScan env) batch

end Scanning

section Removing

variable (env : StorageEnv)

/-- Remove the stored bytes of an artifact. -/
def removeStored (row : Artifact) : Code Unit :=
  match row.storageKey with
  | none => .ret ()
  | some key =>
      match env.backend with
      | .local' => deleteStorageObject env key
      | .s3 => run (.deleteObject (env.bucketForKind (row.bucketKind.getD .staging)) key)

/-- `deleteArtifactObject`. -/
def deleteArtifactObject (id : String) : Code Unit := do
  match ← run (.select id) with
  | none => return ()
  | some row =>
      if row.deletedAt.isSome then return ()
      else do
        removeStored env row
        let now ← run .now
        run (.update id (.deleted now))

/-- The object of an artifact is put in quarantine. -/
def quarantineObject (id key reason : String) (row : Artifact) : Code Unit :=
  let engine := some (row.scanEngine.getD "admin")
  match env.backend with
  | .local' => run (.update id (.blocked engine (some reason) none))
  | .s3 =>
      let kind := row.bucketKind.getD .staging
      if kind = .quarantine then run (.update id (.blockedAgain reason))
      else do
        moveObject env (if kind = .clean then .clean else .staging) .quarantine key
        run (.update id (.blocked engine (some reason) (some key)))

/-- `quarantineArtifactObjectAdmin`. -/
def quarantineArtifactObjectAdmin (id reason : String) : Code Unit :=
  if id = "" then throw "artifact_not_found"
  else if trimmed reason = "" then throw "invalid_reason"
  else do
    match ← run (.select id) with
    | none => throw "artifact_not_found"
    | some row =>
        if row.deletedAt.isSome then throw "artifact_not_found"
        else
          match row.storageKey with
          | none => throw "artifact_missing_storage_key"
          | some key =>
              let scanReason := sliced ("admin_quarantine:" ++ trimmed reason) 2000
              if row.status = .blocked then run (.update id (.scanReason scanReason))
              else quarantineObject env id key scanReason row

end Removing

end OpenUnion.Storage
