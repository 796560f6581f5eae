import OpenUnion.Code.Clamd
import OpenUnion.Code.StorageRequests
import OpenUnion.Interleave.Solo
import OpenUnion.Safety.Artifacts

/-!
# What the paths make of a scan

An upload to the local backend scans by itself, for workers and for verifiers; the other scans
are those of `scanner-runner`, on either backend. Nothing else runs here.

Every result of `scanBytes` is clean, names a refused content or an infection, or reports a
failure of the engine (`scanBytes_outcome`). Clean bytes are scanned and refused ones blocked on
every path. After a failure of the engine the uploads block and delete, while the runner keeps
the artifact for another try unless the text of the failure speaks of an infection.

* `putUpload_solo`, `scanArtifact_solo`: the state each path leaves.
* `scan_paths_agree_iff`: when all paths reach the verdict that the result asks for.
-/

namespace OpenUnion.Storage

open Interleave

/-! ## Results of scans -/

/-- A failure of the engine. -/
inductive EngineFailure where
  | clamdTimeout
  | clamdNoResponse
  | clamdError (text : String)
  | clamdStreamError (text : String)
  | clamdUnknown (text : String)
  | clamavError (text : String)
  | clamavSpawnError (text : String)

def EngineFailure.reason : EngineFailure → String
  | .clamdTimeout => "clamd_timeout"
  | .clamdNoResponse => "clamd_no_response"
  | .clamdError text => "clamd_error:" ++ text
  | .clamdStreamError text => "clamd_stream_error:" ++ text
  | .clamdUnknown text => "clamd_unknown:" ++ text
  | .clamavError text => "clamav_error:" ++ text
  | .clamavSpawnError text => "clamav_spawn_error:" ++ text

/-- The reasons for content that is refused, and for infections. -/
def refusals : List String :=
  ["empty_file", "content_type_mismatch_png", "content_type_mismatch_jpeg",
    "content_type_mismatch_pdf", "content_type_mismatch_zip", "content_type_mismatch_text",
    "content_type_mismatch_json", "content_type_mismatch_mp4", "clamav_infected", "clamd_infected"]

/-- What a scan can come to. -/
inductive ScanOutcome where
  | clean
  | refused (reason : String) (h : reason ∈ refusals)
  | failed (failure : EngineFailure)

def ScanOutcome.result : ScanOutcome → ScanResult
  | .clean => .clean
  | .refused reason _ => .refused reason
  | .failed failure => .refused failure.reason

/-- The result is one of those. -/
def IsOutcome (r : ScanResult) : Prop := ∃ o : ScanOutcome, o.result = r

theorem isOutcome_refused {reason : String} (h : reason ∈ refusals) :
    IsOutcome (.refused reason) := ⟨.refused reason h, rfl⟩

theorem isOutcome_failed (failure : EngineFailure) : IsOutcome (.refused failure.reason) :=
  ⟨.failed failure, rfl⟩

theorem readReply_outcome (u : UpperCase) (resp : String) : IsOutcome (readReply u resp) := by
  unfold readReply
  dsimp only
  split_ifs
  · exact ⟨.clean, rfl⟩
  · exact isOutcome_refused (by decide)
  · exact isOutcome_failed .clamdNoResponse
  · exact isOutcome_failed (.clamdUnknown _)

theorem scanOnce_outcome (u : UpperCase) {resp : List Char} {events : List SocketEvent}
    {r : ScanResult} (h : scanOnce u resp events = some r) : IsOutcome r := by
  induction events generalizing resp with
  | nil => cases h
  | cons event events ih =>
      cases event with
      | data chunk => exact ih h
      | timeout =>
          obtain rfl := Option.some.inj h
          exact isOutcome_failed .clamdTimeout
      | error message =>
          obtain rfl := Option.some.inj h
          exact isOutcome_failed (.clamdError message)
      | writeThrows message =>
          obtain rfl := Option.some.inj h
          exact isOutcome_failed (.clamdStreamError message)
      | close =>
          obtain rfl := Option.some.inj h
          exact readReply_outcome u _

theorem scanWithClamd_outcome {socketRes : Option ScanResult} {tcpRes : ScanResult}
    (hsocket : ∀ r ∈ socketRes, IsOutcome r) (htcp : IsOutcome tcpRes) :
    IsOutcome (scanWithClamd socketRes tcpRes) := by
  cases socketRes with
  | none => exact htcp
  | some res =>
      have hres := hsocket res rfl
      unfold scanWithClamd
      dsimp only
      split_ifs
      · exact hres
      · exact htcp
      · exact hres

theorem scanWithClamav_outcome (e : ClamscanEnd) : IsOutcome (scanWithClamav e) := by
  cases e with
  | close code out err =>
      unfold scanWithClamav
      dsimp only
      split_ifs
      · exact ⟨.clean, rfl⟩
      · exact isOutcome_refused (by decide)
      · exact isOutcome_failed (.clamavError _)
      · exact isOutcome_failed (.clamavError _)
  | error message => exact isOutcome_failed (.clamavSpawnError message)

theorem basicScan_outcome (env : ScannerEnv) (bytes : Bytes) (contentType : String) :
    IsOutcome (basicScan env bytes contentType) := by
  unfold basicScan
  dsimp only
  split_ifs <;> first
    | exact ⟨.clean, rfl⟩
    | exact isOutcome_refused (by decide)

/-- Every result of `scanBytes` is one of the outcomes, if those of the engine are. -/
theorem scanBytes_outcome (env : ScannerEnv) (bytes : Bytes) (contentType : Option String)
    {antivirus : ScanResult} (h : IsOutcome antivirus) :
    IsOutcome (scanBytes env bytes contentType antivirus) := by
  have hbasic := basicScan_outcome env bytes (trimmed (env.toLowerCase (contentType.getD "")))
  unfold scanBytes
  dsimp only
  split_ifs
  · exact isOutcome_refused (by decide)
  · exact hbasic
  · exact hbasic
  · exact h
  · exact hbasic

/-! ## Verdicts -/

inductive Verdict where
  | scanned | blocked | retryable
  deriving DecidableEq

/-- The verdict a result asks for. -/
def ScanOutcome.verdict : ScanOutcome → Verdict
  | .clean => .scanned
  | .refused _ _ => .blocked
  | .failed _ => .retryable

/-- A scan of an artifact with this status goes on to read its bytes. -/
def ArtifactStatus.Open (status : ArtifactStatus) : Prop :=
  status ∉ [ArtifactStatus.scanned, .accepted, .blocked, .deleted]

/-- The artifact stands as the verdict says: scanned, blocked, or open with its bytes kept. -/
def World.StandsAs (w : World) (id : String) (kept : Bool) (verdict : Verdict) : Prop :=
  ∃ row, w.artifacts id = some row ∧
    match verdict with
    | .scanned => row.status = .scanned
    | .blocked => row.status = .blocked
    | .retryable => row.status.Open ∧ kept = true

/-! ## Uploads -/

/-- The settings of an upload that gets to its scan, and the result of the scan. -/
structure Upload (env : StorageEnv) (allowed : Artifact → Bool) (o : ScanOutcome) where
  world : World
  id : String
  row : Artifact
  bytes : Bytes
  contentType : Option String
  path : String
  found : world.artifacts id = some row
  admitted : allowed row = true
  typed : (contentType.or row.contentType).getD "application/octet-stream" ∈ allowedContentTypes
  fits : bytes.length ≤ env.maxUploadBytes
  placed : env.uploadPath id row = some path
  scans : scanBytes env.toScannerEnv bytes
    (some ((contentType.or row.contentType).getD "application/octet-stream"))
    (world.antivirus bytes) = o.result

section Uploads

variable {env : StorageEnv} {allowed : Artifact → Bool} {o : ScanOutcome}

/-- The state an upload leaves. -/
def Upload.after (s : Upload env allowed o) (scanned : ArtifactUpdate)
    (blocked : ScanResult → ArtifactUpdate) : World :=
  ((putUpload env s.id s.bytes s.contentType allowed scanned blocked).solo (storageEngine env) none
    s.world).2

/-- The state when the scan of an upload starts. -/
def Upload.uploaded (s : Upload env allowed o) : World :=
  (Stmt.update s.id (.uploaded ((s.contentType.or s.row.contentType).getD
    "application/octet-stream") s.bytes.length)).write env
      ((Stmt.writeFile s.path s.bytes).write env s.world)

/-- One statement, alone. -/
theorem solo_run {β : Type} {s : Stmt} {f : s.Val → Code β} {w : World} :
    ((run s).bind f).solo (storageEngine env) none w =
      (f (s.result env w)).solo (storageEngine env) none (s.write env w) := rfl

/-- An upload updates the row as the scan says, and deletes the file that is refused. -/
theorem putUpload_solo (s : Upload env allowed o) (scanned : ArtifactUpdate)
    (blocked : ScanResult → ArtifactUpdate) :
    s.after scanned blocked =
      if o.result.ok then (Stmt.update s.id scanned).write env s.uploaded
      else (Stmt.update s.id (blocked o.result)).write env
        ((Stmt.unlink s.path).write env s.uploaded) := by
  have hread : Stmt.result env (.select s.id) s.world = some s.row := s.found
  have hfits : ¬ env.maxUploadBytes < s.bytes.length := not_lt.mpr s.fits
  have hscan : Stmt.result env (.scan s.bytes
      (some ((s.contentType.or s.row.contentType).getD "application/octet-stream"))) s.uploaded =
      o.result := s.scans
  have hrest : s.after scanned blocked = ((scanUpload s.id s.path s.bytes
      ((s.contentType.or s.row.contentType).getD "application/octet-stream") scanned blocked).solo
        (storageEngine env) none s.uploaded).2 := by
    unfold Upload.after putUpload
    rw [bind_eq_bind, solo_run, hread]
    simp only [s.admitted, Bool.not_true, Bool.false_eq_true, if_false, s.typed, not_true, hfits,
      s.placed]
    rfl
  rw [hrest, scanUpload, bind_eq_bind, solo_run, hscan]
  cases hok : o.result.ok with
  | true => rfl
  | false => rfl

end Uploads

/-! ## Scans of the runner -/

/-- The settings of a scan that gets to the bytes, and its result. -/
structure Scan (env : StorageEnv) (o : ScanOutcome) where
  world : World
  id : String
  row : Artifact
  key : String
  bytes : Bytes
  found : world.artifacts id = some row
  live : row.deletedAt = none
  keyed : row.storageKey = some key
  unsettled : row.status.Open
  read : (readObject env key).solo (storageEngine env) none world = (.ok bytes, world)
  scans : scanBytes env.toScannerEnv bytes row.contentType (world.antivirus bytes) = o.result

/-- The bytes a scan would read. -/
def StorageEnv.stored (env : StorageEnv) (w : World) (key : String) : Option Bytes :=
  match env.backend with
  | .local' => (env.localPath key).bind w.files
  | .s3 => w.objects (env.bucketForKind .staging) key

section Scans

variable {env : StorageEnv} {o : ScanOutcome}

/-- The state a scan leaves. -/
def Scan.after (s : Scan env o) : World :=
  ((scanArtifactObject env s.id).solo (storageEngine env) none s.world).2

/-- The state when the bytes are scanned. -/
def Scan.started (s : Scan env o) : World :=
  (Stmt.update s.id (.scanStarted s.row.contentType (s.row.sizeBytes.getD s.bytes.length))).write env
    s.world

theorem readObject_flat (key : String) : (readObject env key).Flat := by
  unfold readObject
  cases env.backend with
  | local' =>
      dsimp only
      cases env.localPath key with
      | none => trivial
      | some path =>
          refine (Prog.flat_perform _).bind fun r => ?_
          cases r <;> trivial
  | s3 =>
      refine (Prog.flat_perform _).bind fun r => ?_
      cases r with
      | none => trivial
      | some bytes =>
          dsimp only
          split_ifs <;> trivial

theorem Scan.stored (s : Scan env o) : env.stored s.world s.key = some s.bytes := by
  have h := s.read
  unfold readObject at h
  unfold StorageEnv.stored
  cases hbackend : env.backend with
  | local' =>
      simp only [hbackend] at h ⊢
      cases hpath : env.localPath s.key with
      | none =>
          rw [hpath] at h
          cases congrArg Prod.fst h
      | some path =>
          rw [hpath] at h
          rw [Option.bind_some]
          dsimp only at h
          rw [bind_eq_bind, solo_run] at h
          cases hfile : Stmt.result env (.readFile path) s.world with
          | none =>
              rw [hfile] at h
              cases congrArg Prod.fst h
          | some bytes =>
              rw [hfile] at h
              obtain rfl : bytes = s.bytes := by simpa using congrArg Prod.fst h
              exact hfile
  | s3 =>
      simp only [hbackend] at h ⊢
      rw [bind_eq_bind, solo_run] at h
      cases hobject : Stmt.result env (.getObject (env.bucketForKind .staging) s.key) s.world with
      | none =>
          rw [hobject] at h
          cases congrArg Prod.fst h
      | some bytes =>
          rw [hobject] at h
          dsimp only at h
          split_ifs at h with hlarge
          · cases congrArg Prod.fst h
          · obtain rfl : bytes = s.bytes := by simpa using congrArg Prod.fst h
            exact hobject

theorem scanArtifact_solo (s : Scan env o) :
    s.after = ((finishScan env s.id s.key o.result).solo (storageEngine env) none s.started).2 := by
  have hread : Stmt.result env (.select s.id) s.world = some s.row := s.found
  have hscan : Stmt.result env (.scan s.bytes s.row.contentType) s.started = o.result := s.scans
  have hunsettled : s.row.status ∉ [ArtifactStatus.scanned, .accepted, .blocked, .deleted] :=
    s.unsettled
  unfold Scan.after scanArtifactObject
  have hsame : Stmt.write env (.select s.id) s.world = s.world := rfl
  rw [bind_eq_bind, solo_run, hread, hsame]
  simp only [s.live, Option.isSome_none, Bool.false_eq_true, if_false, s.keyed, hunsettled]
  rw [bind_eq_bind, (readObject_flat s.key).solo_bind_ok s.read, bind_eq_bind, solo_run,
    bind_eq_bind, solo_run]
  exact congrArg (fun r => ((finishScan env s.id s.key r).solo (storageEngine env) none
    s.started).2) hscan

/-- Moving an object or deleting a file leaves the rows alone. -/
def LeavesRows (env : StorageEnv) (p : Code Unit) (w : World) : Prop :=
  p.Flat ∧ ∃ w', p.solo (storageEngine env) none w = (.ok (), w') ∧ w'.artifacts = w.artifacts

theorem leavesRows_done (w : World) : LeavesRows env (.ret ()) w := ⟨trivial, w, rfl, rfl⟩

theorem putObject_artifacts (w : World) (bucket key : String) (bytes : Option Bytes) :
    (w.putObject bucket key bytes).artifacts = w.artifacts := rfl

theorem leavesRows_move {w : World} {target : BucketKind} {key : String} {bytes : Bytes}
    (h : w.objects (env.bucketForKind .staging) key = some bytes) :
    LeavesRows env (moveObject env .staging target key) w := by
  have hthere : Stmt.result env (.copyObject (env.bucketForKind .staging) key
      (env.bucketForKind target)) w = true := by
    simp [Stmt.result, h]
  have hcopied : (Stmt.write env (.copyObject (env.bucketForKind .staging) key
      (env.bucketForKind target)) w).artifacts = w.artifacts := by
    simp only [Stmt.write, h, putObject_artifacts]
  constructor
  · refine (Prog.flat_perform _).bind fun there => ?_
    cases there
    · trivial
    · exact Prog.flat_perform _
  · unfold moveObject
    rw [bind_eq_bind, solo_run, hthere]
    exact ⟨_, rfl, hcopied⟩

theorem leavesRows_delete {w : World} {key path : String} (h : env.localPath key = some path) :
    LeavesRows env (deleteStorageObject env key) w := by
  unfold deleteStorageObject
  rw [h]
  exact ⟨(Prog.flat_perform _).orElse fun _ => trivial, _, rfl, rfl⟩

/-- An update of the row of a scan. -/
theorem Scan.updated (s : Scan env o) {w : World} (h : w.artifacts = s.started.artifacts)
    (u : ArtifactUpdate) : ∃ row, ((Stmt.update s.id u).write env w).artifacts s.id = some row ∧
      row.status = u.status.getD .uploaded := by
  have hstarted : s.started.artifacts s.id = some (s.row.set
      (.scanStarted s.row.contentType (s.row.sizeBytes.getD s.bytes.length))) := by
    simp [Scan.started, Stmt.write, World.modify, s.found]
  have hstatus : (s.row.set (.scanStarted s.row.contentType
      (s.row.sizeBytes.getD s.bytes.length))).status = .uploaded := Artifact.set_status _ _
  have hwritten : ((Stmt.update s.id u).write env w).artifacts s.id =
      (w.artifacts s.id).map (Artifact.set u) := Function.update_self ..
  rw [h, hstarted, Option.map_some] at hwritten
  exact ⟨_, hwritten, by rw [Artifact.set_status, hstatus]⟩

/-- The state after something that leaves the rows alone and what ends in an update. -/
theorem Scan.after_update (s : Scan env o) {p last : Code Unit} (hp : LeavesRows env p s.started)
    (u : ArtifactUpdate)
    (hlast : ∀ w, (last.solo (storageEngine env) none w).2 = (Stmt.update s.id u).write env w) :
    ∃ row, ((p.bind fun _ => last).solo (storageEngine env) none s.started).2.artifacts s.id =
      some row ∧ row.status = u.status.getD .uploaded := by
  obtain ⟨hflat, w', hsolo, hrows⟩ := hp
  obtain ⟨row, hrow, hstatus⟩ := s.updated hrows u
  refine ⟨row, ?_, hstatus⟩
  rw [hflat.solo_bind_ok hsolo, hlast]
  exact hrow

/-- The objects of a scan on S3 can be moved, and the file of a local one deleted. -/
theorem Scan.leavesRows (s : Scan env o) (target : BucketKind) :
    (env.backend = .s3 → LeavesRows env (moveObject env .staging target s.key) s.started) ∧
      (env.backend = .local' → LeavesRows env (deleteStorageObject env s.key) s.started) := by
  have hstored := s.stored
  unfold StorageEnv.stored at hstored
  constructor
  · intro hbackend
    rw [hbackend] at hstored
    exact leavesRows_move hstored
  · intro hbackend
    rw [hbackend] at hstored
    obtain ⟨path, hpath, -⟩ := Option.bind_eq_some_iff.mp hstored
    exact leavesRows_delete hpath

theorem scan_clean (s : Scan env o) (hok : o.result.ok = true) (kept : Bool) :
    s.after.StandsAs s.id kept .scanned := by
  rw [scanArtifact_solo]
  unfold finishScan
  simp only [hok, if_true]
  cases hbackend : env.backend with
  | local' =>
      exact s.after_update (leavesRows_done _) (.scanned (some env.engineName) false) fun _ => rfl
  | s3 =>
      exact s.after_update ((s.leavesRows .clean).1 hbackend)
        (.scanned (some env.engineName) true) fun _ => rfl

theorem scan_blocked (s : Scan env o) (hok : o.result.ok = false)
    (hretry : isRetryable env.toScannerEnv (o.result.reason.getD "scan_failed") = false)
    (kept : Bool) : s.after.StandsAs s.id kept .blocked := by
  rw [scanArtifact_solo]
  unfold finishScan
  simp only [hok, hretry, Bool.false_eq_true, if_false]
  cases hbackend : env.backend with
  | local' =>
      exact s.after_update ((s.leavesRows .clean).2 hbackend) (.blocked _ _ none) fun _ => rfl
  | s3 =>
      exact s.after_update ((s.leavesRows .quarantine).1 hbackend) (.blocked _ _ (some s.key))
        fun _ => rfl

/-- A scan that is tried again leaves the bytes where they are. -/
theorem scan_retried (s : Scan env o) (hok : o.result.ok = false)
    (hretry : isRetryable env.toScannerEnv (o.result.reason.getD "scan_failed") = true) :
    env.stored s.after s.key = some s.bytes ∧
      ∃ row, s.after.artifacts s.id = some row ∧ row.status = .scanFailed := by
  rw [scanArtifact_solo]
  unfold finishScan
  simp only [hok, hretry, Bool.false_eq_true, if_false, if_true]
  exact ⟨s.stored, s.after_update (leavesRows_done _) (.scanFailed _ _ _) fun _ => rfl⟩

end Scans

/-! ## Reasons -/

section Reasons

/-- A character that is its own lower case. -/
def isLowerAscii (c : Char) : Bool := decide (c.toNat < 0x80) && !c.isUpper

/-- What `toLowerCase` does with lower-case ASCII text, by itself and in front of other text. -/
structure LowersAscii (lower : String → String) : Prop where
  same : ∀ s : String, s.toList.all isLowerAscii = true → lower s = s
  front : ∀ a t : String, a.toList.all isLowerAscii = true → ∃ t', lower (a ++ t) = a ++ t'

/-- What the reason for a failure starts with. -/
def EngineFailure.front : EngineFailure → String
  | .clamdTimeout => "clamd_timeout"
  | .clamdNoResponse => "clamd_no_response"
  | .clamdError _ => "clamd_error:"
  | .clamdStreamError _ => "clamd_stream_error:"
  | .clamdUnknown _ => "clamd_unknown:"
  | .clamavError _ => "clamav_error:"
  | .clamavSpawnError _ => "clamav_spawn_error:"

theorem EngineFailure.reason_eq (f : EngineFailure) : ∃ text, f.reason = f.front ++ text := by
  cases f with
  | clamdTimeout => exact ⟨"", rfl⟩
  | clamdNoResponse => exact ⟨"", rfl⟩
  | clamdError text | clamdStreamError text | clamdUnknown text | clamavError text
  | clamavSpawnError text => exact ⟨text, rfl⟩

/-- All of these. -/
def failureFronts : List String :=
  ["clamd_timeout", "clamd_no_response", "clamd_error:", "clamd_stream_error:", "clamd_unknown:",
    "clamav_error:", "clamav_spawn_error:"]

theorem EngineFailure.front_mem (f : EngineFailure) : f.front ∈ failureFronts := by
  cases f <;> simp [front, failureFronts]

theorem startsWith_append {a t start : String} (h : startsWith a start = true) :
    startsWith (a ++ t) start = true := by
  have hfront : start.toList <+: a.toList := of_decide_eq_true h
  refine decide_eq_true (hfront.trans ?_)
  rw [String.toList_append]
  exact List.prefix_append _ _

/-- A text that starts like this is neither of the content reasons. -/
theorem not_content_of_front {t : String} {a : String} (h : startsWith a "cl" = true) :
    a ++ t ≠ "empty_file" ∧ startsWith (a ++ t) "content_type_mismatch_" = false ∧ a ++ t ≠ "" := by
  have hfront : "cl".toList <+: (a ++ t).toList := of_decide_eq_true (startsWith_append h)
  obtain ⟨rest, hrest⟩ := hfront
  refine ⟨fun heq => ?_, ?_, fun heq => ?_⟩
  · rw [heq] at hrest
    simp at hrest
  · refine decide_eq_false fun hprefix => ?_
    rw [← hrest] at hprefix
    simp at hprefix
  · rw [heq] at hrest
    simp at hrest

variable {env : StorageEnv}

/-- A failure is tried again unless its text speaks of an infection. -/
theorem retryable_iff (hlower : LowersAscii env.toLowerCase) (f : EngineFailure) :
    isRetryable env.toScannerEnv f.reason = true ↔
      includes (env.toLowerCase f.reason) "infected" = false ∧
        includes (env.toLowerCase f.reason) "malware_detected" = false := by
  obtain ⟨text, htext⟩ := f.reason_eq
  have hplain : ∀ a ∈ failureFronts, a.toList.all isLowerAscii = true := by decide
  obtain ⟨rest, hrest⟩ := hlower.front f.front text (hplain _ f.front_mem)
  have hcl : ∀ a ∈ failureFronts, startsWith a "cl" = true := by decide
  have hkind : ∀ a ∈ failureFronts, startsWith a "clamd_" = true ∨
      startsWith a "clamav_error" = true ∨ startsWith a "clamav_spawn_error" = true := by
    decide
  obtain ⟨hempty, hcontent, hblank⟩ := not_content_of_front (t := rest) (hcl _ f.front_mem)
  unfold isRetryable isDeterministicBlockReason isScannerErrorReason
  simp only [htext, hrest, hempty, hcontent, hblank, decide_false, Bool.false_or]
  cases includes (f.front ++ rest) "infected" with
  | true => simp
  | false =>
      cases includes (f.front ++ rest) "malware_detected" with
      | true => simp
      | false =>
          have herror : (startsWith (f.front ++ rest) "clamd_" ||
              startsWith (f.front ++ rest) "clamav_error" ||
              startsWith (f.front ++ rest) "clamav_spawn_error") = true := by
            rcases hkind _ f.front_mem with h | h | h <;> simp [startsWith_append h]
          simpa using herror

/-- A refusal is not tried again. -/
theorem not_retryable (hlower : LowersAscii env.toLowerCase) {reason : String}
    (h : reason ∈ refusals) : isRetryable env.toScannerEnv reason = false := by
  have hplain : ∀ r ∈ refusals, r.toList.all isLowerAscii = true := by decide
  have hblock : ∀ r ∈ refusals, (decide (r = "empty_file") ||
      startsWith r "content_type_mismatch_" || includes r "infected" ||
      includes r "malware_detected") = true := by decide
  have hdeterministic : isDeterministicBlockReason env.toScannerEnv reason = true := by
    unfold isDeterministicBlockReason
    rw [hlower.same reason (hplain reason h)]
    exact hblock reason h
  simp [isRetryable, hdeterministic]

end Reasons

/-! ## All paths -/

section Paths

variable {env : StorageEnv} {o : ScanOutcome} {workerId : Nat}

/-- Who may upload: the worker of the artifact. -/
def ofWorker (workerId : Nat) (row : Artifact) : Bool := row.workerId.all (· = workerId)

/-- Who may upload: a verifier, when the artifact has no worker. -/
def ofVerifier (row : Artifact) : Bool := row.workerId.isNone

/-- The state the upload of a worker leaves. -/
def Upload.afterWorker (s : Upload env (ofWorker workerId) o) : World :=
  ((putLocalUpload env s.id workerId s.bytes s.contentType).solo (storageEngine env) none s.world).2

/-- The state the upload of a verifier leaves. -/
def Upload.afterVerifier (s : Upload env ofVerifier o) : World :=
  ((putVerifierLocalUpload env s.id s.bytes s.contentType).solo (storageEngine env) none s.world).2

/-- The file of the upload is kept. -/
def Upload.keeps {allowed : Artifact → Bool} (s : Upload env allowed o) (w : World) : Bool :=
  decide (w.files s.path = some s.bytes)

/-- The bytes of the scan are kept. -/
def Scan.keeps (s : Scan env o) (w : World) : Bool := decide (env.stored w s.key = some s.bytes)

/-- The scan stands as its result asks for. -/
def Scan.Agrees (s : Scan env o) : Prop := s.after.StandsAs s.id (s.keeps s.after) o.verdict

/-- The server with another backend. -/
def StorageEnv.on (env : StorageEnv) (backend : Backend) : StorageEnv := { env with backend }

/-- All paths reach the verdict that the result asks for. -/
structure PathsAgree (worker : Upload env (ofWorker workerId) o) (verifier : Upload env ofVerifier o)
    (onDisk : Scan (env.on .local') o) (onS3 : Scan (env.on .s3) o) : Prop where
  worker : worker.afterWorker.StandsAs worker.id (worker.keeps worker.afterWorker) o.verdict
  verifier :
    verifier.afterVerifier.StandsAs verifier.id (verifier.keeps verifier.afterVerifier) o.verdict
  onDisk : onDisk.Agrees
  onS3 : onS3.Agrees

/-- What an upload leaves, for a clean result and for any other. -/
theorem upload_stands {allowed : Artifact → Bool} (s : Upload env allowed o)
    (scanned : ArtifactUpdate) (blocked : ScanResult → ArtifactUpdate)
    (hscanned : scanned.status = some .scanned)
    (hblocked : ∀ r, (blocked r).status = some .blocked) :
    ∃ row, (s.after scanned blocked).artifacts s.id = some row ∧
      row.status = if o.result.ok then .scanned else .blocked := by
  have huploaded : ∃ row, s.uploaded.artifacts s.id = some row :=
    ⟨_, (Function.update_self ..).trans (congrArg (Option.map _) s.found)⟩
  obtain ⟨row, hrow⟩ := huploaded
  have hset : ∀ (w : World) (u : ArtifactUpdate), w.artifacts s.id = some row →
      ((Stmt.update s.id u).write env w).artifacts s.id = some (row.set u) :=
    fun w u hw => (Function.update_self ..).trans (congrArg (Option.map _) hw)
  rw [putUpload_solo]
  cases hok : o.result.ok with
  | true =>
      refine ⟨row.set scanned, hset _ _ hrow, ?_⟩
      rw [Artifact.set_status, hscanned]
      rfl
  | false =>
      refine ⟨row.set (blocked o.result), hset _ _ hrow, ?_⟩
      rw [Artifact.set_status, hblocked]
      rfl

/-- An upload stands as its result asks for unless the engine has failed. -/
theorem upload_agrees_iff {w : World} {id : String} (kept : Bool)
    (h : ∃ row, w.artifacts id = some row ∧
      row.status = if o.result.ok then .scanned else .blocked) :
    w.StandsAs id kept o.verdict ↔ ∀ f, o ≠ .failed f := by
  obtain ⟨row, hrow, hstatus⟩ := h
  unfold World.StandsAs
  simp only [hrow, Option.some.injEq, exists_eq_left']
  cases o with
  | clean => simpa [ScanOutcome.verdict, ScanOutcome.result, ScanResult.clean] using hstatus
  | refused reason hreason =>
      simpa [ScanOutcome.verdict, ScanOutcome.result, ScanResult.refused] using hstatus
  | failed f =>
      have hblocked : row.status = .blocked := by
        simpa [ScanOutcome.result, ScanResult.refused] using hstatus
      simp [ScanOutcome.verdict, ArtifactStatus.Open, hblocked]

/-- A scan of the runner stands as its result asks for unless a failure speaks of an
infection. -/
theorem scan_agrees_iff (hlower : LowersAscii env.toLowerCase) (s : Scan env o) :
    s.Agrees ↔ ∀ f, o = .failed f →
      includes (env.toLowerCase f.reason) "infected" = false ∧
        includes (env.toLowerCase f.reason) "malware_detected" = false := by
  cases o with
  | clean =>
      refine iff_of_true (scan_clean s rfl _) fun f hf => ?_
      cases hf
  | refused reason hreason =>
      refine iff_of_true (scan_blocked s rfl (not_retryable hlower hreason) _) fun f hf => ?_
      cases hf
  | failed f =>
      have hretry := retryable_iff hlower f
      constructor
      · rintro hagrees f' hf'
        obtain rfl : f = f' := by simpa using hf'
        refine hretry.mp ?_
        by_contra hnot
        obtain ⟨row, hrow, hopen, -⟩ := hagrees
        obtain ⟨row', hrow', hblocked⟩ :=
          scan_blocked s rfl (Bool.eq_false_iff.mpr hnot) true
        obtain rfl : row = row' := Option.some.inj (hrow.symm.trans hrow')
        simp only at hblocked
        simp [ArtifactStatus.Open, hblocked] at hopen
      · intro h
        obtain ⟨hstored, row, hrow, hstatus⟩ := scan_retried s rfl (hretry.mpr (h f rfl))
        refine ⟨row, hrow, ?_, decide_eq_true hstored⟩
        simp [ArtifactStatus.Open, hstatus]

/-- All paths reach the verdict that a result asks for just when it is no failure of the engine;
the scans of the runner miss it only for a failure whose text speaks of an infection. -/
theorem scan_paths_agree_iff (hlower : LowersAscii env.toLowerCase)
    (worker : Upload env (ofWorker workerId) o) (verifier : Upload env ofVerifier o)
    (onDisk : Scan (env.on .local') o) (onS3 : Scan (env.on .s3) o) :
    (PathsAgree worker verifier onDisk onS3 ↔ ∀ f, o ≠ .failed f) ∧
      (onDisk.Agrees ∧ onS3.Agrees ↔ ∀ f, o = .failed f →
        includes (env.toLowerCase f.reason) "infected" = false ∧
          includes (env.toLowerCase f.reason) "malware_detected" = false) := by
  have hworker := upload_agrees_iff (worker.keeps worker.afterWorker)
    (upload_stands worker (.scanned none false) (fun _ => .blocked none none none) rfl fun _ => rfl)
  have hverifier := upload_agrees_iff (verifier.keeps verifier.afterVerifier)
    (upload_stands verifier (.scanned (some env.engineName) false)
      (fun scan => .blocked (some env.engineName) (some (scan.reason.getD "malware_detected")) none)
      rfl fun _ => rfl)
  have hlowerDisk : LowersAscii (env.on .local').toLowerCase := hlower
  have hlowerS3 : LowersAscii (env.on .s3).toLowerCase := hlower
  have hdisk := scan_agrees_iff hlowerDisk onDisk
  have hs3 := scan_agrees_iff hlowerS3 onS3
  constructor
  · constructor
    · exact fun h => hworker.mp h.worker
    · intro h
      refine ⟨hworker.mpr h, hverifier.mpr h, hdisk.mpr ?_, hs3.mpr ?_⟩
      · exact fun f hf => absurd hf (h f)
      · exact fun f hf => absurd hf (h f)
  · exact ⟨fun h => hdisk.mp h.1, fun h => ⟨hdisk.mpr h, hs3.mpr h⟩⟩

end Paths

/-! ## A server with clamd -/

def clamdEnv : StorageEnv := { StorageEnv.disk with engine := some "clamd" }

/-- The artifact `a` and its bytes, with what clamd says. -/
def worldWith (row : Artifact) (o : ScanOutcome) : World :=
  { artifactWorld with
    artifacts := Function.update (fun _ => none) "a" (some row)
    files := Function.update (fun _ => none) "/data/artifacts/a/a.bin" (some [7])
    objects := fun bucket key =>
      if bucket = "staging" ∧ key = "artifacts/a/a.bin" then some [7] else none
    antivirus := fun _ => o.result }

theorem clamd_scans (o : ScanOutcome) :
    scanBytes clamdEnv.toScannerEnv [7] (some "application/octet-stream") o.result = o.result := by
  have hbasic : basicScan clamdEnv.toScannerEnv [7] (trimmed (clamdEnv.toLowerCase
      ((some "application/octet-stream").getD ""))) = .clean := by decide
  have hengine : trimmed (clamdEnv.toLowerCase (clamdEnv.engine.getD "")) = "clamd" := by
    decide
  unfold scanBytes
  simp only [hbasic, hengine]
  cases o <;> rfl

theorem lowersAscii_id : LowersAscii id := ⟨fun _ _ => rfl, fun _ t _ => ⟨t, rfl⟩⟩

/-- An upload of worker 1. -/
def workerUpload (o : ScanOutcome) : Upload clamdEnv (ofWorker 1) o where
  world := worldWith presignedArtifact o
  id := "a"
  row := presignedArtifact
  bytes := [7]
  contentType := none
  path := "/data/artifacts/a/a.bin"
  found := rfl
  admitted := rfl
  typed := by decide
  fits := by decide
  placed := by decide
  scans := clamd_scans o

/-- An upload of a verifier. -/
def verifierUpload (o : ScanOutcome) : Upload clamdEnv ofVerifier o where
  world := worldWith { presignedArtifact with workerId := none } o
  id := "a"
  row := { presignedArtifact with workerId := none }
  bytes := [7]
  contentType := none
  path := "/data/artifacts/a/a.bin"
  found := rfl
  admitted := rfl
  typed := by decide
  fits := by decide
  placed := by decide
  scans := clamd_scans o

/-- A scan of the runner. -/
def runnerScan (backend : Backend) (o : ScanOutcome) : Scan (clamdEnv.on backend) o where
  world := worldWith { presignedArtifact with status := .uploaded } o
  id := "a"
  row := { presignedArtifact with status := .uploaded }
  key := "artifacts/a/a.bin"
  bytes := [7]
  found := rfl
  live := rfl
  keyed := rfl
  unsettled := by
    unfold ArtifactStatus.Open
    decide
  read := by cases backend <;> rfl
  scans := clamd_scans o

theorem scan_paths_agree_clean : PathsAgree (workerUpload .clean) (verifierUpload .clean)
    (runnerScan .local' .clean) (runnerScan .s3 .clean) := by
  refine (scan_paths_agree_iff lowersAscii_id _ _ _ _).1.mpr fun f hf => ?_
  cases hf

/-- A timeout of clamd: the upload of the worker blocks the artifact and deletes its file. -/
theorem timeout_blocks_upload :
    (workerUpload (.failed .clamdTimeout)).afterWorker.StandsAs "a" false .blocked ∧
      (workerUpload (.failed .clamdTimeout)).afterWorker.files "/data/artifacts/a/a.bin" = none ∧
      ¬ PathsAgree (workerUpload (.failed .clamdTimeout)) (verifierUpload (.failed .clamdTimeout))
        (runnerScan .local' (.failed .clamdTimeout)) (runnerScan .s3 (.failed .clamdTimeout)) := by
  have hstands := upload_stands (workerUpload (.failed .clamdTimeout)) (.scanned none false)
    (fun _ => .blocked none none none) rfl fun _ => rfl
  refine ⟨hstands, rfl, fun h => ?_⟩
  exact (upload_agrees_iff _ hstands).mp h.worker .clamdTimeout rfl

end OpenUnion.Storage
