import OpenUnion.Code.StorageRequests
import OpenUnion.Interleave.Autocommit
import Mathlib.Tactic.Common

/-!
# What the requests about artifacts do

Each statement a request executes follows from what it has executed before: a row is changed
only after it has been read, a file is written to the path of the row that was read, and an
artifact is marked scanned only after the bytes in hand have passed a scan.  `Lawful` says this
of the statements and `Answers` of the answers, in terms of the request's own notes.

* `lastRow`, `lastBytes`: what a request has last read of a row, and last read from or written
  to a file.
* `Request.code_tells`: every request is lawful.
-/

namespace OpenUnion.Storage

open Interleave

/-- The row a note has read of an artifact. -/
def Executed.row? (id : String) : Executed → Option (Option Artifact)
  | ⟨_, .select id', row⟩ => if id' = id then some row else none
  | _ => none

/-- What a note has read from a file, or written to it. -/
def Executed.bytes? (path : String) : Executed → Option (Option Bytes)
  | ⟨_, .readFile path', bytes⟩ => if path' = path then some bytes else none
  | ⟨_, .writeFile path' bytes, _⟩ => if path' = path then some (some bytes) else none
  | _ => none

/-- The bytes have passed a scan. -/
def Executed.passes (bytes : Bytes) : Executed → Bool
  | ⟨_, .scan bytes' _, result⟩ => decide (bytes' = bytes) && result.ok
  | _ => false

/-- The note has taken the scan event of the artifact. -/
def Executed.claims (id : String) : Executed → Bool
  | ⟨_, .claimScans, batch⟩ => decide (id ∈ batch.map Prod.fst)
  | _ => false

/-- The note has found that the artifact waits for no scan, or has ended its wait. -/
def Executed.settles (id : String) : Executed → Bool
  | ⟨_, .select id', row⟩ => decide (id' = id) && row.all fun a => a.deletedAt.isSome ||
      decide (a.status ∈ [.scanned, .accepted, .blocked, .deleted])
  | ⟨_, .update id' u, _⟩ => decide (id' = id ∧ u.status = some .scanned)
  | _ => false

/-- The row a request has read last. -/
def lastRow (ns : List Executed) (id : String) : Option Artifact :=
  (ns.findSome? (Executed.row? id)).join

/-- The bytes a request has last read from a file or written to it. -/
def lastBytes (ns : List Executed) (path : String) : Option Bytes :=
  (ns.findSome? (Executed.bytes? path)).join

/-- The request uploads bytes for the artifact. -/
def Request.uploads (id : String) : Request → Prop
  | .upload id' _ _ _ | .verifierUpload id' _ _ => id' = id
  | _ => False

/-- The request completes an upload of the artifact. -/
def Request.completes (id : String) : Request → Prop
  | .complete id' _ _ _ | .verifierComplete id' _ _ => id' = id
  | _ => False

/-- The request deletes the artifact. -/
def Request.deletes (id : String) : Request → Prop
  | .deliverDelete id' | .adminDelete id' => id' = id
  | _ => False

/-- The request is a round of the scanner. -/
def Request.scans : Request → Prop
  | .scannerRound => True
  | _ => False

/-- The request may change an artifact with this row: a worker its own, or one of no worker, and
the verifiers those of no worker. -/
def Request.entitled (row : Artifact) : Request → Prop
  | .upload _ workerId _ _ | .complete _ workerId _ _ =>
      (row.workerId.all fun w => decide (w = workerId)) = true
  | .submit _ jobId workerId _ => (row.workerId.all fun w => decide (w = workerId)) = true ∧
      (row.jobId.all fun j => decide (j = jobId)) = true
  | .verifierUpload _ _ _ | .verifierComplete _ _ _ => row.workerId = none
  | _ => True

instance (id : String) : (q : Request) → Decidable (q.uploads id)
  | .upload id' _ _ _ | .verifierUpload id' _ _ => inferInstanceAs (Decidable (id' = id))
  | .complete .. | .verifierComplete .. | .scannerRound | .deliverDelete _ | .adminDelete _
  | .quarantine .. | .submit .. | .accept _ | .download .. => inferInstanceAs (Decidable False)

instance (id : String) : (q : Request) → Decidable (q.completes id)
  | .complete id' _ _ _ | .verifierComplete id' _ _ => inferInstanceAs (Decidable (id' = id))
  | .upload .. | .verifierUpload .. | .scannerRound | .deliverDelete _ | .adminDelete _
  | .quarantine .. | .submit .. | .accept _ | .download .. => inferInstanceAs (Decidable False)

/-- A scan goes on when it finds this row. -/
def Artifact.unscanned (a : Artifact) : Prop :=
  a.deletedAt = none ∧ a.status ∉ [.scanned, .accepted, .blocked, .deleted]

section Lawful

variable (env : StorageEnv) (q : Request)

/-- The file of the row holds bytes that have passed a scan, as far as the request knows. -/
def Vouched (env : StorageEnv) (ns : List Executed) (id : String) (row : Artifact) : Prop :=
  ∃ path bytes, env.uploadPath id row = some path ∧ lastBytes ns path = some bytes ∧
    ∃ n ∈ ns, n.passes bytes = true

/-- A request may change a row like this after it has read it. -/
def LawfulUpdate (ns : List Executed) (id : String) (row : Artifact) : ArtifactUpdate → Prop
  | .uploaded _ _ => q.uploads id ∧ q.entitled row
  | .completed _ _ => q.completes id ∧ row.deletedAt = none ∧ q.entitled row
  | .scanStarted _ _ | .scanFailed _ _ _ =>
      q.scans ∧ row.unscanned ∧ ∃ n ∈ ns, n.claims id = true
  | .scanned _ _ => (q.uploads id ∨ q.scans ∧ row.unscanned) ∧
      (env.backend = .local' → Vouched env ns id row)
  | .blocked _ _ _ => q.uploads id ∨ row.deletedAt = none
  | .blockedAgain _ | .scanReason _ => row.deletedAt = none
  | .deleted _ => q.deletes id ∧ row.deletedAt = none
  | .attached submissionId _ _ sha256 _ sizeBytes =>
      row.deletedAt = none ∧ row.servable = true ∧ q.entitled row ∧
        ∃ jobId workerId refs ref, q = .submit submissionId jobId workerId refs ∧ ref ∈ refs ∧
          env.artifactIdOfUrl ref.url = some id ∧ sha256 = ref.sha256 ∧
          sizeBytes = ref.sizeBytes.or row.sizeBytes

/-- A request may execute the statement after what it has executed before. -/
def Lawful (ns : List Executed) : Stmt → Prop
  | .update id u => ∃ row, lastRow ns id = some row ∧ LawfulUpdate env q ns id row u
  | .writeFile path _ => ∃ id row, q.uploads id ∧ lastRow ns id = some row ∧
      env.uploadPath id row = some path ∧ q.entitled row
  | .unlink path => ∃ id row, (q.uploads id ∧ q.entitled row ∨ q.deletes id ∨ q.scans) ∧
      lastRow ns id = some row ∧ env.uploadPath id row = some path
  | .acceptAll submissionId => q = .accept submissionId
  | .enqueueScan id => q.completes id
  | .markSent id => q.scans ∧ ∃ n ∈ ns, n.settles id = true
  | .readFile path => ∀ reader id, q = .download reader id →
      ∃ row, lastRow ns id = some row ∧ row.servable = true ∧ env.uploadPath id row = some path
  | _ => True

/-- The request may give the answer after what it has executed. -/
def Answers (x : Reply) (ns : List Executed) : Prop :=
  match x with
  | .file _ bytes => ∃ reader id row path, q = .download reader id ∧ lastRow ns id = some row ∧
      row.deletedAt = none ∧ row.servable = true ∧ env.uploadPath id row = some path ∧
      ⟨q, .readFile path, some bytes⟩ ∈ ns
  | .redirect _ _ => ∃ reader id row, q = .download reader id ∧ lastRow ns id = some row ∧
      row.servable = true
  | _ => True

end Lawful

section Notes

variable {q : Request} {ns : List Executed} {id path : String}

@[simp] theorem lastRow_select (row : Option Artifact) :
    lastRow (⟨q, .select id, row⟩ :: ns) id = row := by
  simp [lastRow, Executed.row?]

/-- A statement that is no `SELECT` of the artifact leaves the row that was read last. -/
theorem lastRow_cons {n : Executed} (h : n.row? id = none) :
    lastRow (n :: ns) id = lastRow ns id := by
  simp [lastRow, h]

@[simp] theorem lastBytes_write (bytes : Bytes) (u : Unit) :
    lastBytes (⟨q, .writeFile path bytes, u⟩ :: ns) path = some bytes := by
  simp [lastBytes, Executed.bytes?]

theorem lastBytes_cons {n : Executed} (h : n.bytes? path = none) :
    lastBytes (n :: ns) path = lastBytes ns path := by
  simp [lastBytes, h]

end Notes

section Walks

variable {env : StorageEnv} {a : Actor Request} {ns : List Executed} {β : Type}
  {F : β → List Executed → Prop} {G : String → List Executed → Prop}

/-- A statement and what follows it, whatever the statement answers. -/
theorem tells_run {s : Stmt} {f : s.Val → Code β} (hout : Lawful env a.req ns s)
    (hnext : ∀ v, (f v).Tells (storage env) a (Lawful env a.req) F G (⟨a.req, s, v⟩ :: ns))
    (herr : G "" ns) : ((run s).bind f).Tells (storage env) a (Lawful env a.req) F G ns :=
  ⟨hout, fun _ w => hnext (s.result env w), herr⟩

/-- One statement. -/
theorem tells_stmt {s : Stmt} {F : s.Val → List Executed → Prop} (hout : Lawful env a.req ns s)
    (hnext : ∀ v, F v (⟨a.req, s, v⟩ :: ns)) (herr : G "" ns) :
    (run s).Tells (storage env) a (Lawful env a.req) F G ns :=
  ⟨hout, fun _ w => hnext (s.result env w), herr⟩

/-- A statement none of whose ends matters. -/
theorem tells_last {s : Stmt} (hout : Lawful env a.req ns s) :
    (run s).Tells (storage env) a (Lawful env a.req) (fun _ _ => True) (fun _ _ => True) ns :=
  tells_stmt hout (fun _ => trivial) trivial

/-- Removing a file, whether it succeeds or not. -/
theorem tells_unlink {path : String} {f : Unit → Code β} (hout : Lawful env a.req ns (.unlink path))
    (hnext : ∀ ns', (∀ id, lastRow ns' id = lastRow ns id) →
      (f ()).Tells (storage env) a (Lawful env a.req) F G ns') :
    ((attempt (run (.unlink path))).bind f).Tells (storage env) a (Lawful env a.req) F G ns := by
  refine tells_bind.mpr (tells_orElse.mpr (tells_stmt hout (fun v => ?_) ?_))
  · exact hnext _ fun id => lastRow_cons rfl
  · exact hnext ns fun id => rfl

/-- A part of a request whose error is turned into an answer. -/
theorem tells_caught {p : Code Unit} {F : Reply → List Executed → Prop}
    {handler : String → Reply}
    (hp : p.Tells (storage env) a (Lawful env a.req) (fun _ _ => True) (fun _ _ => True) ns)
    (hok : ∀ ns, F .ok ns) (herr : ∀ e ns, F (handler e) ns) :
    ((p.bind fun _ => .ret .ok).orElse fun e => .ret (handler e)).Tells (storage env) a
      (Lawful env a.req) F (fun _ _ => True) ns :=
  tells_orElse.mpr (tells_bind.mpr (hp.mono (fun _ ns _ => hok ns) fun e ns _ => herr e ns))

/-- A part of a request that is answered when it has ended. -/
theorem tells_answered {p : Code Unit}
    (hp : p.Tells (storage env) a (Lawful env a.req) (fun _ _ => True) (fun _ _ => True) ns) :
    (answered p).Tells (storage env) a (Lawful env a.req) (Answers env a.req)
      (fun _ _ => True) ns :=
  tells_bind.mpr (hp.mono (fun _ _ _ => trivial) fun _ _ _ => trivial)

section Uploads

variable {id path : String} {bytes : Bytes} {row : Artifact}

/-- The end of an upload: what has been written is scanned, and then vouched for. -/
theorem scanUpload_tells {contentType : String} {engine : Option String}
    {blocked : ScanResult → ArtifactUpdate} (hup : a.req.uploads id)
    (hentitled : a.req.entitled row) (hrow : lastRow ns id = some row) (hpath : env.uploadPath id row = some path)
    (hbytes : lastBytes ns path = some bytes)
    (hblocked : ∀ r, ∃ e reason key, blocked r = .blocked e reason key) :
    (scanUpload id path bytes contentType (.scanned engine false) blocked).Tells (storage env) a
      (Lawful env a.req) (fun _ _ => True) (fun _ _ => True) ns := by
  refine tells_run trivial (fun scan => ?_) trivial
  have hrow' : lastRow (⟨a.req, .scan bytes (some contentType), scan⟩ :: ns) id = some row :=
    (lastRow_cons rfl).trans hrow
  cases hok : scan.ok with
  | false =>
      rw [if_pos (by simp)]
      have hunlink : Lawful env a.req (⟨a.req, .scan bytes (some contentType), scan⟩ :: ns)
          (.unlink path) := ⟨id, row, Or.inl ⟨hup, hentitled⟩, hrow', hpath⟩
      refine tells_unlink hunlink fun ns' hsame => tells_run ?_ (fun _ => trivial) trivial
      obtain ⟨e, reason, key, heq⟩ := hblocked scan
      rw [heq]
      exact ⟨row, (hsame id).trans hrow', Or.inl hup⟩
  | true =>
      rw [if_neg (by simp)]
      refine tells_last ⟨row, hrow', Or.inl hup, fun _ => ⟨path, bytes, hpath, ?_, ?_⟩⟩
      · exact (lastBytes_cons rfl).trans hbytes
      · exact ⟨_, List.mem_cons_self, by simp [Executed.passes, hok]⟩

/-- An upload reads the row, writes the file of the row and marks the row. -/
theorem putUpload_tells {contentType : Option String} {allowed : Artifact → Bool}
    {engine : Option String} {blocked : ScanResult → ArtifactUpdate} (hup : a.req.uploads id)
    (hallowed : ∀ row, allowed row = true → a.req.entitled row)
    (hblocked : ∀ r, ∃ e reason key, blocked r = .blocked e reason key) :
    (putUpload env id bytes contentType allowed (.scanned engine false) blocked).Tells
      (storage env) a (Lawful env a.req) (fun _ _ => True) (fun _ _ => True) ns := by
  refine tells_run trivial (fun found => ?_) trivial
  cases found with
  | none => trivial
  | some row =>
      dsimp only
      by_cases hforbidden : (!allowed row) = true
      · rw [if_pos hforbidden]
        trivial
      rw [if_neg hforbidden]
      have hentitled : a.req.entitled row := hallowed row (by simpa using hforbidden)
      by_cases htype :
          (contentType.or row.contentType).getD "application/octet-stream" ∉ allowedContentTypes
      · rw [if_pos htype]
        trivial
      rw [if_neg htype]
      by_cases hsize : env.maxUploadBytes < bytes.length
      · rw [if_pos hsize]
        trivial
      rw [if_neg hsize]
      cases hpath : env.uploadPath id row with
      | none => trivial
      | some path =>
          have hrow : lastRow (⟨a.req, .select id, some row⟩ :: ns) id = some row :=
            lastRow_select _
          have hwrite : Lawful env a.req (⟨a.req, .select id, some row⟩ :: ns)
              (.writeFile path bytes) := ⟨id, row, hup, hrow, hpath, hentitled⟩
          refine tells_run hwrite (fun _ => ?_) trivial
          refine tells_run ⟨row, (lastRow_cons rfl).trans hrow, hup, hentitled⟩ (fun _ => ?_) trivial
          refine scanUpload_tells hup hentitled ((lastRow_cons rfl).trans ((lastRow_cons rfl).trans hrow))
            hpath ?_ hblocked
          exact (lastBytes_cons rfl).trans (lastBytes_write _ _)

end Uploads

section Attaching

/-- What is not another's is one's own or nobody's. -/
theorem all_of_not_any {x : Option Nat} {n : Nat} (h : ¬ (x.any fun m => decide (m ≠ n)) = true) :
    (x.all fun m => decide (m = n)) = true := by
  cases x with
  | none => rfl
  | some m => simpa using h

/-- Attaching a reference: the row read allows it. -/
theorem attachRef_tells {submissionId jobId workerId : Nat} {refs : List ArtifactRef}
    {ref : ArtifactRef} (hreq : a.req = .submit submissionId jobId workerId refs)
    (href : ref ∈ refs) :
    (attachRef env submissionId jobId workerId ref).Tells (storage env) a (Lawful env a.req)
      (fun _ _ => True) (fun _ _ => True) ns := by
  unfold attachRef
  cases hid : env.artifactIdOfUrl ref.url with
  | none => trivial
  | some id =>
      refine tells_run trivial (fun found => ?_) trivial
      cases found with
      | none => trivial
      | some art =>
          dsimp only
          by_cases hdeleted : art.deletedAt.isSome = true
          · rw [if_pos hdeleted]
            trivial
          rw [if_neg hdeleted]
          by_cases hworker : (art.workerId.any fun w => decide (w ≠ workerId)) = true
          · rw [if_pos hworker]
            trivial
          rw [if_neg hworker]
          by_cases hjob : (art.jobId.any fun j => decide (j ≠ jobId)) = true
          · rw [if_pos hjob]
            trivial
          rw [if_neg hjob]
          by_cases hblocked : art.status = .blocked
          · rw [if_pos hblocked]
            trivial
          rw [if_neg hblocked]
          by_cases hservable : (!art.servable) = true
          · rw [if_pos hservable]
            trivial
          rw [if_neg hservable]
          refine tells_last ⟨art, lastRow_select _, ?_, ?_, ?_, jobId, workerId, refs, ref, hreq,
            href, hid, rfl, rfl⟩
          · simpa using hdeleted
          · simpa using hservable
          · rw [hreq]
            exact ⟨all_of_not_any hworker, all_of_not_any hjob⟩

end Attaching

section Scanning

variable {id key : String} {row : Artifact}

/-- Moving an object changes no row. -/
theorem moveObject_tells {source target : BucketKind} {f : Unit → Code β} {F : β → List Executed → Prop}
    (hnext : ∀ ns', (∀ id, lastRow ns' id = lastRow ns id) →
      (f ()).Tells (storage env) a (Lawful env a.req) F (fun _ _ => True) ns') :
    ((moveObject env source target key).bind f).Tells (storage env) a (Lawful env a.req) F
      (fun _ _ => True) ns := by
  unfold moveObject
  refine tells_bind.mpr (tells_run trivial (fun there => ?_) trivial)
  cases there with
  | false => trivial
  | true =>
      refine tells_stmt trivial (fun _ => ?_) trivial
      exact hnext _ fun id => (lastRow_cons rfl).trans (lastRow_cons rfl)

/-- Removing the stored bytes of an artifact changes no row. -/
theorem deleteStorageObject_tells {f : Unit → Code β}
    (hout : ∀ path, env.localPath key = some path → Lawful env a.req ns (.unlink path))
    (hnext : ∀ ns', (∀ id, lastRow ns' id = lastRow ns id) →
      (f ()).Tells (storage env) a (Lawful env a.req) F (fun _ _ => True) ns') :
    ((deleteStorageObject env key).bind f).Tells (storage env) a (Lawful env a.req) F
      (fun _ _ => True) ns := by
  unfold deleteStorageObject
  cases hpath : env.localPath key with
  | none => trivial
  | some path => exact tells_unlink (hout path hpath) hnext

/-- What a scan does with its result, when it has found the row waiting for one. -/
theorem finishScan_tells {scan : ScanResult} (hscans : a.req.scans)
    (hkey : row.storageKey = some key) (hrow : lastRow ns id = some row) (hunscanned : row.unscanned)
    (hclaimed : ∃ n ∈ ns, n.claims id = true)
    (hvouched : scan.ok = true → env.backend = .local' → Vouched env ns id row) :
    (finishScan env id key scan).Tells (storage env) a (Lawful env a.req)
      (fun _ ns => ∃ n ∈ ns, n.settles id = true) (fun _ _ => True) ns := by
  unfold finishScan
  dsimp only
  by_cases hok : scan.ok = true
  · have hsettles : ∀ ns u moved, ∃ n ∈ (⟨a.req, .update id
        (.scanned (some env.engineName) moved), u⟩ :: ns : List Executed), n.settles id = true :=
      fun ns u moved => ⟨_, List.mem_cons_self, by simp [Executed.settles, ArtifactUpdate.status]⟩
    rw [if_pos hok]
    cases hbackend : env.backend with
    | local' =>
        rw [if_neg (by simp)]
        exact tells_stmt ⟨row, hrow, Or.inr ⟨hscans, hunscanned⟩, hvouched hok⟩
          (fun u => hsettles ns u _) trivial
    | s3 =>
        rw [if_pos (by simp)]
        refine moveObject_tells fun ns' hsame => tells_stmt ⟨row, (hsame id).trans hrow,
          Or.inr ⟨hscans, hunscanned⟩, fun hlocal => ?_⟩ (fun u => hsettles ns' u _) trivial
        rw [hbackend] at hlocal
        cases hlocal
  rw [if_neg hok]
  by_cases hretry : isRetryable env.toScannerEnv (scan.reason.getD "scan_failed") = true
  · rw [if_pos hretry]
    exact tells_run ⟨row, hrow, hscans, hunscanned, hclaimed⟩ (fun _ => trivial) trivial
  rw [if_neg hretry]
  have hblock : ∀ ns', (∀ id, lastRow ns' id = lastRow ns id) → ∀ key',
      ((run (.update id (.blocked (some env.engineName) (some (scan.reason.getD "scan_failed"))
        key'))).bind fun _ => (throw (scan.reason.getD "scan_failed") : Code Unit)).Tells
        (storage env) a (Lawful env a.req) (fun _ ns => ∃ n ∈ ns, n.settles id = true)
        (fun _ _ => True) ns' :=
    fun ns' hsame key' => tells_run ⟨row, (hsame id).trans hrow, Or.inr hunscanned.1⟩
      (fun _ => trivial) trivial
  cases hbackend : env.backend with
  | local' =>
      rw [if_neg (by simp)]
      refine deleteStorageObject_tells (fun path hpath => ⟨id, row, Or.inr (Or.inr hscans), hrow, ?_⟩)
        fun ns' hsame => hblock ns' hsame _
      rw [StorageEnv.uploadPath, hkey]
      exact hpath
  | s3 =>
      rw [if_pos (by simp)]
      exact moveObject_tells fun ns' hsame => hblock ns' hsame _

/-- Reading the bytes to scan is one statement. -/
theorem readObject_tells {f : Bytes → Code β} (hreq : ∀ reader id', a.req ≠ .download reader id')
    (hnext : ∀ (n : Executed) bytes, (∀ id, n.row? id = none) →
      (env.backend = .local' → ∃ path, env.localPath key = some path ∧
        n.bytes? path = some (some bytes)) →
      (f bytes).Tells (storage env) a (Lawful env a.req) F (fun _ _ => True) (n :: ns)) :
    ((readObject env key).bind f).Tells (storage env) a (Lawful env a.req) F (fun _ _ => True)
      ns := by
  unfold readObject
  refine tells_bind.mpr ?_
  cases hbackend : env.backend with
  | local' =>
      cases hpath : env.localPath key with
      | none => trivial
      | some path =>
          have hread : Lawful env a.req ns (.readFile path) :=
            fun reader id' heq => absurd heq (hreq reader id')
          refine tells_run hread (fun found => ?_) trivial
          cases found with
          | none => trivial
          | some bytes =>
              exact hnext _ bytes (fun _ => rfl) fun _ => ⟨path, hpath, by simp [Executed.bytes?]⟩
  | s3 =>
      refine tells_run trivial (fun found => ?_) trivial
      cases found with
      | none => trivial
      | some bytes =>
          dsimp only
          by_cases hsize : env.maxUploadBytes < bytes.length
          · rw [if_pos hsize]
            trivial
          rw [if_neg hsize]
          refine hnext _ bytes (fun _ => rfl) fun hlocal => ?_
          rw [hbackend] at hlocal
          cases hlocal

/-- A scan reads the row and the bytes, and marks the row if the row waits for a scan. -/
theorem scanArtifactObject_tells (hscans : a.req.scans)
    (hclaimed : ∃ n ∈ ns, n.claims id = true) :
    (scanArtifactObject env id).Tells (storage env) a (Lawful env a.req)
      (fun _ ns => ∃ n ∈ ns, n.settles id = true) (fun _ _ => True) ns := by
  have hdownload : ∀ reader id', a.req ≠ .download reader id' := by
    intro reader id' heq
    rw [heq] at hscans
    exact hscans
  refine tells_run trivial (fun found => ?_) trivial
  have hsettled : (found.all fun row => row.deletedAt.isSome ||
        decide (row.status ∈ [.scanned, .accepted, .blocked, .deleted])) = true →
      ∃ n ∈ (⟨a.req, .select id, found⟩ :: ns : List Executed), n.settles id = true :=
    fun h => ⟨_, List.mem_cons_self, by simpa [Executed.settles] using h⟩
  cases found with
  | none => exact hsettled rfl
  | some row =>
      dsimp only
      by_cases hdeleted : row.deletedAt.isSome = true
      · rw [if_pos hdeleted]
        exact hsettled (by simp [hdeleted])
      rw [if_neg hdeleted]
      cases hkey : row.storageKey with
      | none => trivial
      | some key =>
          dsimp only
          by_cases hstatus : row.status ∈ [.scanned, .accepted, .blocked, .deleted]
          · rw [if_pos hstatus]
            refine hsettled ?_
            rw [Option.all_some, decide_eq_true hstatus, Bool.or_true]
          rw [if_neg hstatus]
          have hunscanned : row.unscanned := ⟨by simpa using hdeleted, hstatus⟩
          refine readObject_tells hdownload fun n bytes hn hlocal => ?_
          have hrow : lastRow (n :: ⟨a.req, .select id, some row⟩ :: ns) id = some row :=
            (lastRow_cons (hn id)).trans (lastRow_select _)
          obtain ⟨c, hc, hclaims⟩ := hclaimed
          have hmem : c ∈ n :: ⟨a.req, .select id, some row⟩ :: ns := by simp [hc]
          refine tells_run ⟨row, hrow, hscans, hunscanned, c, hmem, hclaims⟩ (fun _ => ?_) trivial
          refine tells_run trivial (fun scan => ?_) trivial
          refine finishScan_tells hscans hkey ((lastRow_cons rfl).trans ((lastRow_cons rfl).trans hrow))
            hunscanned ⟨c, by simp [hc], hclaims⟩ fun hok hbackend => ?_
          obtain ⟨path, hpath, hbytes⟩ := hlocal hbackend
          refine ⟨path, bytes, ?_, ?_, _, List.mem_cons_self, by simp [Executed.passes, hok]⟩
          · rw [StorageEnv.uploadPath, hkey]
            exact hpath
          · refine (lastBytes_cons rfl).trans ((lastBytes_cons rfl).trans ?_)
            simp [lastBytes, hbytes]

/-- Delivering a scan event marks it sent only after the scan has found the artifact settled. -/
theorem deliverScan_tells {evt : String × Nat} (hscans : a.req.scans)
    (hclaimed : ∃ n ∈ ns, n.claims evt.1 = true) :
    (deliverScan env evt).Tells (storage env) a (Lawful env a.req) (fun _ _ => True)
      (fun _ _ => True) ns := by
  refine tells_orElse.mpr (tells_bind.mpr ?_)
  have hfailed : ∀ message ns, (scanHandlerFailed env evt.1 evt.2 message).Tells (storage env) a
      (Lawful env a.req) (fun _ _ => True) (fun _ _ => True) ns := by
    intro message ns
    unfold scanHandlerFailed
    by_cases hmax : max 10 (min 1000 env.maxScanAttempts) ≤ evt.2
    · rw [if_pos hmax]
      exact tells_last trivial
    · rw [if_neg hmax]
      exact tells_last trivial
  refine (scanArtifactObject_tells hscans hclaimed).mono (fun _ ns' hsettles => ?_) fun e ns' _ =>
    hfailed e ns'
  exact tells_stmt ⟨hscans, hsettles⟩ (fun _ => trivial) (hfailed "" ns')

/-- A round of the scanner delivers the events it has taken. -/
theorem scannerRound_tells (hscans : a.req.scans) :
    (scannerRound env).Tells (storage env) a (Lawful env a.req) (fun _ _ => True)
      (fun _ _ => True) ns := by
  refine tells_run trivial (fun batch => ?_) trivial
  let claimed : List Executed → Prop := fun ns => ∀ evt ∈ batch, ∃ n ∈ ns, n.claims evt.1 = true
  have hmono : ∀ new ns, claimed ns → claimed (new ++ ns) := by
    intro new ns h evt hevt
    obtain ⟨n, hn, hclaims⟩ := h evt hevt
    exact ⟨n, List.mem_append_right new hn, hclaims⟩
  have hclaimed : claimed (⟨a.req, .claimScans, batch⟩ :: ns) := by
    intro evt hevt
    exact ⟨_, List.mem_cons_self, decide_eq_true (List.mem_map_of_mem hevt)⟩
  refine (Prog.tells_forEach (I := claimed) (fun evt hevt ns' hns' => ?_) hclaimed).mono
    (fun _ _ _ => trivial) fun _ _ _ => trivial
  exact ((deliverScan_tells hscans (hns' evt hevt)).keeping hns' hmono).mono (fun _ _ h => h.2)
    fun _ _ h => h.2

end Scanning

section Removing

variable {id : String}

/-- Removing what is stored for an artifact changes no row. -/
theorem removeStored_tells {row : Artifact} {f : Unit → Code β} (hdeletes : a.req.deletes id)
    (hrow : lastRow ns id = some row) (hnext : ∀ ns', (∀ id, lastRow ns' id = lastRow ns id) →
      (f ()).Tells (storage env) a (Lawful env a.req) F (fun _ _ => True) ns') :
    ((removeStored env row).bind f).Tells (storage env) a (Lawful env a.req) F
      (fun _ _ => True) ns := by
  unfold removeStored
  cases hkey : row.storageKey with
  | none => exact hnext ns fun _ => rfl
  | some key =>
      cases hbackend : env.backend with
      | local' =>
          refine deleteStorageObject_tells
            (fun path hpath => ⟨id, row, Or.inr (Or.inl hdeletes), hrow, ?_⟩) hnext
          rw [StorageEnv.uploadPath, hkey]
          exact hpath
      | s3 => exact tells_run trivial (fun _ => hnext _ fun _ => lastRow_cons rfl) trivial

/-- A deletion marks only a row that it has read undeleted. -/
theorem deleteArtifactObject_tells (hdeletes : a.req.deletes id) :
    (deleteArtifactObject env id).Tells (storage env) a (Lawful env a.req) (fun _ _ => True)
      (fun _ _ => True) ns := by
  refine tells_run trivial (fun found => ?_) trivial
  cases found with
  | none => trivial
  | some row =>
      dsimp only
      by_cases hdeleted : row.deletedAt.isSome = true
      · rw [if_pos hdeleted]
        trivial
      rw [if_neg hdeleted]
      have hnone : row.deletedAt = none := by simpa using hdeleted
      refine removeStored_tells hdeletes (lastRow_select _) fun ns' hsame => tells_run trivial (fun now => ?_) trivial
      refine tells_last ⟨row, ?_, hdeletes, hnone⟩
      exact (lastRow_cons rfl).trans ((hsame id).trans (lastRow_select _))

/-- A quarantine blocks only a row that it has read undeleted. -/
theorem quarantineObject_tells {key reason : String} {row : Artifact}
    (hrow : lastRow ns id = some row) (hdeleted : row.deletedAt = none) :
    (quarantineObject env id key reason row).Tells (storage env) a (Lawful env a.req)
      (fun _ _ => True) (fun _ _ => True) ns := by
  unfold quarantineObject
  cases hbackend : env.backend with
  | local' => exact tells_last ⟨row, hrow, Or.inr hdeleted⟩
  | s3 =>
      dsimp only
      by_cases hkind : row.bucketKind.getD .staging = .quarantine
      · rw [if_pos hkind]
        exact tells_last ⟨row, hrow, hdeleted⟩
      · rw [if_neg hkind]
        exact moveObject_tells fun ns' hsame =>
          tells_last ⟨row, (hsame id).trans hrow, Or.inr hdeleted⟩

/-- The admin quarantine. -/
theorem quarantineArtifactObjectAdmin_tells {reason : String} :
    (quarantineArtifactObjectAdmin env id reason).Tells (storage env) a (Lawful env a.req)
      (fun _ _ => True) (fun _ _ => True) ns := by
  unfold quarantineArtifactObjectAdmin
  by_cases hid : id = ""
  · rw [if_pos hid]
    trivial
  rw [if_neg hid]
  by_cases hreason : trimmed reason = ""
  · rw [if_pos hreason]
    trivial
  rw [if_neg hreason]
  refine tells_run trivial (fun found => ?_) trivial
  cases found with
  | none => trivial
  | some row =>
      dsimp only
      by_cases hdeleted : row.deletedAt.isSome = true
      · rw [if_pos hdeleted]
        trivial
      rw [if_neg hdeleted]
      have hnone : row.deletedAt = none := by simpa using hdeleted
      cases hkey : row.storageKey with
      | none => trivial
      | some key =>
          dsimp only
          by_cases hblocked : row.status = .blocked
          · rw [if_pos hblocked]
            exact tells_last ⟨row, lastRow_select _, hnone⟩
          · rw [if_neg hblocked]
            exact quarantineObject_tells (lastRow_select _) hnone

end Removing

section Completing

variable {id : String} {sha256 : Option String} {sizeBytes : Option Nat} {art : Artifact}

/-- The end of a completion. -/
theorem markComplete_tells (hcompletes : a.req.completes id) (hrow : lastRow ns id = some art)
    (hdeleted : art.deletedAt = none) (hentitled : a.req.entitled art) :
    (markComplete env id sha256 sizeBytes art).Tells (storage env) a (Lawful env a.req)
      (Answers env a.req) (fun _ _ => True) ns := by
  unfold markComplete
  by_cases hbackend : env.backend ≠ .s3
  · rw [if_pos hbackend]
    trivial
  · rw [if_neg hbackend]
    refine tells_run ⟨art, hrow, hcompletes, hdeleted, hentitled⟩ (fun _ => ?_) trivial
    have henqueue : ∀ ns, Lawful env a.req ns (.enqueueScan id) := fun _ => hcompletes
    exact tells_run (henqueue _) (fun _ => trivial) trivial

/-- The worker's completion. -/
theorem completeRoute_tells {workerId : Nat}
    (hreq : a.req = .complete id workerId sha256 sizeBytes) :
    (completeRoute env id workerId sha256 sizeBytes).Tells (storage env) a (Lawful env a.req)
      (Answers env a.req) (fun _ _ => True) ns := by
  refine tells_run trivial (fun found => ?_) trivial
  cases found with
  | none => trivial
  | some art =>
      dsimp only
      by_cases hdeleted : art.deletedAt.isSome = true
      · rw [if_pos hdeleted]
        trivial
      rw [if_neg hdeleted]
      by_cases hworker : (art.workerId.any fun w => decide (w ≠ workerId)) = true
      · rw [if_pos hworker]
        trivial
      rw [if_neg hworker]
      cases hjob : art.jobId with
      | none => trivial
      | some jobId =>
          refine tells_run trivial (fun job => ?_) trivial
          cases job with
          | none => trivial
          | some job =>
              dsimp only
              by_cases hlease : job.leaseWorkerId ≠ some workerId
              · rw [if_pos hlease]
                trivial
              rw [if_neg hlease]
              refine tells_run trivial (fun now => ?_) trivial
              by_cases hexpired : isLeaseExpired job.leaseExpiresAt now = true
              · rw [if_pos hexpired]
                trivial
              rw [if_neg hexpired]
              have hentitled : a.req.entitled art := by
                rw [hreq]
                exact all_of_not_any hworker
              refine markComplete_tells (by rw [hreq]; rfl) ?_ (by simpa using hdeleted) hentitled
              exact (lastRow_cons rfl).trans ((lastRow_cons rfl).trans (lastRow_select _))

/-- The verifier's completion. -/
theorem verifierCompleteRoute_tells (hreq : a.req = .verifierComplete id sha256 sizeBytes) :
    (verifierCompleteRoute env id sha256 sizeBytes).Tells (storage env) a (Lawful env a.req)
      (Answers env a.req) (fun _ _ => True) ns := by
  refine tells_run trivial (fun found => ?_) trivial
  cases found with
  | none => trivial
  | some art =>
      dsimp only
      by_cases hdeleted : art.deletedAt.isSome = true
      · rw [if_pos hdeleted]
        trivial
      rw [if_neg hdeleted]
      by_cases hworker : art.workerId.isSome = true
      · rw [if_pos hworker]
        trivial
      rw [if_neg hworker]
      by_cases hsubmission : art.submissionId.isNone = true
      · rw [if_pos hsubmission]
        trivial
      rw [if_neg hsubmission]
      have hentitled : a.req.entitled art := by
        have hnone : art.workerId = none := by simpa using hworker
        rw [hreq]
        exact hnone
      exact markComplete_tells (by rw [hreq]; rfl) (lastRow_select _) (by simpa using hdeleted)
        hentitled

end Completing

section Downloading

variable {id : String}

/-- The row found is the row read. -/
theorem getArtifactAccessInfo_tells {f : Option (Artifact × Option Nat) → Code β}
    (hnone : ∀ ns, (f none).Tells (storage env) a (Lawful env a.req) F (fun _ _ => True) ns)
    (hsome : ∀ art orgId ns, lastRow ns id = some art →
      (f (some (art, orgId))).Tells (storage env) a (Lawful env a.req) F (fun _ _ => True) ns) :
    ((getArtifactAccessInfo id).bind f).Tells (storage env) a (Lawful env a.req) F
      (fun _ _ => True) ns := by
  unfold getArtifactAccessInfo
  refine tells_bind.mpr (tells_run trivial (fun found => ?_) trivial)
  cases found with
  | none => exact hnone _
  | some art =>
      cases hjob : art.jobId with
      | some jobId =>
          simp only [hjob]
          refine tells_run trivial (fun orgId => ?_) trivial
          exact hsome art orgId _ ((lastRow_cons rfl).trans (lastRow_select _))
      | none =>
          cases hsubmission : art.submissionId with
          | some submissionId =>
              simp only [hjob, hsubmission]
              refine tells_run trivial (fun orgId => ?_) trivial
              exact hsome art orgId _ ((lastRow_cons rfl).trans (lastRow_select _))
          | none =>
              simp only [hjob, hsubmission]
              exact hsome art none _ (lastRow_select _)

/-- Presigning reads the row again. -/
theorem presign_tells {reader : Reader} (hreq : a.req = .download reader id) :
    (presignArtifactDownloadUrl env id).Tells (storage env) a (Lawful env a.req)
      (fun object => Answers env a.req (.redirect object.1 object.2)) (fun _ _ => True) ns := by
  refine tells_run trivial (fun found => ?_) trivial
  cases found with
  | none => trivial
  | some row =>
      dsimp only
      cases hkey : row.storageKey with
      | none => trivial
      | some key =>
          dsimp only
          by_cases hservable : (!row.servable) = true
          · rw [if_pos hservable]
            trivial
          rw [if_neg hservable]
          by_cases hclean : row.bucketKind ≠ some .clean
          · rw [if_pos hclean]
            trivial
          rw [if_neg hclean]
          exact ⟨reader, id, row, hreq, lastRow_select _, by simpa using hservable⟩

/-- What is sent is what was read for the row. -/
theorem serve_tells {reader : Reader} {key : String} {art : Artifact}
    (hreq : a.req = .download reader id) (hrow : lastRow ns id = some art)
    (hdeleted : art.deletedAt = none) (hkey : art.storageKey = some key)
    (hservable : art.servable = true) :
    (serve env id key art).Tells (storage env) a (Lawful env a.req) (Answers env a.req)
      (fun _ _ => True) ns := by
  unfold serve
  cases hbackend : env.backend with
  | local' =>
      dsimp only
      cases hpath : env.localPath key with
      | none => trivial
      | some path =>
          have hupload : env.uploadPath id art = some path := by
            rw [StorageEnv.uploadPath, hkey]
            exact hpath
          have hread : Lawful env a.req ns (.readFile path) := by
            intro reader' id' heq
            rw [hreq] at heq
            cases heq
            exact ⟨art, hrow, hservable, hupload⟩
          refine tells_run hread (fun found => ?_) trivial
          cases found with
          | none => trivial
          | some bytes =>
              exact ⟨reader, id, art, path, hreq, (lastRow_cons rfl).trans hrow, hdeleted,
                hservable, hupload, List.mem_cons_self⟩
  | s3 =>
      refine tells_orElse.mpr (tells_bind.mpr ?_)
      exact (presign_tells hreq).mono (fun _ _ h => h) fun _ _ _ => trivial

/-- A download. -/
theorem downloadRoute_tells {reader : Reader} (hreq : a.req = .download reader id) :
    (downloadRoute env reader id).Tells (storage env) a (Lawful env a.req) (Answers env a.req)
      (fun _ _ => True) ns := by
  refine getArtifactAccessInfo_tells (fun _ => trivial) fun art orgId ns hrow => ?_
  dsimp only
  by_cases hdeleted : art.deletedAt.isSome = true
  · rw [if_pos hdeleted]
    trivial
  rw [if_neg hdeleted]
  cases hkey : art.storageKey with
  | none => trivial
  | some key =>
      dsimp only
      by_cases hblocked : art.status = .blocked
      · rw [if_pos hblocked]
        trivial
      rw [if_neg hblocked]
      by_cases hservable : (!art.servable) = true
      · rw [if_pos hservable]
        trivial
      rw [if_neg hservable]
      by_cases hreader : (!reader.mayRead art orgId) = true
      · rw [if_pos hreader]
        trivial
      rw [if_neg hreader]
      exact serve_tells hreq hrow (by simpa using hdeleted) hkey (by simpa using hservable)

end Downloading

section Requests

/-- An upload route with a body. -/
theorem uploadRoute_tells {bytes : Option Bytes} {put : Bytes → Code Unit}
    (hput : ∀ bytes ns, (put bytes).Tells (storage env) a (Lawful env a.req) (fun _ _ => True)
      (fun _ _ => True) ns) :
    (uploadRoute bytes put).Tells (storage env) a (Lawful env a.req) (Answers env a.req)
      (fun _ _ => True) ns := by
  unfold uploadRoute
  cases bytes with
  | none => trivial
  | some bytes => exact tells_caught (hput bytes ns) (fun _ => trivial) fun _ _ => trivial

/-- The artifacts of a submission, one after the other. -/
theorem submitRoute_tells {submissionId jobId workerId : Nat} {refs : List ArtifactRef}
    (hreq : a.req = .submit submissionId jobId workerId refs) :
    (submitRoute env submissionId jobId workerId refs).Tells (storage env) a (Lawful env a.req)
      (Answers env a.req) (fun _ _ => True) ns := by
  refine tells_caught ?_ (fun _ => trivial) fun _ _ => trivial
  exact Prog.tells_forEach (I := fun _ => True)
    (fun ref href ns' _ => attachRef_tells hreq href) trivial

/-- An admin deletion. -/
theorem adminDeleteRoute_tells {id : String} (hdeletes : a.req.deletes id) :
    (adminDeleteRoute env id).Tells (storage env) a (Lawful env a.req) (Answers env a.req)
      (fun _ _ => True) ns := by
  refine getArtifactAccessInfo_tells (fun _ => trivial) fun art orgId ns _ => ?_
  dsimp only
  by_cases hdeleted : art.deletedAt.isSome = true
  · rw [if_pos hdeleted]
    trivial
  rw [if_neg hdeleted]
  exact tells_answered (deleteArtifactObject_tells hdeletes)

/-- Every statement and every answer of a request follows from what it has executed. -/
theorem Request.code_tells (env : StorageEnv) (i : Nat) (q : Request) :
    (q.code env).Tells (storage env) ⟨i, q⟩ (Lawful env q) (Answers env q) (fun _ _ => True) [] := by
  cases q with
  | upload id workerId bytes contentType =>
      exact uploadRoute_tells (a := ⟨i, _⟩) fun _ _ =>
        putUpload_tells rfl (fun _ h => h) fun _ => ⟨_, _, _, rfl⟩
  | verifierUpload id bytes contentType =>
      exact uploadRoute_tells (a := ⟨i, _⟩) fun _ _ =>
        putUpload_tells rfl (fun _ h => Option.isNone_iff_eq_none.mp h) fun _ => ⟨_, _, _, rfl⟩
  | complete id workerId sha256 sizeBytes => exact completeRoute_tells (a := ⟨i, _⟩) rfl
  | verifierComplete id sha256 sizeBytes => exact verifierCompleteRoute_tells (a := ⟨i, _⟩) rfl
  | scannerRound => exact tells_answered (a := ⟨i, _⟩) (scannerRound_tells trivial)
  | deliverDelete id => exact tells_answered (a := ⟨i, _⟩) (deleteArtifactObject_tells rfl)
  | adminDelete id => exact adminDeleteRoute_tells (a := ⟨i, _⟩) rfl
  | quarantine id reason =>
      exact tells_caught (a := ⟨i, _⟩) quarantineArtifactObjectAdmin_tells (fun _ => trivial)
        fun _ _ => trivial
  | submit submissionId jobId workerId refs => exact submitRoute_tells (a := ⟨i, _⟩) rfl
  | accept submissionId =>
      have haccept : Lawful env (.accept submissionId) [] (.acceptAll submissionId) := rfl
      exact tells_answered (a := ⟨i, _⟩) (tells_run haccept (fun _ => trivial) trivial)
  | download reader id => exact downloadRoute_tells (a := ⟨i, _⟩) rfl

end Requests

end Walks

end OpenUnion.Storage
