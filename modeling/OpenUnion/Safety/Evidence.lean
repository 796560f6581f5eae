import OpenUnion.Safety.Artifacts

/-!
# Submitted evidence

Nothing freezes an artifact when it is attached to a submission: uploads, completions and
submits look at whose it is and for which job, and not at its submission.

* `evidence_changes_own`: the submission, the hash, the size and the stored bytes of an artifact
  change only by requests of its own worker, by scans and by deletions, each by those that are
  meant to set them.
* `evidence_replaced`: an upload and a submit of the worker replace them all after the
  verification has started.
-/

namespace OpenUnion.Storage

open Interleave

/-- The note updates the row of the artifact. -/
def Executed.updates (id : String) : Executed → Prop
  | ⟨_, .update id' _, _⟩ => id' = id
  | _ => False

/-- The note writes to the file, or removes it. -/
def Executed.stores (path : String) : Executed → Prop
  | ⟨_, .writeFile path' _, _⟩ | ⟨_, .unlink path', _⟩ => path' = path
  | _ => False

/-- The request submits work. -/
def Request.submits : Request → Prop
  | .submit _ _ _ _ => True
  | _ => False

section Steps

variable {env : StorageEnv} {w w₀ : World} {id path : String} {row row' : Artifact} {β : Type}
  {f : Artifact → β} {kind : Request → Prop}

/-- Whether a request may change an artifact depends on what never changes. -/
theorem Request.entitled_congr {q : Request} (h : row.fixed = row'.fixed) (hq : q.entitled row) :
    q.entitled row' := by
  have hworker : row.workerId = row'.workerId := congrArg (fun x => x.2.1) h
  have hjob : row.jobId = row'.jobId := congrArg (fun x => x.2.2) h
  unfold Request.entitled at hq ⊢
  rw [hworker, hjob] at hq
  exact hq

/-- The update sets none of the submission, the hash and the size. -/
theorem Artifact.set_evidence {u : ArtifactUpdate} {a : Artifact}
    (h : match u with
      | .attached .. | .uploaded .. | .completed .. | .scanStarted .. => False
      | _ => True) :
    (a.set u).submissionId = a.submissionId ∧ (a.set u).sha256 = a.sha256 ∧
      (a.set u).sizeBytes = a.sizeBytes := by
  unfold Artifact.set
  cases u with
  | scanned engine moved =>
      cases engine with
      | none => exact ⟨rfl, rfl, rfl⟩
      | some engine => cases moved <;> exact ⟨rfl, rfl, rfl⟩
  | scanFailed engine reason moved => cases moved <;> exact ⟨rfl, rfl, rfl⟩
  | blocked engine reason quarantineKey => cases quarantineKey <;> exact ⟨rfl, rfl, rfl⟩
  | attached _ _ _ _ _ _ => exact h.elim
  | uploaded _ _ => exact h.elim
  | completed _ _ => exact h.elim
  | scanStarted _ _ => exact h.elim
  | _ => exact ⟨rfl, rfl, rfl⟩

/-- The row that a request has read for an update has what never changes. -/
theorem KeysKept.fixed_of_read {g : Glob World Executed} (h : KeysKept w₀ g) {i : Nat}
    (hlast : lastRow (own i g.hist) id = some row')
    (hrow : (w₀.artifacts id).map Artifact.fixed = some row.fixed) : row'.fixed = row.fixed := by
  obtain ⟨n, earlier, hsplit, hn⟩ := reads_split hlast
  have hmem : (i, n) ∈ g.hist := by
    rw [hsplit]
    exact List.mem_append_right _ List.mem_cons_self
  exact Option.some.inj ((h.read _ hmem id row' hn).symm.trans hrow)

variable {ok : Step → Glob World Executed → Bool} {cs cs' : List Pick} {c d : State}

/-- What every statement keeps, unless it is of the kind, a run keeps, unless it executes such a
statement. -/
theorem exec_changed {obs : World → β} {kind : Executed → Prop}
    (hstmt : ∀ (a : Actor Request) s g, KeysKept w₀ g → Lawful env a.req (own a.pid g.hist) s →
      obs (s.write env g.world) = obs g.world ∨ kind ⟨a.req, s, s.result env g.world⟩)
    (henv : ∀ (e : Outside) w, obs (e.move env w) = obs w)
    (h : (storage env).exec ok cs (Sys.start w₀) = some c)
    (h' : (storage env).exec ok cs' c = some d) : ChangedBy obs kind c.glob d.glob := by
  refine Machine.exec_autocommit_rel ChangedBy.refl (fun _ _ _ => ChangedBy.trans) ?_ h h'
  intro cs c ch l c' hrun hmove _
  have hkeys := (exec_artifacts (I := fun _ => True) trivial (fun _ _ _ _ _ _ _ => trivial)
    (fun _ _ _ => trivial) hrun).1
  have hstep := Machine.exec_autostep (Request.code_tells env) hrun hmove
  generalize c.glob = g at hstep hkeys
  generalize c'.glob = g' at hstep
  cases hstep with
  | stmt a s busy _ hout =>
      refine ⟨[(a.pid, ⟨a.req, s, s.result env g.world⟩)], rfl, ?_⟩
      obtain hsame | hkind := hstmt a s g hkeys hout
      · exact Or.inl hsame
      · exact Or.inr ⟨_, List.mem_singleton_self _, hkind⟩
  | reply a x _ hx => exact ChangedBy.refl g
  | env e _ => exact ⟨[], rfl, Or.inl (henv e g.world)⟩
  | idle l _ _ _ => exact ChangedBy.refl g

/-- A column of a row changes only by the updates that set it, of requests that may. -/
theorem exec_column (kind : Request → Prop) (haccept : ∀ a : Artifact, f { a with status := .accepted } = f a)
    (hupdate : ∀ q ns row u, LawfulUpdate env q ns id row u →
      (∀ a : Artifact, f (a.set u) = f a) ∨ kind q ∧ q.entitled row)
    (hfixed : (w₀.artifacts id).map Artifact.fixed = some row.fixed)
    (h : (storage env).exec ok cs (Sys.start w₀) = some c)
    (h' : (storage env).exec ok cs' c = some d) :
    ChangedBy (fun w => (w.artifacts id).map f)
      (fun n => n.updates id ∧ kind n.req ∧ n.req.entitled row) c.glob d.glob := by
  refine exec_changed (fun a s g hkeys hout => ?_) (fun e w => by cases e <;> rfl) h h'
  obtain ⟨-, heq⟩ | ⟨u, rfl, heq⟩ | ⟨n, -, -, heq⟩ := row_after env s g.world id
  · exact Or.inl (congrArg (Option.map f) heq)
  · obtain ⟨row', hlast, hlawful⟩ := hout
    obtain hsame | ⟨hkind, hentitled⟩ := hupdate _ _ row' u hlawful
    · refine Or.inl ?_
      rw [heq, Option.map_map]
      exact congrArg (fun k => (g.world.artifacts id).map k) (funext hsame)
    · exact Or.inr ⟨rfl, hkind,
        Request.entitled_congr (hkeys.fixed_of_read hlast hfixed) hentitled⟩
  · refine Or.inl ?_
    rw [heq, Option.map_map]
    exact congrArg (fun k => (g.world.artifacts id).map k) (funext haccept)

/-- The file of an artifact changes only by an upload that may, a scan or a deletion. -/
theorem exec_file (hdistinct : w₀.Distinct env)
    (hfixed : (w₀.artifacts id).map Artifact.fixed = some row.fixed)
    (hpath : env.uploadPath id row = some path)
    (h : (storage env).exec ok cs (Sys.start w₀) = some c)
    (h' : (storage env).exec ok cs' c = some d) :
    ChangedBy (fun w => w.files path)
      (fun n => n.stores path ∧ (n.req.uploads id ∧ n.req.entitled row ∨ n.req.deletes id ∨
        n.req.scans)) c.glob d.glob := by
  refine exec_changed (fun a s g hkeys hout => ?_) (fun e w => by cases e <;> rfl) h h'
  have howner : ∀ id' row', lastRow (own a.pid g.hist) id' = some row' →
      env.uploadPath id' row' = some path → id' = id ∧ row'.fixed = row.fixed := by
    intro id' row' hlast hupload
    obtain ⟨n, earlier, hsplit, hn⟩ := reads_split hlast
    have hmem : (a.pid, n) ∈ g.hist := by
      rw [hsplit]
      exact List.mem_append_right _ List.mem_cons_self
    have hid' : g.world.path env id' = some path := (hkeys.path hmem hn).trans hupload
    have hid : g.world.path env id = some path := by
      have hnow : (g.world.artifacts id).map Artifact.fixed = some row.fixed :=
        (hkeys.now id).trans hfixed
      rw [path_of_key hnow]
      exact hpath
    obtain rfl := hkeys.distinct hdistinct id' id path hid' hid
    exact ⟨rfl, hkeys.fixed_of_read hlast hfixed⟩
  cases s with
  | writeFile path' bytes =>
      by_cases hp : path' = path
      · subst hp
        obtain ⟨id', row', huploads, hlast, hupload, hentitled⟩ := hout
        obtain ⟨rfl, hrow⟩ := howner id' row' hlast hupload
        exact Or.inr ⟨rfl, Or.inl ⟨huploads, Request.entitled_congr hrow hentitled⟩⟩
      · exact Or.inl (Function.update_of_ne (Ne.symm hp) _ _)
  | unlink path' =>
      by_cases hp : path' = path
      · subst hp
        obtain ⟨id', row', hwho, hlast, hupload⟩ := hout
        obtain ⟨rfl, hrow⟩ := howner id' row' hlast hupload
        refine Or.inr ⟨rfl, hwho.imp_left fun hown => ?_⟩
        exact ⟨hown.1, Request.entitled_congr hrow hown.2⟩
      · exact Or.inl (Function.update_of_ne (Ne.symm hp) _ _)
  | enqueueScan id' =>
      refine Or.inl ?_
      by_cases hevent : (g.world.events id').isSome = true
      · simp [Stmt.write, hevent]
      · simp [Stmt.write, hevent]
  | copyObject bucket key target =>
      refine Or.inl ?_
      cases hobject : g.world.objects bucket key with
      | none => simp [Stmt.write, hobject]
      | some bytes => simp [Stmt.write, hobject, World.putObject]
  | _ => exact Or.inl rfl

end Steps

section Runs

variable {env : StorageEnv} {w : World} {id : String} {row : Artifact}
  {ok : Step → Glob World Executed → Bool} {cs cs' : List Pick} {c d : State}

/-- **Evidence changes only by its own worker**: from any state on, the submission of an artifact
changes only by a submit, its hash only by a submit or a completion, its size by these, an upload
or a scan, and its stored bytes by an upload, a scan or a deletion; and the submits, completions
and uploads are of a request that may change the artifact: of its worker, and for its job. -/
theorem evidence_changes_own (hdistinct : w.Distinct env)
    (hrun : (storage env).exec ok cs (Sys.start w) = some c)
    (hrow : c.glob.world.artifacts id = some row)
    (hlater : (storage env).exec ok cs' c = some d) :
    ChangedBy (fun w => (w.artifacts id).map Artifact.submissionId)
      (fun n => n.updates id ∧ n.req.submits ∧ n.req.entitled row) c.glob d.glob ∧
    ChangedBy (fun w => (w.artifacts id).map Artifact.sha256)
      (fun n => n.updates id ∧ (n.req.submits ∨ n.req.completes id) ∧ n.req.entitled row)
      c.glob d.glob ∧
    ChangedBy (fun w => (w.artifacts id).map Artifact.sizeBytes)
      (fun n => n.updates id ∧ (n.req.submits ∨ n.req.completes id ∨ n.req.uploads id ∨
        n.req.scans) ∧ n.req.entitled row) c.glob d.glob ∧
    ∀ path, env.uploadPath id row = some path → ChangedBy (fun w => w.files path)
      (fun n => n.stores path ∧ (n.req.uploads id ∧ n.req.entitled row ∨ n.req.deletes id ∨
        n.req.scans)) c.glob d.glob := by
  have hkeys := (exec_artifacts (I := fun _ => True) trivial (fun _ _ _ _ _ _ _ => trivial)
    (fun _ _ _ => trivial) hrun).1
  have hfixed : (w.artifacts id).map Artifact.fixed = some row.fixed := by
    rw [← hkeys.now id, hrow, Option.map_some]
  have hsubmits : ∀ {q : Request} {submissionId jobId workerId : Nat} {refs : List ArtifactRef},
      q = .submit submissionId jobId workerId refs → q.submits := fun heq => heq ▸ trivial
  refine ⟨?_, ?_, ?_, fun path hpath => exec_file hdistinct hfixed hpath hrun hlater⟩
  · refine exec_column Request.submits (fun _ => rfl) (fun q ns row' u hlawful => ?_)
      hfixed hrun hlater
    cases u with
    | attached _ _ _ _ _ _ =>
        obtain ⟨-, -, hentitled, jobId, workerId, refs, ref, hreq, -⟩ := hlawful
        exact Or.inr ⟨hsubmits hreq, hentitled⟩
    | uploaded _ _ => exact Or.inl fun _ => rfl
    | completed _ _ => exact Or.inl fun _ => rfl
    | scanStarted _ _ => exact Or.inl fun _ => rfl
    | _ => exact Or.inl fun a => (Artifact.set_evidence trivial).1
  · refine exec_column (fun q => q.submits ∨ q.completes id) (fun _ => rfl)
      (fun q ns row' u hlawful => ?_) hfixed hrun hlater
    cases u with
    | attached _ _ _ _ _ _ =>
        obtain ⟨-, -, hentitled, jobId, workerId, refs, ref, hreq, -⟩ := hlawful
        exact Or.inr ⟨Or.inl (hsubmits hreq), hentitled⟩
    | completed _ _ => exact Or.inr ⟨Or.inr hlawful.1, hlawful.2.2⟩
    | uploaded _ _ => exact Or.inl fun _ => rfl
    | scanStarted _ _ => exact Or.inl fun _ => rfl
    | _ => exact Or.inl fun a => (Artifact.set_evidence trivial).2.1
  · refine exec_column
      (fun q => q.submits ∨ q.completes id ∨ q.uploads id ∨ q.scans) (fun _ => rfl)
      (fun q ns row' u hlawful => ?_) hfixed hrun hlater
    cases u with
    | attached _ _ _ _ _ _ =>
        obtain ⟨-, -, hentitled, jobId, workerId, refs, ref, hreq, -⟩ := hlawful
        exact Or.inr ⟨Or.inl (hsubmits hreq), hentitled⟩
    | completed _ _ => exact Or.inr ⟨Or.inr (Or.inl hlawful.1), hlawful.2.2⟩
    | uploaded _ _ => exact Or.inr ⟨Or.inr (Or.inr (Or.inl hlawful.1)), hlawful.2⟩
    | scanStarted _ _ =>
        refine Or.inr ⟨Or.inr (Or.inr (Or.inr hlawful.1)), ?_⟩
        cases q with
        | scannerRound => trivial
        | _ => exact hlawful.1.elim
    | _ => exact Or.inl fun a => (Artifact.set_evidence trivial).2.2

end Runs

/-- A reference to the artifact. -/
def artifactRef (sha256 : String) : ArtifactRef :=
  ⟨"other", "a.bin", sha256, "/api/artifacts/a/download", none, none⟩

/-- Worker 1 uploads the artifact and submits it as submission 7, whose verification starts. -/
def uploadAndSubmit : List Pick :=
  ([.spawn (.upload "a" 1 (some [1, 2, 3]) none)] : List Pick) ++ @List.replicate Pick 6 (.run 0) ++
    ([.spawn (.submit 7 2 1 [artifactRef "s1"])] : List Pick) ++ @List.replicate Pick 3 (.run 1) ++
    ([.env (.verify 7)] : List Pick)

/-- Worker 2 tries to upload to it. -/
def foreignUpload : List Pick :=
  ([.spawn (.upload "a" 2 (some [4, 5]) none)] : List Pick) ++ @List.replicate Pick 2 (.run 2)

/-- Worker 1 uploads it again, and submits it as submission 8. -/
def uploadAndSubmitAgain : List Pick :=
  ([.spawn (.upload "a" 1 (some [4, 5]) none)] : List Pick) ++ @List.replicate Pick 6 (.run 2) ++
    ([.spawn (.submit 8 2 1 [artifactRef "s2"])] : List Pick) ++ @List.replicate Pick 3 (.run 3)

theorem evidence_changes_own_foreign :
    ∃ c d row, (storage .disk).exec (fun _ _ => true) uploadAndSubmit (Sys.start artifactWorld) =
        some c ∧ c.glob.world.artifacts "a" = some row ∧ row.submissionId = some 7 ∧
      (storage .disk).exec (fun _ _ => true) foreignUpload c = some d ∧
      ChangedBy (fun w => (w.artifacts "a").map Artifact.submissionId)
        (fun n => n.updates "a" ∧ n.req.submits ∧ n.req.entitled row) c.glob d.glob := by
  obtain ⟨c, hrun, h⟩ := stores .disk (fun _ _ => true) uploadAndSubmit artifactWorld
    (fun c => (c.glob.world.artifacts "a").any (fun (row : Artifact) =>
        decide (row.submissionId = some 7)) &&
      ((storage .disk).exec (fun _ _ => true) foreignUpload c).isSome) (by decide)
  obtain ⟨hattached, hsome⟩ := Bool.and_eq_true_iff.mp h
  obtain ⟨row, hrow, hsubmission⟩ := (Option.any_eq_true _ _).mp hattached
  obtain ⟨d, hlater⟩ := Option.isSome_iff_exists.mp hsome
  exact ⟨c, d, row, hrun, hrow, of_decide_eq_true hsubmission, hlater,
    (evidence_changes_own (artifactWorld_distinct .disk) hrun hrow hlater).1⟩

/-- After the verification of submission 7 has started, its worker replaces the stored bytes, the
size, the hash and the submission of the artifact. -/
theorem evidence_replaced :
    ∃ c d row row', (storage .disk).exec (fun _ _ => true) uploadAndSubmit
        (Sys.start artifactWorld) = some c ∧ c.glob.world.artifacts "a" = some row ∧
      row.submissionId = some 7 ∧ c.glob.world.verifying 7 = true ∧
      (storage .disk).exec (fun _ _ => true) uploadAndSubmitAgain c = some d ∧
      d.glob.world.artifacts "a" = some row' ∧ row'.status = .scanned ∧
      row'.submissionId ≠ row.submissionId ∧ row'.sha256 ≠ row.sha256 ∧
      row'.sizeBytes ≠ row.sizeBytes ∧
      c.glob.world.files "/data/artifacts/a/a.bin" = some [1, 2, 3] ∧
      d.glob.world.files "/data/artifacts/a/a.bin" = some [4, 5] := by
  obtain ⟨c, hrun, h⟩ := stores .disk (fun _ _ => true) uploadAndSubmit artifactWorld
    (fun c => (c.glob.world.artifacts "a").any fun (row : Artifact) =>
      ((storage .disk).exec (fun _ _ => true) uploadAndSubmitAgain c).any fun d =>
        (d.glob.world.artifacts "a").any fun (row' : Artifact) =>
          decide (row.submissionId = some 7 ∧ c.glob.world.verifying 7 = true ∧
            row'.status = .scanned ∧ row'.submissionId ≠ row.submissionId ∧
            row'.sha256 ≠ row.sha256 ∧ row'.sizeBytes ≠ row.sizeBytes ∧
            c.glob.world.files "/data/artifacts/a/a.bin" = some [1, 2, 3] ∧
            d.glob.world.files "/data/artifacts/a/a.bin" = some [4, 5])) (by decide)
  obtain ⟨row, hrow, h⟩ := (Option.any_eq_true _ _).mp h
  obtain ⟨d, hlater, h⟩ := (Option.any_eq_true _ _).mp h
  obtain ⟨row', hrow', h⟩ := (Option.any_eq_true _ _).mp h
  obtain ⟨hsubmission, hverifying, hstatus, hs, hsha, hsize, hfile, hfile'⟩ := of_decide_eq_true h
  exact ⟨c, d, row, row', hrun, hrow, hsubmission, hverifying, hlater, hrow', hstatus, hs, hsha,
    hsize, hfile, hfile'⟩

end OpenUnion.Storage
