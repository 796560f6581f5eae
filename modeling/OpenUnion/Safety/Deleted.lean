import OpenUnion.Safety.Artifacts

/-!
# Deleted artifacts

A deletion removes the file and then marks the row.  Completions and scans look at
`deleted_at` once, when they read the row; uploads and pass verdicts do not look at it.

* `deletion_final`: when no upload takes up a deleted artifact, nothing deletes one between the
  read and the write of another request, no submission with a deleted artifact passes, and a
  deletion marks the row only while nothing is stored, a deleted artifact keeps its status, and
  nothing is stored for it, for ever.
* `deleted_stored_again`: an upload after the deletion stores bytes that nothing removes.
-/

namespace OpenUnion.Storage

open Interleave

/-- The artifact has been deleted. -/
def everDeleted (id : String) (hist : Hist) : Bool := Ever (Executed.marks id .deleted) hist

/-- Something has deleted the artifact since the request's own read of the row. -/
def deletedSince (i : Nat) (id : String) (hist : Hist) : Bool :=
  everDeleted id (since i (Executed.reads id) hist)

/-- When a deletion is final: an upload stores bytes and marks the row only if nothing has ever
deleted the artifact, the other requests write the status only if nothing has deleted it since
they read its row, a submission passes only if none of its artifacts has been deleted, and a
deletion marks the row only while nothing is stored at the path. -/
def keepsDeleted (env : StorageEnv) : Step → Glob World Executed → Bool
  | .event a (.stmt (.update id u) _), g =>
      if u.status = none then true
      else if u.status = some .deleted then
        (g.world.path env id).all fun path => (g.world.files path).isNone
      else if a.req.uploads id then !everDeleted id g.hist
      else !deletedSince a.pid id g.hist
  | .event a (.stmt (.writeFile _ _) _), g =>
      match a.req with
      | .upload id _ _ _ | .verifierUpload id _ _ => !everDeleted id g.hist
      | _ => true
  | .event _ (.stmt (.acceptAll submissionId) _), g =>
      (g.world.attached submissionId).all fun id => !everDeleted id g.hist
  | _, _ => true

/-- A deleted artifact has the date, the status and no file. -/
structure DeletionFinal (env : StorageEnv) (g : Glob World Executed) : Prop where
  stays : Stays .deleted [.deleted] g
  dated : ∀ id a, g.world.artifacts id = some a →
    (a.deletedAt.isSome = true ↔ everDeleted id g.hist = true)
  read : Along (fun e earlier => ∀ id row, e.2.row? id = some (some row) →
    everDeleted id earlier = true → row.deletedAt.isSome = true) g.hist
  gone : ∀ id path, everDeleted id g.hist = true → g.world.path env id = some path →
    g.world.files path = none

section Steps

variable {env : StorageEnv} {a : Actor Request} {g : Glob World Executed} {w : World}

/-- An update that changes the status, and does not delete, finds an artifact that has never
been deleted. -/
theorem undeleted_of_update (h : DeletionFinal env g) {id : String} {u : ArtifactUpdate}
    {st : ArtifactStatus} (hout : Lawful env a.req (own a.pid g.hist) (.update id u))
    (hu : u.status = some st) (hst : st ≠ .deleted)
    (hok : keepsDeleted env (.event a (.stmt (.update id u) ())) g = true) :
    everDeleted id g.hist = false := by
  obtain ⟨row, hrow, hlawful⟩ := hout
  change (if u.status = none then true
      else if u.status = some .deleted then
        (g.world.path env id).all fun path => (g.world.files path).isNone
      else if a.req.uploads id then !everDeleted id g.hist
      else !deletedSince a.pid id g.hist) = true at hok
  rw [if_neg (by simp [hu]), if_neg (by simp [hu, hst])] at hok
  by_cases huploads : a.req.uploads id
  · rw [if_pos huploads] at hok
    simpa using hok
  rw [if_neg huploads] at hok
  have hnone : row.deletedAt = none := by
    cases u with
    | uploaded _ _ => exact absurd hlawful.1 huploads
    | completed _ _ => exact hlawful.2.1
    | scanStarted _ _ => exact hlawful.2.1.1
    | scanFailed _ _ _ => exact hlawful.2.1.1
    | scanned _ _ => exact (hlawful.1.resolve_left huploads).2.1
    | blocked _ _ _ => exact hlawful.resolve_left huploads
    | blockedAgain _ => exact hlawful
    | scanReason _ => exact hlawful
    | deleted _ => exact hlawful.2
    | attached _ _ _ _ _ _ => exact hlawful.1
  have hsince : deletedSince a.pid id g.hist = false := by simpa using hok
  exact unmarked_since h.read hrow (by simp [hnone]) hsince

/-- An upload writes to the file of an artifact that has never been deleted. -/
theorem undeleted_of_write {w₀ : World} (hkeys : KeysKept w₀ g) (hdistinct : w₀.Distinct env)
    {path : String} {bytes : Bytes}
    (hout : Lawful env a.req (own a.pid g.hist) (.writeFile path bytes))
    (hok : keepsDeleted env (.event a (.stmt (.writeFile path bytes) ())) g = true) {id : String}
    (hpath : g.world.path env id = some path) : everDeleted id g.hist = false := by
  obtain ⟨id', row, huploads, hrow, hupload, -⟩ := hout
  obtain ⟨n, earlier, hsplit, hn⟩ := reads_split hrow
  have hmem : (a.pid, n) ∈ g.hist := by
    rw [hsplit]
    exact List.mem_append_right _ List.mem_cons_self
  have hpath' : g.world.path env id' = some path := (hkeys.path hmem hn).trans hupload
  obtain rfl := hkeys.distinct hdistinct id id' path hpath hpath'
  obtain ⟨i, q⟩ := a
  cases q with
  | upload id'' _ _ _ =>
      obtain rfl : id'' = id := huploads
      have hnever : (!everDeleted id'' g.hist) = true := hok
      simpa using hnever
  | verifierUpload id'' _ _ =>
      obtain rfl : id'' = id := huploads
      have hnever : (!everDeleted id'' g.hist) = true := hok
      simpa using hnever
  | _ => exact huploads.elim

/-- The date of a row goes with the deletions of the history. -/
theorem DeletionFinal.dated_after (h : DeletionFinal env g) {s : Stmt} {id : String} {b : Artifact}
    (hb : (Executed.after env a s g).world.artifacts id = some b) :
    b.deletedAt.isSome = true ↔ everDeleted id (Executed.after env a s g).hist = true := by
  have hcons : everDeleted id (Executed.after env a s g).hist =
      (Executed.marks id .deleted ⟨a.req, s, s.result env g.world⟩ || everDeleted id g.hist) :=
    ever_cons
  rw [hcons, Bool.or_eq_true]
  obtain ⟨hother, heq⟩ | ⟨u, rfl, heq⟩ | ⟨n, rfl, -, heq⟩ := row_after env s g.world id
  · rw [h.dated id b (heq.symm.trans hb)]
    refine ⟨Or.inr, fun hever => hever.resolve_left fun hnew => ?_⟩
    obtain ⟨u, hs, -⟩ := update_of_marks hnew
    exact hother u hs
  · obtain ⟨a₀, ha₀, rfl⟩ := Option.map_eq_some_iff.mp (heq.symm.trans hb)
    rw [Artifact.set_deletedAt, Bool.or_eq_true, h.dated id a₀ ha₀]
    simp [Executed.marks, or_comm]
  · obtain ⟨a₀, ha₀, rfl⟩ := Option.map_eq_some_iff.mp (heq.symm.trans hb)
    change a₀.deletedAt.isSome = true ↔ _
    rw [h.dated id a₀ ha₀]
    simp [Executed.marks]

/-- Nothing is stored for a deleted artifact after an allowed statement. -/
theorem DeletionFinal.gone_after (h : DeletionFinal env g) {w₀ : World} (hkeys : KeysKept w₀ g)
    (hdistinct : w₀.Distinct env) {s : Stmt} (hout : Lawful env a.req (own a.pid g.hist) s)
    (hok : keepsDeleted env (.event a (.stmt s (s.result env g.world))) g = true) {id path : String}
    (hever : everDeleted id (Executed.after env a s g).hist = true)
    (hpath : g.world.path env id = some path) :
    (s.write env g.world).files path = none := by
  rw [Option.eq_none_iff_forall_ne_some]
  intro bytes hfile
  replace hever : Ever (Executed.marks id .deleted)
      ((a.pid, ⟨a.req, s, s.result env g.world⟩) :: g.hist) = true := hever
  rw [ever_cons, Bool.or_eq_true] at hever
  obtain rfl | ⟨hold, -⟩ := file_after hfile
  · have hdeleted : everDeleted id g.hist = true := hever.resolve_left (by simp [Executed.marks])
    rw [undeleted_of_write hkeys hdistinct hout hok hpath] at hdeleted
    exact absurd hdeleted (by simp)
  · obtain hnew | hdeleted := hever
    · -- the deletion itself: it is allowed only while nothing is stored
      obtain ⟨u, rfl, hu⟩ := update_of_marks hnew
      change (if u.status = none then true
        else if u.status = some .deleted then
          (g.world.path env id).all fun path => (g.world.files path).isNone
        else if a.req.uploads id then !everDeleted id g.hist
        else !deletedSince a.pid id g.hist) = true at hok
      rw [if_neg (by simp [hu]), if_pos hu, hpath, Option.all_some, hold] at hok
      exact absurd hok (by simp)
    · rw [h.gone id path hdeleted hpath] at hold
      exact absurd hold (by simp)

/-- What every allowed step keeps. -/
theorem exec_deleted (hopen : ∀ id a, w.artifacts id = some a →
      a.status ≠ .deleted ∧ a.deletedAt = none) (hdistinct : w.Distinct env) {cs : List Pick}
    {c : State} (hrun : (storage env).exec (keepsDeleted env) cs (Sys.start w) = some c) :
    KeysKept w c.glob ∧ DeletionFinal env c.glob := by
  refine exec_artifacts (I := DeletionFinal env) ?_ ?_ (fun e g h => ?_) hrun
  · refine ⟨Stays.start fun id a ha => (hopen id a ha).1, fun id a ha => ?_, trivial,
      fun id path hever => absurd hever (by simp [everDeleted, Ever])⟩
    simp [(hopen id a ha).2, everDeleted, Ever]
  · intro a s g hkeys h hout hok
    refine ⟨?_, fun id b hb => h.dated_after hb, ⟨?_, h.read⟩, ?_⟩
    · refine h.stays.after (by simp) (by simp) (fun id u st hs hu hst => ?_) fun n hs id hid => ?_
      · subst hs
        exact undeleted_of_update h hout hu (by simpa using hst) hok
      · subst hs
        have hall : ((g.world.attached n).all fun id => !everDeleted id g.hist) = true := hok
        have hnever : everDeleted id g.hist = false := by
          simpa using List.all_eq_true.mp hall id hid
        exact hnever
    · intro id row hrow hever
      exact (h.dated id row (row_of_read hrow)).mpr hever
    · intro id path hever hpath
      rw [Executed.after, Stmt.write_path] at hpath
      exact h.gone_after hkeys hdistinct hout hok hever hpath
  · cases e <;> exact ⟨⟨h.stays.noted, h.stays.kept, h.stays.read⟩, h.dated, h.read, h.gone⟩

end Steps

section Runs

variable {env : StorageEnv} {w : World} {cs cs' : List Pick} {c d : State} {id : String}
  {row : Artifact}

/-- **Deletion is final**: in the runs in which no upload takes up a deleted artifact, nothing
deletes an artifact between the read and a write of another request, no submission with a
deleted artifact passes, and a deletion marks the row only while nothing is stored, an artifact
with a date of deletion keeps the date and the status, and nothing is stored for it, for
ever. -/
theorem deletion_final (hopen : ∀ id a, w.artifacts id = some a →
      a.status ≠ .deleted ∧ a.deletedAt = none) (hdistinct : w.Distinct env)
    (hrun : (storage env).exec (keepsDeleted env) cs (Sys.start w) = some c)
    (hrow : c.glob.world.artifacts id = some row) (hdeleted : row.deletedAt.isSome = true)
    (hlater : (storage env).exec (keepsDeleted env) cs' c = some d) :
    ∃ row', d.glob.world.artifacts id = some row' ∧ row'.deletedAt.isSome = true ∧
      row'.status = .deleted ∧
      ∀ path, env.uploadPath id row' = some path → d.glob.world.files path = none := by
  have hboth : (storage env).exec (keepsDeleted env) (cs ++ cs') (Sys.start w) = some d := by
    rw [Machine.exec_append hrun, hlater]
  obtain ⟨hkeys, hc⟩ := exec_deleted hopen hdistinct hrun
  obtain ⟨hkeys', hd⟩ := exec_deleted hopen hdistinct hboth
  have hever : everDeleted id d.glob.hist = true :=
    Ever.mono ((hc.dated id row hrow).mp hdeleted) (Machine.exec_hist hlater)
  have hsome : (d.glob.world.artifacts id).map Artifact.fixed = some row.fixed := by
    rw [hkeys'.now id, ← hkeys.now id, hrow, Option.map_some]
  obtain ⟨row', hrow', -⟩ := Option.map_eq_some_iff.mp hsome
  have hstatus := hd.stays.kept id row' hrow' hever
  refine ⟨row', hrow', (hd.dated id row' hrow').mpr hever, by simpa using hstatus, ?_⟩
  intro path hpath
  exact hd.gone id path hever ((path_of_row hrow').trans hpath)

end Runs

/-- Worker 1 uploads the artifact, and its retention ends. -/
def uploadAndDelete : List Pick :=
  ([.spawn (.upload "a" 1 (some [1, 2, 3]) none)] : List Pick) ++ @List.replicate Pick 6 (.run 0) ++
    ([.spawn (.deliverDelete "a")] : List Pick) ++ @List.replicate Pick 5 (.run 1)

/-- Worker 1 uploads the artifact again, and the deletion is delivered again. -/
def uploadAfterDeletion : List Pick :=
  ([.spawn (.upload "a" 1 (some [4, 5]) none)] : List Pick) ++ @List.replicate Pick 6 (.run 2) ++
    ([.spawn (.deliverDelete "a")] : List Pick) ++ @List.replicate Pick 2 (.run 3)

/-- The deletion is delivered again while a round of the scanner runs. -/
def deleteAgain : List Pick :=
  ([.spawn (.deliverDelete "a"), .spawn .scannerRound] : List Pick) ++
    @List.replicate Pick 2 (.run 3) ++ @List.replicate Pick 2 (.run 2)

theorem artifactWorld_undeleted (id : String) (a : Artifact)
    (h : artifactWorld.artifacts id = some a) : a.status ≠ .deleted ∧ a.deletedAt = none := by
  obtain ⟨-, rfl⟩ := artifactWorld_row h
  decide

/-- The row has a date of deletion. -/
def isDeleted (id : String) (c : State) : Bool :=
  (c.glob.world.artifacts id).any fun row => row.deletedAt.isSome

theorem deletion_final_again :
    ∃ c d row, (storage .disk).exec (keepsDeleted .disk) uploadAndDelete
        (Sys.start artifactWorld) = some c ∧ isDeleted "a" c = true ∧
      (storage .disk).exec (keepsDeleted .disk) deleteAgain c = some d ∧
      d.glob.world.artifacts "a" = some row ∧ row.status = .deleted ∧
      d.glob.world.files "/data/artifacts/a/a.bin" = none := by
  obtain ⟨c, hrun, h⟩ := stores .disk (keepsDeleted .disk) uploadAndDelete artifactWorld
    (fun c => isDeleted "a" c && ((storage .disk).exec (keepsDeleted .disk) deleteAgain c).isSome)
    (by decide)
  obtain ⟨hdeleted, hsome⟩ := Bool.and_eq_true_iff.mp h
  obtain ⟨d, hlater⟩ := Option.isSome_iff_exists.mp hsome
  obtain ⟨row, hrow, hdate⟩ := (Option.any_eq_true _ _).mp hdeleted
  obtain ⟨row', hrow', -, hstatus, hgone⟩ := deletion_final artifactWorld_undeleted
    (artifactWorld_distinct .disk) hrun hrow hdate hlater
  have hkeys := (exec_deleted artifactWorld_undeleted (artifactWorld_distinct .disk)
    (by rw [Machine.exec_append hrun, hlater])).1
  have hpath : StorageEnv.disk.uploadPath "a" row' = some "/data/artifacts/a/a.bin" := by
    rw [← path_of_row hrow', path_congr (hkeys.now "a")]
    decide
  exact ⟨c, d, row', hrun, hdeleted, hlater, hrow', hstatus, hgone _ hpath⟩

/-- An upload after the deletion stores bytes that a redelivered deletion does not remove. -/
theorem deleted_stored_again :
    (∀ id a, artifactWorld.artifacts id = some a → a.status ≠ .deleted ∧ a.deletedAt = none) ∧
    artifactWorld.Distinct .disk ∧
    ∃ c d, (storage .disk).exec (fun _ _ => true) uploadAndDelete (Sys.start artifactWorld) =
        some c ∧ isDeleted "a" c = true ∧ (∀ i, c.program i = none) ∧
      (storage .disk).exec (fun _ _ => true) uploadAfterDeletion c = some d ∧
      isDeleted "a" d = true ∧ (∀ i, d.program i = none) ∧ hasStatus "a" .scanned d = true ∧
      d.glob.world.path .disk "a" = some "/data/artifacts/a/a.bin" ∧
      d.glob.world.files "/data/artifacts/a/a.bin" = some [4, 5] := by
  refine ⟨artifactWorld_undeleted, artifactWorld_distinct .disk, ?_⟩
  obtain ⟨c, hrun, h⟩ := stores .disk (fun _ _ => true) uploadAndDelete artifactWorld
    (fun c => isDeleted "a" c && allEnded c &&
      ((storage .disk).exec (fun _ _ => true) uploadAfterDeletion c).any fun d =>
        isDeleted "a" d && allEnded d && hasStatus "a" .scanned d &&
        decide (d.glob.world.path .disk "a" = some "/data/artifacts/a/a.bin" ∧
          d.glob.world.files "/data/artifacts/a/a.bin" = some [4, 5]))
    (by decide)
  obtain ⟨hc, hd⟩ := Bool.and_eq_true_iff.mp h
  obtain ⟨hdeleted, hended⟩ := Bool.and_eq_true_iff.mp hc
  obtain ⟨d, hlater, hd⟩ := (Option.any_eq_true _ _).mp hd
  obtain ⟨hd, hstored⟩ := Bool.and_eq_true_iff.mp hd
  obtain ⟨hd, hscanned⟩ := Bool.and_eq_true_iff.mp hd
  obtain ⟨hdeleted', hended'⟩ := Bool.and_eq_true_iff.mp hd
  have hboth : (storage .disk).exec (fun _ _ => true) (uploadAndDelete ++ uploadAfterDeletion)
      (Sys.start artifactWorld) = some d := by
    rw [Machine.exec_append hrun, hlater]
  obtain ⟨hpath, hfile⟩ := of_decide_eq_true hstored
  exact ⟨c, d, hrun, hdeleted, ended_of_allEnded hrun hended, hlater, hdeleted',
    ended_of_allEnded hboth hended', hscanned, hpath, hfile⟩

end OpenUnion.Storage
