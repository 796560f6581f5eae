import OpenUnion.Safety.Artifacts

/-!
# What downloads serve

With the local backend an upload writes the file, marks the row uploaded, scans the bytes it
holds and marks the row scanned; a download reads the row and then the file.  The row and the
file are two cells, so a mark can vouch for bytes of another upload.

* `only_scanned_served`: when no upload overwrites the file of an artifact that can be
  downloaded, and nothing unscanned is written between the two steps of a mark or of a
  download, every byte that is served has passed a scan.
* `unscanned_served`: a download in the middle of a second upload.
-/

namespace OpenUnion.Storage

open Interleave

/-- The bytes have been given to `scanBytes`, which found nothing. -/
def passed (bytes : Bytes) (hist : Hist) : Bool := Ever (Executed.passes bytes) hist

/-- What a note has written to a file. -/
def Executed.written (path : String) : Executed → Option Bytes
  | ⟨_, .writeFile path' bytes, _⟩ => if path' = path then some bytes else none
  | _ => none

/-- Bytes that have passed no scan have been written to the file since the last own note of a
kind. -/
def unscannedSince (kind : Executed → Bool) (path : String) (i : Nat) (hist : Hist) : Bool :=
  (since i kind hist).any fun e => (e.2.written path).any fun bytes => !passed bytes hist

/-- When only scanned bytes are served: an upload writes to the file only while the artifact
cannot be downloaded, or writes bytes that have passed a scan; a scan marks the row, and a
download reads the file, only if nothing unscanned has been written to it since the file or
the row was read; and a submission passes only if its artifacts can be downloaded or what is
stored for them has passed a scan. -/
def servesScanned (env : StorageEnv) : Step → Glob World Executed → Bool
  | .event a (.stmt (.writeFile _ bytes) _), g =>
      match a.req with
      | .upload id _ _ _ | .verifierUpload id _ _ =>
          !(g.world.artifacts id).any Artifact.servable || passed bytes g.hist
      | _ => true
  | .event a (.stmt (.update id u) _), g =>
      if u.status = some .scanned then
        (g.world.path env id).all fun path =>
          !unscannedSince (Executed.touches path) path a.pid g.hist
      else true
  | .event _ (.stmt (.acceptAll submissionId) _), g =>
      (g.world.attached submissionId).all fun id => (g.world.artifacts id).any Artifact.servable ||
        (g.world.path env id).all fun path => (g.world.files path).all fun bytes =>
          passed bytes g.hist
  | .event a (.stmt (.readFile path) _), g =>
      match a.req with
      | .download _ id => !unscannedSince (Executed.reads id) path a.pid g.hist
      | _ => true
  | _, _ => true

/-- Since a note of a kind, the file holds something fine, or something that was written
later. -/
def FileSince (path : String) (kind : Executed → Prop) (fine : Bytes → Prop)
    (g : Glob World Executed) : Prop :=
  ∀ bytes, HoldsSince kind (fun n => n.written path = some bytes)
    (g.world.files path = some bytes → fine bytes) g.hist

/-- What holds of the rows, the files and the history. -/
structure ScannedOnly (env : StorageEnv) (g : Glob World Executed) : Prop where
  stored : ∀ id a path bytes, g.world.artifacts id = some a → a.servable = true →
    g.world.path env id = some path → g.world.files path = some bytes → passed bytes g.hist = true
  held : ∀ path bytes, FileSince path (fun n => n.bytes? path = some (some bytes)) (· = bytes) g
  seen : ∀ id path, g.world.path env id = some path → FileSince path
    (fun n => ∃ row, n.row? id = some (some row) ∧ row.servable = true)
    (fun bytes => passed bytes g.hist = true) g
  served : ∀ e ∈ g.hist, ∀ reader id path bytes, e.2.req = .download reader id →
    e.2.bytes? path = some (some bytes) → passed bytes g.hist = true

section Steps

variable {env : StorageEnv} {a : Actor Request} {g : Glob World Executed} {w w₀ : World} {s : Stmt}
  {id path : String} {bytes : Bytes}

/-- What has passed a scan has passed it after a statement. -/
theorem passed_after (h : passed bytes g.hist = true) :
    passed bytes (Executed.after env a s g).hist = true := by
  change Ever _ (_ :: g.hist) = true
  rw [ever_cons, Bool.or_eq_true]
  exact Or.inr h

/-- A statement keeps a fact about a file since a note of a kind. -/
theorem FileSince.after {kind : Executed → Prop} {fine fine' : Bytes → Prop}
    (h : FileSince path kind fine g) (hfine : ∀ bytes, fine bytes → fine' bytes)
    (hnew : kind ⟨a.req, s, s.result env g.world⟩ → ∀ bytes,
      (s.write env g.world).files path = some bytes → fine' bytes) :
    FileSince path kind fine' (Executed.after env a s g) := by
  intro bytes
  refine (h bytes).cons (hnew · bytes) fun hold => ?_
  by_cases hwrite : s = .writeFile path bytes
  · subst hwrite
    exact Or.inr (by simp [Executed.written])
  · refine Or.inl fun hfile => ?_
    exact hfine bytes (hold ((file_after hfile).resolve_left hwrite).1)

/-- A note that tells what is in a file is true right after the statement. -/
theorem file_of_bytes {q : Request}
    (h : (⟨q, s, s.result env w⟩ : Executed).bytes? path = some (some bytes)) :
    (s.write env w).files path = some bytes := by
  cases s with
  | readFile path' =>
      by_cases hpath : path' = path
      · subst hpath
        simpa [Executed.bytes?, Stmt.result, Stmt.write] using h
      · exact absurd h (by simp [Executed.bytes?, hpath])
  | writeFile path' bytes' =>
      by_cases hpath : path' = path
      · subst hpath
        simpa [Executed.bytes?, Stmt.write] using h
      · exact absurd h (by simp [Executed.bytes?, hpath])
  | _ => exact absurd h (by simp [Executed.bytes?])

/-- Something that was written since, when nothing unscanned was, has passed a scan. -/
theorem passed_of_written {kind : Executed → Bool} {i : Nat} {n : Nat × Executed}
    (hsince : unscannedSince kind path i g.hist = false) (hn : n ∈ since i kind g.hist)
    (hwritten : n.2.written path = some bytes) : passed bytes g.hist = true := by
  have hall := List.any_eq_false.mp hsince n hn
  rw [hwritten] at hall
  simpa using hall

/-- What an upload writes for an artifact that can be downloaded has passed a scan. -/
theorem passed_of_write (hkeys : KeysKept w₀ g) (hdistinct : w₀.Distinct env)
    (hout : Lawful env a.req (own a.pid g.hist) (.writeFile path bytes))
    (hok : servesScanned env (.event a (.stmt (.writeFile path bytes) ())) g = true)
    (hpath : g.world.path env id = some path)
    (hservable : (g.world.artifacts id).any Artifact.servable = true) :
    passed bytes g.hist = true := by
  obtain ⟨id', row, huploads, hrow, hupload, -⟩ := hout
  obtain ⟨n, earlier, hsplit, hn⟩ := reads_split hrow
  have hmem : (a.pid, n) ∈ g.hist := by
    rw [hsplit]
    exact List.mem_append_right _ List.mem_cons_self
  have hpath' : g.world.path env id' = some path := (hkeys.path hmem hn).trans hupload
  obtain rfl := hkeys.distinct hdistinct id id' path hpath hpath'
  have hor : (!(g.world.artifacts id).any Artifact.servable || passed bytes g.hist) = true := by
    obtain ⟨i, q⟩ := a
    cases q with
    | upload id'' _ _ _ =>
        obtain rfl : id'' = id := huploads
        exact hok
    | verifierUpload id'' _ _ =>
        obtain rfl : id'' = id := huploads
        exact hok
    | _ => exact huploads.elim
  simpa [hservable] using hor

/-- What is stored when a scan marks the row has passed a scan. -/
theorem ScannedOnly.passed_of_mark (h : ScannedOnly env g) (hkeys : KeysKept w₀ g)
    (hbackend : env.backend = .local') {u : ArtifactUpdate}
    (hout : Lawful env a.req (own a.pid g.hist) (.update id u)) (hu : u.status = some .scanned)
    (hok : servesScanned env (.event a (.stmt (.update id u) ())) g = true)
    (hpath : g.world.path env id = some path) (hfile : g.world.files path = some bytes) :
    passed bytes g.hist = true := by
  obtain ⟨row, hrow, hlawful⟩ := hout
  obtain ⟨path', bytes', hpath', hbytes, n, hn, hpasses⟩ : Vouched env (own a.pid g.hist) id row := by
    cases u with
    | scanned engine moved => exact hlawful.2 hbackend
    | _ => exact absurd hu (by simp [ArtifactUpdate.status])
  obtain ⟨r, earlier, hsplit, hr⟩ := reads_split hrow
  have hmem : (a.pid, r) ∈ g.hist := by
    rw [hsplit]
    exact List.mem_append_right _ List.mem_cons_self
  obtain rfl : path' = path :=
    Option.some.inj (hpath'.symm.trans ((hkeys.path hmem hr).symm.trans hpath))
  obtain ⟨n', earlier', hsplit', hn'⟩ := bytes_split hbytes
  obtain hheld | ⟨e, he, hwritten⟩ := h.held path' bytes' bytes _ _ _ hsplit' hn'
  · obtain rfl := hheld hfile
    exact List.any_eq_true.mpr ⟨(a.pid, n), mem_own.mp hn, hpasses⟩
  · change (if u.status = some .scanned then
      (g.world.path env id).all fun path =>
        !unscannedSince (Executed.touches path) path a.pid g.hist
      else true) = true at hok
    rw [if_pos hu, hpath, Option.all_some] at hok
    exact passed_of_written (by simpa using hok) he hwritten

/-- What is stored for an artifact that can be downloaded after a statement has passed a
scan. -/
theorem ScannedOnly.stored_after (h : ScannedOnly env g) (hkeys : KeysKept w₀ g)
    (hdistinct : w₀.Distinct env) (hbackend : env.backend = .local')
    (hout : Lawful env a.req (own a.pid g.hist) s)
    (hok : servesScanned env (.event a (.stmt s (s.result env g.world))) g = true) {b : Artifact}
    (hb : (s.write env g.world).artifacts id = some b) (hservable : b.servable = true)
    (hpath : g.world.path env id = some path)
    (hfile : (s.write env g.world).files path = some bytes) : passed bytes g.hist = true := by
  obtain rfl | ⟨hold, -⟩ := file_after hfile
  · refine passed_of_write hkeys hdistinct hout hok hpath ?_
    have hrow : g.world.artifacts id = some b := hb
    rw [hrow]
    exact hservable
  obtain ⟨-, heq⟩ | ⟨u, rfl, heq⟩ | ⟨n, rfl, hattached, heq⟩ :=
    row_after env s g.world id
  · exact h.stored id b path bytes (heq.symm.trans hb) hservable hpath hold
  · obtain ⟨a₀, ha₀, rfl⟩ := Option.map_eq_some_iff.mp (heq.symm.trans hb)
    have hstatus := of_decide_eq_true hservable
    rw [Artifact.set_status] at hstatus
    cases hu : u.status with
    | none =>
        rw [hu] at hstatus
        exact h.stored id a₀ path bytes ha₀ (decide_eq_true hstatus) hpath hold
    | some st =>
        have hscanned : u.status = some .scanned := by
          rw [hu] at hstatus
          obtain hst | hst := hstatus
          · exact hu.trans (congrArg some hst)
          · cases u <;> simp_all [ArtifactUpdate.status]
        exact h.passed_of_mark hkeys hbackend hout hscanned hok hpath hold
  · obtain ⟨a₀, ha₀, rfl⟩ := Option.map_eq_some_iff.mp (heq.symm.trans hb)
    have hall : ((g.world.attached n).all fun id =>
        (g.world.artifacts id).any Artifact.servable ||
          (g.world.path env id).all fun path => (g.world.files path).all fun bytes =>
            passed bytes g.hist) = true := hok
    have hor := List.all_eq_true.mp hall id hattached
    rw [Bool.or_eq_true, ha₀, hpath, Option.all_some, hold, Option.all_some] at hor
    obtain hservable₀ | hpassed := hor
    · exact h.stored id a₀ path bytes ha₀ hservable₀ hpath hold
    · exact hpassed

/-- What a download reads has passed a scan. -/
theorem ScannedOnly.served_after (h : ScannedOnly env g) (hkeys : KeysKept w₀ g)
    (hout : Lawful env a.req (own a.pid g.hist) s)
    (hok : servesScanned env (.event a (.stmt s (s.result env g.world))) g = true)
    {reader : Reader} (hreq : a.req = .download reader id)
    (hbytes : (⟨a.req, s, s.result env g.world⟩ : Executed).bytes? path = some (some bytes)) :
    passed bytes g.hist = true := by
  obtain ⟨i, q⟩ := a
  obtain rfl : q = .download reader id := hreq
  cases s with
  | readFile path' =>
      have hfile : g.world.files path = some bytes := file_of_bytes hbytes
      by_cases heq : path' = path
      · subst heq
        obtain ⟨row, hrow, hservable, hupload⟩ := hout reader id rfl
        obtain ⟨n, earlier, hsplit, hn⟩ := reads_split hrow
        have hmem : (i, n) ∈ g.hist := by
          rw [hsplit]
          exact List.mem_append_right _ List.mem_cons_self
        have hpath : g.world.path env id = some path' := (hkeys.path hmem hn).trans hupload
        have hsince : unscannedSince (Executed.reads id) path' i g.hist = false := by
          have hnot : (!unscannedSince (Executed.reads id) path' i g.hist) = true := hok
          simpa using hnot
        obtain hpassed | ⟨e, he, hwritten⟩ :=
          h.seen id path' hpath bytes _ _ _ hsplit ⟨row, hn, hservable⟩
        · exact hpassed hfile
        · exact passed_of_written hsince he hwritten
      · exact absurd hbytes (by simp [Executed.bytes?, heq])
  | writeFile path' bytes' =>
      obtain ⟨_, _, huploads, _⟩ := hout
      exact huploads.elim
  | _ => exact absurd hbytes (by simp [Executed.bytes?])

/-- What every allowed step keeps. -/
theorem exec_scanned (hopen : ∀ id a, w.artifacts id = some a → a.servable = false)
    (hdistinct : w.Distinct env) (hbackend : env.backend = .local') {cs : List Pick} {c : State}
    (hrun : (storage env).exec (servesScanned env) cs (Sys.start w) = some c) :
    ScannedOnly env c.glob := by
  refine (exec_artifacts (I := ScannedOnly env) ?_ ?_ (fun e g h => ?_) hrun).2
  · refine ⟨fun id a path bytes ha hservable => ?_, fun _ _ _ => HoldsSince.nil,
      fun _ _ _ _ => HoldsSince.nil, fun e he => absurd he (by simp)⟩
    rw [hopen id a ha] at hservable
    exact absurd hservable (by simp)
  · intro a s g hkeys h hout hok
    have hpassed : ∀ bytes, passed bytes g.hist = true →
        passed bytes (Executed.after env a s g).hist = true := fun _ => passed_after
    refine ⟨fun id b path bytes hb hservable hpath hfile => ?_, fun path bytes => ?_,
      fun id path hpath => ?_, fun e he reader id path bytes hreq hbytes => ?_⟩
    · rw [Executed.after, Stmt.write_path] at hpath
      exact hpassed bytes (h.stored_after hkeys hdistinct hbackend hout hok hb hservable hpath hfile)
    · refine (h.held path bytes).after (fun _ heq => heq) fun hkind bytes' hfile => ?_
      exact Option.some.inj (hfile.symm.trans (file_of_bytes hkind))
    · rw [Executed.after, Stmt.write_path] at hpath
      refine (h.seen id path hpath).after hpassed fun hkind bytes hfile => hpassed bytes ?_
      obtain ⟨row, hrow, hservable⟩ := hkind
      have hb : (s.write env g.world).artifacts id = some row := by
        cases s with
        | select id' => exact row_of_read hrow
        | _ => exact absurd hrow (by simp [Executed.row?])
      exact h.stored_after hkeys hdistinct hbackend hout hok hb hservable hpath hfile
    · obtain rfl | he := List.mem_cons.mp he
      · exact hpassed bytes (h.served_after hkeys hout hok hreq hbytes)
      · exact hpassed bytes (h.served e he reader id path bytes hreq hbytes)
  · cases e <;> exact ⟨h.stored, h.held, h.seen, h.served⟩

end Steps

section Runs

variable {env : StorageEnv} {w : World} {cs : List Pick} {c c' : State} {ch : Pick}
  {a : Actor Request} {contentType : String} {bytes : Bytes}

/-- **Only scanned bytes are served** (local backend): in the runs in which no upload overwrites
the file of an artifact that can be downloaded with bytes that have not passed a scan, nothing
unscanned is written between the two steps of a mark or of a download, and no submission passes
with an artifact whose stored bytes have not passed, the bytes of every download have been
given to `scanBytes`, which found nothing. -/
theorem only_scanned_served (hopen : ∀ id a, w.artifacts id = some a → a.servable = false)
    (hdistinct : w.Distinct env) (hbackend : env.backend = .local')
    (hrun : (storage env).exec (servesScanned env) cs (Sys.start w) = some c)
    (hmove : (storage env).move ch c = some (.event a (.reply (.file contentType bytes)), c')) :
    passed bytes c.glob.hist = true := by
  obtain ⟨reader, id, row, path, hreq, -, -, -, -, hread⟩ := exec_answers hrun hmove
  refine (exec_scanned hopen hdistinct hbackend hrun).served (a.pid, _) (mem_own.mp hread) reader id
    path bytes hreq ?_
  simp [Executed.bytes?]

end Runs

/-- Worker 1 uploads the artifact. -/
def uploadOnce : List Pick :=
  ([.spawn (.upload "a" 1 (some [1, 2, 3]) none)] : List Pick) ++ @List.replicate Pick 6 (.run 0)

/-- The verifier asks for the artifact. -/
def thenDownload : List Pick :=
  ([.spawn (.download .verifier "a")] : List Pick) ++ @List.replicate Pick 3 (.run 1)

/-- Worker 1 begins another upload, of bytes that are no image; once its file is written the
verifier asks for the artifact. -/
def downloadDuringUpload : List Pick :=
  ([.spawn (.upload "a" 1 (some [4, 5]) (some "image/png")), .run 1, .run 1,
    .spawn (.download .verifier "a")] : List Pick) ++ @List.replicate Pick 3 (.run 2)

theorem artifactWorld_unservable (id : String) (a : Artifact)
    (h : artifactWorld.artifacts id = some a) : a.servable = false := by
  obtain ⟨-, rfl⟩ := artifactWorld_row h
  decide

/-- The step answers a download with these bytes. -/
def servesBytes (bytes : Bytes) : Step → Bool
  | .event _ (.reply (.file _ bytes')) => decide (bytes' = bytes)
  | _ => false

theorem servesBytes_iff {bytes : Bytes} {l : Step} (h : servesBytes bytes l = true) :
    ∃ a contentType, l = .event a (.reply (.file contentType bytes)) := by
  unfold servesBytes at h
  split at h
  · obtain rfl := of_decide_eq_true h
    exact ⟨_, _, rfl⟩
  · exact absurd h (by simp)

theorem only_scanned_served_once :
    ∃ c l c', (storage .disk).exec (servesScanned .disk) (uploadOnce ++ thenDownload)
        (Sys.start artifactWorld) = some c ∧ (storage .disk).move (.run 1) c = some (l, c') ∧
      servesBytes [1, 2, 3] l = true ∧ passed [1, 2, 3] c.glob.hist = true := by
  obtain ⟨c, d, l, d', hrun, hlater, hmove, h⟩ := stores_and_moves .disk (servesScanned .disk)
    (uploadOnce ++ thenDownload) artifactWorld [] (.run 1) (fun _ _ l => servesBytes [1, 2, 3] l)
    (by decide)
  obtain rfl : c = d := Option.some.inj hlater
  obtain ⟨a, contentType, rfl⟩ := servesBytes_iff h
  exact ⟨c, _, d', hrun, hmove, h, only_scanned_served artifactWorld_unservable
    (artifactWorld_distinct .disk) rfl hrun hmove⟩

/-- The bytes that a download serves in the middle of an upload have passed no scan. -/
theorem unscanned_served :
    (∀ id a, artifactWorld.artifacts id = some a → a.servable = false) ∧
    artifactWorld.Distinct .disk ∧ StorageEnv.disk.backend = .local' ∧
    ∃ c l c', (storage .disk).exec (fun _ _ => true) (uploadOnce ++ downloadDuringUpload)
        (Sys.start artifactWorld) = some c ∧ (storage .disk).move (.run 2) c = some (l, c') ∧
      servesBytes [4, 5] l = true ∧ passed [4, 5] c.glob.hist = false := by
  refine ⟨artifactWorld_unservable, artifactWorld_distinct .disk, rfl, ?_⟩
  obtain ⟨c, d, l, d', hrun, hlater, hmove, h⟩ := stores_and_moves .disk (fun _ _ => true)
    (uploadOnce ++ downloadDuringUpload) artifactWorld [] (.run 2)
    (fun c _ l => servesBytes [4, 5] l && !passed [4, 5] c.glob.hist) (by decide)
  obtain rfl : c = d := Option.some.inj hlater
  obtain ⟨hserves, hpassed⟩ := Bool.and_eq_true_iff.mp h
  exact ⟨c, l, d', hrun, hmove, hserves, by simpa using hpassed⟩

end OpenUnion.Storage
