import OpenUnion.Safety.Storage

/-!
# Runs over the artifacts

What every run of the requests about artifacts has in common, whatever its steps are held to.
No statement changes the storage key of an artifact, so its file has one path for ever, and
what a request has last read of a row or a file can be found in the history together with
everything that came after.

* `exec_artifacts`: the induction over a run, one case for a statement and one for the outside.
* `exec_answers`: what is known when a request answers.
* `Ever`, `reads_split`, `bytes_split`: the history since an own read.
-/

namespace OpenUnion.Storage

open Interleave

/-- The history of the requests. -/
abbrev Hist := List (Nat × Executed)

/-- The path of the file of an artifact. -/
def World.path (env : StorageEnv) (w : World) (id : String) : Option String :=
  (w.artifacts id).bind (env.uploadPath id)

/-- Two artifacts have two files. -/
def World.Distinct (env : StorageEnv) (w : World) : Prop :=
  ∀ id id' path, w.path env id = some path → w.path env id' = some path → id = id'

/-- Some entry of the history is of the kind. -/
def Ever (p : Executed → Bool) (hist : Hist) : Bool := hist.any fun e => p e.2

/-- The note is a read of the artifact. -/
def Executed.reads (id : String) (n : Executed) : Bool := (n.row? id).isSome

/-- The note is a read of the file, or a write to it. -/
def Executed.touches (path : String) (n : Executed) : Bool := (n.bytes? path).isSome

/-- The note changes the status of the artifact in this way. -/
def Executed.marks (id : String) (status : ArtifactStatus) : Executed → Bool
  | ⟨_, .update id' u, _⟩ => decide (id' = id ∧ u.status = some status)
  | _ => false

section Histories

variable {p : Executed → Bool} {hist later earlier : Hist} {e : Nat × Executed} {i : Nat}
  {id path : String}

@[simp] theorem ever_cons : Ever p (e :: hist) = (p e.2 || Ever p hist) := by
  simp [Ever]

theorem ever_append : Ever p (later ++ hist) = (Ever p later || Ever p hist) := by
  simp [Ever]

/-- What has happened stays so. -/
theorem Ever.mono (h : Ever p earlier = true) (hsuffix : earlier <:+ later) : Ever p later = true := by
  obtain ⟨new, rfl⟩ := hsuffix
  rw [ever_append, h, Bool.or_true]

/-- The history since the last own read of a row. -/
theorem reads_split {row : Artifact} (h : lastRow (own i hist) id = some row) :
    ∃ n earlier, hist = since i (Executed.reads id) hist ++ (i, n) :: earlier ∧
      n.row? id = some (some row) :=
  since_of_findSome (Option.join_eq_some_iff.mp h)

/-- The history since the last own read of a file or write to it. -/
theorem bytes_split {bytes : Bytes} (h : lastBytes (own i hist) path = some bytes) :
    ∃ n earlier, hist = since i (Executed.touches path) hist ++ (i, n) :: earlier ∧
      n.bytes? path = some (some bytes) :=
  since_of_findSome (Option.join_eq_some_iff.mp h)

end Histories

section Keys

variable {env : StorageEnv} {w w₀ : World} {id : String} {row : Artifact}

/-- What of a row never changes: the storage key, and whose and for which job it is. -/
def Artifact.fixed (a : Artifact) : Option String × Option Nat × Option Nat :=
  (a.storageKey, a.workerId, a.jobId)

/-- The artifacts are those of the opening, with what never changes, also as they were read. -/
structure KeysKept (w₀ : World) (g : Glob World Executed) : Prop where
  now : ∀ id, (g.world.artifacts id).map Artifact.fixed =
    (w₀.artifacts id).map Artifact.fixed
  read : ∀ e ∈ g.hist, ∀ id row, e.2.row? id = some (some row) →
    (w₀.artifacts id).map Artifact.fixed = some row.fixed

/-- The path depends on the storage key alone. -/
theorem path_of_key (h : (w.artifacts id).map Artifact.fixed = some row.fixed) :
    w.path env id = env.uploadPath id row := by
  obtain ⟨a, ha, hkey⟩ := Option.map_eq_some_iff.mp h
  rw [World.path, ha]
  have hstorage : a.storageKey = row.storageKey := congrArg Prod.fst hkey
  simp [StorageEnv.uploadPath, hstorage]

theorem path_congr {w' : World} (h : (w'.artifacts id).map Artifact.fixed =
    (w.artifacts id).map Artifact.fixed) : w'.path env id = w.path env id := by
  cases hrow : w.artifacts id with
  | none =>
      rw [hrow] at h
      have hnone : w'.artifacts id = none := by simpa using h
      rw [World.path, World.path, hnone, hrow]
  | some row =>
      rw [hrow, Option.map_some] at h
      rw [path_of_key h]
      exact (path_of_key (by rw [hrow, Option.map_some])).symm

theorem path_of_row (h : w.artifacts id = some row) : w.path env id = env.uploadPath id row :=
  path_of_key (by rw [h, Option.map_some])

/-- The path of a row that was read is still the path of the artifact. -/
theorem KeysKept.path {g : Glob World Executed} (h : KeysKept w₀ g) {e : Nat × Executed}
    (he : e ∈ g.hist) (hrow : e.2.row? id = some (some row)) :
    g.world.path env id = env.uploadPath id row :=
  path_of_key ((h.now id).trans (h.read e he id row hrow))

theorem KeysKept.distinct {g : Glob World Executed} (h : KeysKept w₀ g) (hw : w₀.Distinct env) :
    g.world.Distinct env := by
  have hsame : ∀ id, g.world.path env id = w₀.path env id := fun id => path_congr (h.now id)
  intro id id' path hid hid'
  exact hw id id' path ((hsame id).symm.trans hid) ((hsame id').symm.trans hid')

/-- An update leaves what never changes. -/
theorem Artifact.set_fixed (u : ArtifactUpdate) (a : Artifact) : (a.set u).fixed = a.fixed := by
  unfold Artifact.set
  cases u with
  | scanned engine moved =>
      cases engine with
      | none => rfl
      | some engine => cases moved <;> rfl
  | scanFailed engine reason moved => cases moved <;> rfl
  | blocked engine reason quarantineKey => cases quarantineKey <;> rfl
  | _ => rfl

@[simp] theorem World.modify_self (w : World) (id : String) (f : Artifact → Artifact) :
    (w.modify id f).artifacts id = (w.artifacts id).map f :=
  Function.update_self _ _ _

/-- What a statement leaves in a row: only an update and a pass verdict change rows. -/
theorem row_after (env : StorageEnv) (s : Stmt) (w : World) (id : String) :
    ((∀ u, s ≠ .update id u) ∧ (s.write env w).artifacts id = w.artifacts id) ∨
      (∃ u, s = .update id u ∧ (s.write env w).artifacts id = (w.artifacts id).map (Artifact.set u)) ∨
      (∃ n, s = .acceptAll n ∧ id ∈ w.attached n ∧ (s.write env w).artifacts id =
        (w.artifacts id).map fun a => { a with status := .accepted }) := by
  cases s with
  | update id' u =>
      by_cases hid : id = id'
      · subst hid
        exact Or.inr (Or.inl ⟨u, rfl, Function.update_self _ _ _⟩)
      · exact Or.inl ⟨fun _ heq => hid (Stmt.update.inj heq).1.symm, Function.update_of_ne hid _ _⟩
  | acceptAll n =>
      by_cases hmem : id ∈ w.attached n
      · refine Or.inr (Or.inr ⟨n, rfl, hmem, ?_⟩)
        simp [Stmt.write, hmem]
      · refine Or.inl ⟨by simp, ?_⟩
        simp [Stmt.write, hmem]
  | enqueueScan id' =>
      refine Or.inl ⟨by simp, ?_⟩
      by_cases hevent : (w.events id').isSome = true
      · simp [Stmt.write, hevent]
      · simp [Stmt.write, hevent]
  | copyObject bucket key target =>
      refine Or.inl ⟨by simp, ?_⟩
      cases hobject : w.objects bucket key with
      | none => simp [Stmt.write, hobject]
      | some bytes => simp [Stmt.write, hobject, World.putObject]
  | _ => exact Or.inl ⟨by simp, rfl⟩

/-- What a statement leaves in a file: only an upload writes to it. -/
theorem file_after {s : Stmt} {path : String} {bytes : Bytes}
    (h : (s.write env w).files path = some bytes) :
    s = .writeFile path bytes ∨ w.files path = some bytes ∧ ∀ bytes', s ≠ .writeFile path bytes' := by
  cases s with
  | writeFile path' bytes' =>
      by_cases hpath : path = path'
      · subst hpath
        have hbytes : bytes' = bytes := by simpa [Stmt.write] using h
        exact Or.inl (by rw [hbytes])
      · have hold : w.files path = some bytes := (Function.update_of_ne hpath _ _).symm.trans h
        exact Or.inr ⟨hold, fun _ heq => hpath (Stmt.writeFile.inj heq).1.symm⟩
  | unlink path' =>
      by_cases hpath : path = path'
      · subst hpath
        exact absurd h (by simp [Stmt.write])
      · exact Or.inr ⟨(Function.update_of_ne hpath _ _).symm.trans h, by simp⟩
  | enqueueScan id' =>
      by_cases hevent : (w.events id').isSome = true
      · exact Or.inr ⟨by simpa [Stmt.write, hevent] using h, by simp⟩
      · exact Or.inr ⟨by simpa [Stmt.write, hevent] using h, by simp⟩
  | copyObject bucket key target =>
      cases hobject : w.objects bucket key with
      | none => exact Or.inr ⟨by simpa [Stmt.write, hobject] using h, by simp⟩
      | some bytes => exact Or.inr ⟨by simpa [Stmt.write, hobject, World.putObject] using h, by simp⟩
  | _ => exact Or.inr ⟨h, by simp⟩

/-- No statement changes the storage key, the worker or the job of an artifact. -/
theorem Stmt.write_fixed (s : Stmt) (w : World) (id : String) :
    ((s.write env w).artifacts id).map Artifact.fixed =
      (w.artifacts id).map Artifact.fixed := by
  obtain ⟨-, heq⟩ | ⟨u, -, heq⟩ | ⟨n, -, -, heq⟩ := row_after env s w id
  · rw [heq]
  · rw [heq, Option.map_map]
    exact congrArg (fun f => (w.artifacts id).map f) (funext (Artifact.set_fixed u))
  · rw [heq, Option.map_map]
    rfl

@[simp] theorem Stmt.write_path (s : Stmt) (w : World) (id : String) :
    (s.write env w).path env id = w.path env id :=
  path_congr (s.write_fixed w id)

/-- What a read of an artifact answers is its row. -/
theorem row_of_read {s : Stmt} {q : Request}
    (h : (⟨q, s, s.result env w⟩ : Executed).row? id = some (some row)) :
    w.artifacts id = some row := by
  cases s with
  | select id' =>
      by_cases hid : id' = id
      · subst hid
        simpa [Executed.row?, Stmt.result] using h
      · simp [Executed.row?, hid] at h
  | _ => exact absurd h (by simp [Executed.row?])

end Keys

/-- A step of the requests. -/
abbrev Step := Label Stmt Stmt.Val Empty Reply Request Outside

/-- A system of the requests. -/
abbrev State := Sys Stmt Stmt.Val Empty String Reply Request World Empty Executed

/-- A scheduler choice. -/
abbrev Pick := Choice Request Outside

section Runs

variable {env : StorageEnv} {ok : Step → Glob World Executed → Bool} {cs : List Pick} {w₀ : World}
  {c d : State}

/-- State and history after a statement. -/
def Executed.after (env : StorageEnv) (a : Actor Request) (s : Stmt) (g : Glob World Executed) :
    Glob World Executed :=
  ⟨(a.pid, ⟨a.req, s, s.result env g.world⟩) :: g.hist, s.write env g.world⟩

theorem KeysKept.after {g : Glob World Executed} (h : KeysKept w₀ g) (a : Actor Request)
    (s : Stmt) : KeysKept w₀ (Executed.after env a s g) := by
  refine ⟨fun id => (Stmt.write_fixed s g.world id).trans (h.now id), ?_⟩
  intro e he id row hrow
  obtain rfl | he := List.mem_cons.mp he
  · have hread : g.world.artifacts id = some row := row_of_read hrow
    rw [← h.now id, hread, Option.map_some]
  · exact h.read e he id row hrow

/-- An invariant that the statements and the outside keep holds in every state reached. -/
theorem exec_artifacts {I : Glob World Executed → Prop} (hstart : I ⟨[], w₀⟩)
    (hstmt : ∀ a s g, KeysKept w₀ g → I g → Lawful env a.req (own a.pid g.hist) s →
      ok (.event a (.stmt s (s.result env g.world))) g = true → I (Executed.after env a s g))
    (henv : ∀ (e : Outside) g, I g → I ⟨g.hist, e.move env g.world⟩)
    (h : (storage env).exec ok cs (Sys.start w₀) = some c) : KeysKept w₀ c.glob ∧ I c.glob := by
  refine Machine.exec_autocommit (I := fun g => KeysKept w₀ g ∧ I g) (m := storage env) (Request.code_tells env)
    ⟨⟨fun _ => rfl, by simp⟩, hstart⟩ ?_ h
  rintro l g g' ⟨hkeys, hI⟩ hstep hok
  cases hstep with
  | stmt a s busy _ hout => exact ⟨hkeys.after a s, hstmt a s g hkeys hI hout hok⟩
  | reply a x _ hx => exact ⟨hkeys, hI⟩
  | env e _ => exact ⟨⟨by cases e <;> exact hkeys.now, hkeys.read⟩, henv e g hI⟩
  | idle l _ _ _ => exact ⟨hkeys, hI⟩

/-- A request answers as its notes allow. -/
theorem exec_answers {ch : Pick} {a : Actor Request} {x : Reply}
    (h : (storage env).exec ok cs (Sys.start w₀) = some c)
    (hmove : (storage env).move ch c = some (.event a (.reply x), d)) :
    Answers env a.req x (own a.pid c.glob.hist) := by
  have hstep := Machine.exec_autostep (Request.code_tells env) h hmove
  generalize c.glob = g at hstep
  generalize d.glob = g' at hstep
  cases hstep with
  | reply a x _ hx => exact hx
  | idle l _ hevent _ => exact absurd rfl (hevent a (.reply x))

/-- A request executes what its notes allow. -/
theorem exec_lawful {ch : Pick} {a : Actor Request} {s : Stmt} {r : s.Val}
    (h : (storage env).exec ok cs (Sys.start w₀) = some c)
    (hmove : (storage env).move ch c = some (.event a (.stmt s r), d)) :
    Lawful env a.req (own a.pid c.glob.hist) s := by
  have hstep := Machine.exec_autostep (Request.code_tells env) h hmove
  generalize c.glob = g at hstep
  generalize d.glob = g' at hstep
  cases hstep with
  | stmt a s busy _ hout => exact hout
  | idle l _ hevent _ => exact absurd rfl (hevent a (.stmt s r))

end Runs

section Statuses

variable {env : StorageEnv} {mark : ArtifactStatus} {final : List ArtifactStatus}
  {g : Glob World Executed}

/-- The status after an update. -/
theorem Artifact.set_status (u : ArtifactUpdate) (a : Artifact) :
    (a.set u).status = u.status.getD a.status := by
  unfold Artifact.set
  cases u with
  | scanned engine moved =>
      cases engine with
      | none => rfl
      | some engine => cases moved <;> rfl
  | scanFailed engine reason moved => cases moved <;> rfl
  | blocked engine reason quarantineKey => cases quarantineKey <;> rfl
  | _ => rfl

/-- The date of a row after an update. -/
theorem Artifact.set_deletedAt (u : ArtifactUpdate) (a : Artifact) :
    (a.set u).deletedAt.isSome = (a.deletedAt.isSome || decide (u.status = some .deleted)) := by
  unfold Artifact.set
  cases u with
  | scanned engine moved =>
      cases engine with
      | none => simp [ArtifactUpdate.status]
      | some engine => cases moved <;> simp [ArtifactUpdate.status]
  | scanFailed engine reason moved => cases moved <;> simp [ArtifactUpdate.status]
  | blocked engine reason quarantineKey => cases quarantineKey <;> simp [ArtifactUpdate.status]
  | _ => simp [ArtifactUpdate.status]

/-- An artifact that has once had the status `mark` has one of the statuses `final` from then
on, also as it is read. -/
structure Stays (mark : ArtifactStatus) (final : List ArtifactStatus) (g : Glob World Executed) :
    Prop where
  noted : ∀ id a, g.world.artifacts id = some a → a.status = mark →
    Ever (Executed.marks id mark) g.hist = true
  kept : ∀ id a, g.world.artifacts id = some a → Ever (Executed.marks id mark) g.hist = true →
    a.status ∈ final
  read : Along (fun e earlier => ∀ id row, e.2.row? id = some (some row) →
    Ever (Executed.marks id mark) earlier = true → row.status ∈ final) g.hist

/-- At the opening nothing has the status. -/
theorem Stays.start {w : World} (h : ∀ id a, w.artifacts id = some a → a.status ≠ mark) :
    Stays mark final ⟨[], w⟩ :=
  ⟨fun id a ha hmark => absurd hmark (h id a ha), fun _ _ _ hever => absurd hever (by simp [Ever]),
    trivial⟩

/-- A note that marks an artifact is an update. -/
theorem update_of_marks {id : String} {st : ArtifactStatus} {q : Request} {s : Stmt} {v : s.Val}
    (h : Executed.marks id st ⟨q, s, v⟩ = true) : ∃ u, s = .update id u ∧ u.status = some st := by
  cases s with
  | update id' u =>
      obtain ⟨rfl, hu⟩ := of_decide_eq_true h
      exact ⟨u, rfl, hu⟩
  | _ => exact absurd h (by simp [Executed.marks])

/-- A statement keeps this unless it takes an artifact that has had the status to a status that
is not final. -/
theorem Stays.after (h : Stays mark final g) {a : Actor Request} {s : Stmt} (hmem : mark ∈ final)
    (haccepted : mark ≠ .accepted)
    (hupdate : ∀ id u st, s = .update id u → u.status = some st → st ∉ final →
      Ever (Executed.marks id mark) g.hist = false)
    (haccept : ∀ n, s = .acceptAll n → ∀ id ∈ g.world.attached n,
      Ever (Executed.marks id mark) g.hist = false) :
    Stays mark final (Executed.after env a s g) := by
  refine ⟨fun id b hb hmark => ?_, fun id b hb hever => ?_, ?_, h.read⟩
  · change Ever _ (_ :: g.hist) = true
    rw [ever_cons]
    obtain ⟨-, heq⟩ | ⟨u, rfl, heq⟩ | ⟨n, -, -, heq⟩ := row_after env s g.world id
    · rw [h.noted id b (heq.symm.trans hb) hmark, Bool.or_true]
    · obtain ⟨a₀, ha₀, rfl⟩ := Option.map_eq_some_iff.mp (heq.symm.trans hb)
      rw [Artifact.set_status] at hmark
      cases hu : u.status with
      | none =>
          rw [hu] at hmark
          rw [h.noted id a₀ ha₀ hmark, Bool.or_true]
      | some st =>
          rw [hu] at hmark
          obtain rfl : st = mark := hmark
          simp [Executed.marks, hu]
    · obtain ⟨a₀, -, rfl⟩ := Option.map_eq_some_iff.mp (heq.symm.trans hb)
      exact absurd hmark.symm haccepted
  · replace hever : Ever (Executed.marks id mark)
        ((a.pid, ⟨a.req, s, s.result env g.world⟩) :: g.hist) = true := hever
    rw [ever_cons, Bool.or_eq_true] at hever
    obtain ⟨hother, heq⟩ | ⟨u, rfl, heq⟩ | ⟨n, rfl, hattached, heq⟩ :=
      row_after env s g.world id
    · have hold := hever.resolve_left fun hnew => by
        obtain ⟨u, hs, -⟩ := update_of_marks hnew
        exact hother u hs
      exact h.kept id b (heq.symm.trans hb) hold
    · obtain ⟨a₀, ha₀, rfl⟩ := Option.map_eq_some_iff.mp (heq.symm.trans hb)
      rw [Artifact.set_status]
      cases hu : u.status with
      | none =>
          have hold : Ever (Executed.marks id mark) g.hist = true :=
            hever.resolve_left (by simp [Executed.marks, hu])
          exact h.kept id a₀ ha₀ hold
      | some st =>
          by_cases hfinal : st ∈ final
          · exact hfinal
          have hnever := hupdate id u st rfl hu hfinal
          obtain hnew | hold := hever
          · obtain rfl : st = mark := by simpa [Executed.marks, hu] using hnew
            exact absurd hmem hfinal
          · rw [hnever] at hold
            exact absurd hold (by simp)
    · have hold : Ever (Executed.marks id mark) g.hist = true :=
        hever.resolve_left (by simp [Executed.marks])
      rw [haccept n rfl id hattached] at hold
      exact absurd hold (by simp)
  · intro id row hrow hever
    exact h.kept id row (row_of_read hrow) hever

/-- What a row that was read says of the time before the read, when nothing has marked the
artifact since. -/
theorem unmarked_since {F : Artifact → Prop} {i : Nat} {id : String} {row : Artifact}
    (hread : Along (fun e earlier => ∀ id row, e.2.row? id = some (some row) →
      Ever (Executed.marks id mark) earlier = true → F row) g.hist)
    (hrow : lastRow (own i g.hist) id = some row) (hF : ¬ F row)
    (hsince : Ever (Executed.marks id mark) (since i (Executed.reads id) g.hist) = false) :
    Ever (Executed.marks id mark) g.hist = false := by
  obtain ⟨n, earlier, hsplit, hn⟩ := reads_split hrow
  have hearlier : Ever (Executed.marks id mark) earlier = false := by
    by_contra hever
    exact hF (hread.split hsplit id row hn (by simpa using hever))
  have hselect : Executed.marks id mark n = false := by
    by_contra hmarks
    obtain ⟨q, s, v⟩ := n
    obtain ⟨u, rfl, -⟩ := update_of_marks (by simpa using hmarks)
    exact absurd hn (by simp [Executed.row?])
  rw [hsplit, ever_append, ever_cons, hsince, hselect, hearlier]
  rfl

end Statuses

section Computed

variable (env : StorageEnv) (ok : Step → Glob World Executed → Bool) (cs : List Pick) (w : World)

/-- A run found by computation. -/
theorem stores (P : State → Bool) (h : ((storage env).exec ok cs (Sys.start w)).any P = true) :
    ∃ c, (storage env).exec ok cs (Sys.start w) = some c ∧ P c = true :=
  (Option.any_eq_true _ _).mp h

/-- A run, a run after it and one more step, found by computation. -/
theorem stores_and_moves (cs' : List Pick) (ch : Pick) (P : State → State → Step → Bool)
    (h : ((storage env).exec ok cs (Sys.start w)).any (fun c =>
      ((storage env).exec ok cs' c).any fun d =>
        ((storage env).move ch d).any fun r => P c d r.1) = true) :
    ∃ c d l d', (storage env).exec ok cs (Sys.start w) = some c ∧
      (storage env).exec ok cs' c = some d ∧ (storage env).move ch d = some (l, d') ∧
      P c d l = true := by
  obtain ⟨c, hc, h⟩ := (Option.any_eq_true _ _).mp h
  obtain ⟨d, hd, h⟩ := (Option.any_eq_true _ _).mp h
  obtain ⟨⟨l, d'⟩, hmove, h⟩ := (Option.any_eq_true _ _).mp h
  exact ⟨c, d, l, d', hc, hd, hmove, h⟩

/-- Every request has ended. -/
def allEnded (c : State) : Bool := (List.range c.nextPid).all fun i => (c.program i).isNone

theorem ended_of_allEnded {env : StorageEnv} {ok : Step → Glob World Executed → Bool}
    {cs : List Pick} {w : World} {c : State}
    (hrun : (storage env).exec ok cs (Sys.start w) = some c) (h : allEnded c = true) (i : Nat) :
    c.program i = none := by
  by_cases hi : i < c.nextPid
  · exact Option.isNone_iff_eq_none.mp (List.all_eq_true.mp h i (List.mem_range.mpr hi))
  · exact (Machine.exec_unused hrun i (Nat.le_of_not_lt hi)).1

end Computed

/-- The row of an artifact has a status. -/
def hasStatus (id : String) (status : ArtifactStatus) (c : State) : Bool :=
  (c.glob.world.artifacts id).any fun row => decide (row.status = status)

theorem hasStatus_iff {id : String} {status : ArtifactStatus} {c : State}
    (h : hasStatus id status c = true) :
    ∃ row, c.glob.world.artifacts id = some row ∧ row.status = status := by
  obtain ⟨row, hrow, hstatus⟩ := (Option.any_eq_true _ _).mp h
  exact ⟨row, hrow, of_decide_eq_true hstatus⟩

/-- A server that stores files under `/data`. -/
def StorageEnv.disk : StorageEnv where
  engine := none
  toLowerCase := id
  decodeUtf8 bytes := String.ofList (bytes.map fun b => Char.ofNat b.toNat)
  backend := .local'
  maxUploadBytes := 1000
  rootDir := "/data"
  resolveKey key := "/data/" ++ key
  bucketForKind
    | .staging => "staging"
    | .clean => "clean"
    | .quarantine => "quarantine"
  pathname _ := none
  maxScanAttempts := 10
  outboxLockTimeoutMs := 600000

/-- An artifact of worker 1 for job 2, before its upload. -/
def presignedArtifact : Artifact where
  submissionId := none
  jobId := some 2
  workerId := some 1
  kind := "other"
  label := "a.bin"
  sha256 := none
  storageKey := some "artifacts/a/a.bin"
  contentType := some "application/octet-stream"
  sizeBytes := none
  status := .presigned
  bucketKind := none
  scanEngine := none
  scanReason := none
  quarantineKey := none
  deletedAt := none

/-- A state with one artifact. -/
def artifactWorld : World where
  now := 0
  ids := ["a"]
  artifacts := Function.update (fun _ => none) "a" (some presignedArtifact)
  jobs := Function.update (fun _ => none) 2 (some ⟨some 1, some 5000⟩)
  orgOfJob _ := none
  orgOfSubmission _ := none
  verifying _ := false
  events _ := none
  eventIds := []
  files _ := none
  objects _ _ := none
  antivirus _ := .clean

theorem artifactWorld_row {id : String} {a : Artifact}
    (h : artifactWorld.artifacts id = some a) : id = "a" ∧ a = presignedArtifact := by
  by_cases hid : id = "a"
  · subst hid
    exact ⟨rfl, by simpa [artifactWorld] using h.symm⟩
  · exact absurd h (by simp [artifactWorld, hid])

theorem artifactWorld_distinct (env : StorageEnv) : artifactWorld.Distinct env := by
  intro id id' path hid hid'
  obtain ⟨a, ha, -⟩ := Option.bind_eq_some_iff.mp hid
  obtain ⟨a', ha', -⟩ := Option.bind_eq_some_iff.mp hid'
  exact (artifactWorld_row ha).1.trans (artifactWorld_row ha').1.symm

end OpenUnion.Storage
