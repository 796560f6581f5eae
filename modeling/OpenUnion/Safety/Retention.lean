import OpenUnion.Code.Retention
import OpenUnion.Interleave.Solo

/-!
# Retention deletions

`enqueueDueRetentionDeletions` marks a job and inserts its event afterwards.  A call that is
stopped between the two leaves a job that no later call reads again and that has no event.  As
long as each mark is followed by its insert nothing is lost.

* `handed_of_run`: a job that has left `pending` has an event, or a running call is about to
  insert it.
* `pendingDue_alone`, `events_alone`: a call on its own gives an event to the jobs it reads.
* `not_lost`: in every run of any number of calls in which each mark is followed by its insert,
  no deletion is lost.
* `marked_job_lost`: a crash between the two.
-/

namespace OpenUnion.Retention

open Interleave

/-- The job that a process has marked, if it has not inserted the event since. -/
def owed : List Note → Option String
  | .marked jobId :: _ => some jobId
  | _ => none

abbrev State := Sys Stmt Stmt.Val Unit String ℕ Call Store Empty Note

abbrev Step := Label Stmt Stmt.Val Unit ℕ Call Empty

/-- When nothing is lost: no call fails or is stopped between a mark and its insert. -/
def insertFollows : Step → Glob Store Note → Bool
  | .fault a, g | .crash a, g => (owed (own a.pid g.hist)).isNone
  | _, _ => true

/-- The job has an event with its own key. -/
def Store.hasEvent (w : Store) (jobId : String) : Prop :=
  ∃ e ∈ w.events, e.idempotencyKey = retentionKey jobId

/-- A running call is about to insert the event of the job. -/
def AboutToInsert (c : State) (jobId : String) : Prop :=
  ∃ i p event next err, c.procs i = some p ∧ p.prog = .op (.insertEvent event) next err ∧
    event.idempotencyKey = retentionKey jobId

/-- The tables after a call of `enqueueDueRetentionDeletions` on its own. -/
def Store.afterCall (now : ℤ) (limit : ℕ) (w : Store) : Store :=
  ((enqueueDueRetentionDeletions now limit).solo retentionEngine none w).2

/-- No deletion is lost. -/
structure NotLost (c : State) : Prop where
  /-- A job that has left `pending` has an event, unless it is about to be inserted. -/
  handedOver : ∀ job ∈ c.glob.world.jobs, job.status ≠ .pending → job.status ≠ .finished →
    c.glob.world.hasEvent job.id ∨ AboutToInsert c job.id
  /-- No job has two events. -/
  single : (c.glob.world.events.map Event.idempotencyKey).Nodup
  /-- A call that returns leaves an event for every job it has read. -/
  returns : ∀ i p n due, c.procs i = some p → p.prog = .ret n →
    .selected due ∈ own i c.glob.hist → ∀ job ∈ due, c.glob.world.hasEvent job.id
  /-- A job without an event can be read by a later call. -/
  eligible : ∀ job ∈ c.glob.world.jobs, ¬ c.glob.world.hasEvent job.id →
    ¬ AboutToInsert c job.id → job.status = .pending
  /-- Later calls on their own pick up every job that is due. -/
  pickedUp : (∀ jobId, ¬ AboutToInsert c jobId) → ∀ now limit k,
    (c.glob.world.pendingDue now).length ≤ k * limit →
    ∀ job ∈ c.glob.world.jobs, job.runAt ≤ now →
      ((Store.afterCall now limit)^[k] c.glob.world).hasEvent job.id

/-! ## The stages of a call -/

/-- What is left of `enqueueDueRetentionDeletions` before the jobs `rest`. -/
def enqueueRest (rest : List Job) (n : ℕ) : Code ℕ := (enqueueJobs rest).bind fun _ => .ret n

/-- What is left of it between the mark of a job and the insert. -/
def insertRest (job : Job) (rest : List Job) (n : ℕ) : Code ℕ :=
  (run (.insertEvent job.event)).bind fun _ => enqueueRest rest n

/-- What a live call has noted, and what it still does. -/
inductive Stage : Call → Code ℕ → List Note → Prop where
  | start (call : Call) : Stage call call.code []
  | loop (call : Call) (before rest : List Job) (n : ℕ) (ns : List Note) (howed : owed ns = none)
      (hselected : ∀ due, .selected due ∈ ns → due = before ++ rest)
      (hbefore : ∀ job ∈ before, .inserted job.id ∈ ns) : Stage call (enqueueRest rest n) ns
  | marked (call : Call) (before : List Job) (job : Job) (rest : List Job) (n : ℕ)
      (ns : List Note) (hselected : ∀ due, .selected due ∈ ns → due = before ++ job :: rest)
      (hbefore : ∀ job ∈ before, .inserted job.id ∈ ns) :
      Stage call (insertRest job rest n) (.marked job.id :: ns)
  | claimed (call : Call) (event : Event) (ns : List Note) (howed : owed ns = none)
      (hselected : ∀ due, .selected due ∉ ns) (hclaimed : .claimed event ∈ ns) :
      Stage call ((handleArtifactDeleteRequested event).bind fun _ => .ret 1) ns
  | deleted (call : Call) (event : Event) (ns : List Note) (howed : owed ns = none)
      (hselected : ∀ due, .selected due ∉ ns) (hclaimed : .claimed event ∈ ns) :
      Stage call ((run (.markFinished event.retentionJobId)).bind fun _ => .ret 1) ns
  | ended (call : Call) (n : ℕ) (ns : List Note) (howed : owed ns = none)
      (hselected : ∀ due, .selected due ∉ ns) : Stage call (.ret n) ns
  | thrown (call : Call) (e : String) (ns : List Note) (howed : owed ns = none) :
      Stage call (.fail e) ns

theorem enqueueRest_nil (n : ℕ) : enqueueRest [] n = .ret n := rfl

theorem enqueueRest_cons (job : Job) (rest : List Job) (n : ℕ) : enqueueRest (job :: rest) n =
    .op (.markEnqueued job.id) (fun _ => insertRest job rest n) (.fail default) := rfl

theorem insertRest_eq (job : Job) (rest : List Job) (n : ℕ) : insertRest job rest n =
    .op (.insertEvent job.event) (fun _ => enqueueRest rest n) (.fail default) := rfl

theorem enqueue_eq (now : ℤ) (limit : ℕ) : enqueueDueRetentionDeletions now limit =
    .op (.due now limit) (fun due : List Job => enqueueRest due due.length) (.fail default) := rfl

theorem schedule_eq (jobId artifactId : String) (runAt : ℤ) :
    scheduleArtifactDeletion jobId artifactId runAt =
      .op (.insertJob ⟨jobId, artifactId, .pending, runAt⟩)
        (fun free : Bool => if free then .ret 1 else .fail "duplicate key") (.fail default) := rfl

theorem deliver_eq (key : String) : deliver key =
    .op (.claimEvent key) (fun claimed : Option Event => match claimed with
      | none => .ret 0
      | some event => (handleArtifactDeleteRequested event).bind fun _ => .ret 1)
      (.fail default) := rfl

/-- The statement that a call is at, with the stage it leads to and the statement's notes. -/
theorem Stage.stmt {call : Call} {s : Stmt} {next : s.Val → Code ℕ} {err : Code ℕ}
    {ns : List Note} (h : Stage call (.op s next err) ns) (w : Store) :
    Stage call (next (s.result w)) (s.note (s.result w) ++ ns) := by
  generalize hprog : Prog.op s next err = prog at h
  cases h with
  | start =>
      cases call with
      | enqueueDueRetentionDeletions now limit =>
          rw [Call.code, enqueue_eq] at hprog
          cases hprog
          exact .loop _ [] (w.dueJobs now limit) _ [.selected (w.dueJobs now limit)] rfl
            (fun due hdue => by simpa using hdue) (by simp)
      | scheduleArtifactDeletion jobId artifactId runAt =>
          rw [Call.code, schedule_eq] at hprog
          cases hprog
          change Stage _ (if !w.idTaken jobId then .ret 1 else .fail "duplicate key") []
          split
          · exact .ended _ 1 [] rfl (by simp)
          · exact .thrown _ _ [] rfl
      | deliver key =>
          rw [Call.code, deliver_eq] at hprog
          cases hprog
          simp only [Stmt.result, Stmt.note]
          cases w.events.find? fun e => e.idempotencyKey = key with
          | none => exact .ended _ 0 [] rfl (by simp)
          | some event => exact .claimed _ event [.claimed event] rfl (by simp) (by simp)
  | loop before rest n ns howed hselected hbefore =>
      cases rest with
      | nil => cases hprog
      | cons job rest =>
          rw [enqueueRest_cons] at hprog
          cases hprog
          exact .marked call before job rest n ns hselected hbefore
  | marked before job rest n ns hselected hbefore =>
      rw [insertRest_eq] at hprog
      cases hprog
      refine .loop call (before ++ [job]) rest n _ rfl (fun due hdue => ?_) fun job' hjob' => ?_
      · rw [List.append_assoc]
        exact hselected due (by simpa [Stmt.note] using hdue)
      · rcases List.mem_append.mp hjob' with hjob' | hjob'
        · simp [Stmt.note, hbefore job' hjob']
        · rw [List.mem_singleton.mp hjob']
          simp [Stmt.note, Job.event]
  | claimed event ns howed hselected hclaimed =>
      cases hprog
      exact .deleted call event ns howed hselected hclaimed
  | deleted event ns howed hselected hclaimed =>
      cases hprog
      exact .ended call 1 ns howed hselected
  | ended => cases hprog
  | thrown => cases hprog

/-- A statement that fails ends the call. -/
theorem Stage.fault {call : Call} {s : Stmt} {next : s.Val → Code ℕ} {err : Code ℕ}
    {ns : List Note} (h : Stage call (.op s next err) ns) : err = .fail default := by
  generalize hprog : Prog.op s next err = prog at h
  cases h with
  | start => cases call <;> cases hprog <;> rfl
  | loop before rest n ns howed hselected hbefore =>
      cases rest <;> cases hprog
      rfl
  | _ =>
      cases hprog
      try rfl

/-- No call opens a transaction. -/
theorem Stage.flat {call : Call} {p : Code ℕ} {ns : List Note} (h : Stage call p ns) :
    (∃ s next err, p = .op s next err) ∨ (∃ n, p = .ret n) ∨ ∃ e, p = .fail e := by
  cases h with
  | start => cases call <;> exact .inl ⟨_, _, _, rfl⟩
  | loop before rest n ns howed hselected hbefore =>
      cases rest with
      | nil => exact .inr (.inl ⟨_, rfl⟩)
      | cons job rest => exact .inl ⟨_, _, _, rfl⟩
  | marked => exact .inl ⟨_, _, _, rfl⟩
  | claimed => exact .inl ⟨_, _, _, rfl⟩
  | deleted => exact .inl ⟨_, _, _, rfl⟩
  | ended n => exact .inr (.inl ⟨n, rfl⟩)
  | thrown e => exact .inr (.inr ⟨e, rfl⟩)

/-- The stages of the calls. -/
def retentionStages : Stages retentionCalls insertFollows where
  holds a p ns := Stage a.req p ns
  code _ call := .start call
  stmt a s next err busy g h _ := h.stmt g.world
  fault a s next err g h hok := by
    rw [h.fault]
    exact .thrown _ _ _ (by simpa [insertFollows] using hok)
  no_begin a next ns h := by
    obtain ⟨_, _, _, h⟩ | ⟨_, h⟩ | ⟨_, h⟩ := h.flat <;> cases h
  no_commit a t next err ns h := by
    obtain ⟨_, _, _, h⟩ | ⟨_, h⟩ | ⟨_, h⟩ := h.flat <;> cases h
  no_rollback a next ns h := by
    obtain ⟨_, _, _, h⟩ | ⟨_, h⟩ | ⟨_, h⟩ := h.flat <;> cases h

/-- The statements that a call with these notes executes. -/
def Stmt.Fits (ns : List Note) : Stmt → Prop
  | .insertEvent event => ∃ job : Job, event = job.event ∧ owed ns = some job.id
  | .markFinished jobId => owed ns = none ∧
      ∃ event : Event, .claimed event ∈ ns ∧ event.retentionJobId = jobId
  | .insertJob job => owed ns = none ∧ job.status = .pending
  | _ => owed ns = none

section Stages

variable {call : Call} {p : Code ℕ} {s : Stmt} {next : s.Val → Code ℕ} {err : Code ℕ} {n : ℕ}
  {ns : List Note} {jobId : String}

/-- The statement of a stage fits its notes. -/
theorem Stage.fits (h : Stage call (.op s next err) ns) : s.Fits ns := by
  generalize hprog : Prog.op s next err = prog at h
  cases h with
  | start =>
      cases call with
      | enqueueDueRetentionDeletions now limit =>
          cases hprog
          exact rfl
      | scheduleArtifactDeletion jobId artifactId runAt =>
          cases hprog
          exact ⟨rfl, rfl⟩
      | deliver key =>
          cases hprog
          exact rfl
  | loop before rest n ns howed hselected hbefore =>
      cases rest with
      | nil => cases hprog
      | cons job rest =>
          rw [enqueueRest_cons] at hprog
          cases hprog
          exact howed
  | marked before job rest n ns hselected hbefore =>
      rw [insertRest_eq] at hprog
      cases hprog
      exact ⟨job, rfl, rfl⟩
  | claimed event ns howed hselected hclaimed =>
      cases hprog
      exact howed
  | deleted event ns howed hselected hclaimed =>
      cases hprog
      exact ⟨howed, event, hclaimed, rfl⟩
  | ended => cases hprog
  | thrown => cases hprog

/-- A call that returns has inserted an event for each job it has read. -/
theorem Stage.ret (h : Stage call (.ret n) ns) : owed ns = none ∧
    ∀ due, .selected due ∈ ns → ∀ job ∈ due, .inserted job.id ∈ ns := by
  generalize hprog : (.ret n : Code ℕ) = prog at h
  cases h with
  | start => cases call <;> cases hprog
  | loop before rest n ns howed hselected hbefore =>
      cases rest with
      | nil =>
          refine ⟨howed, fun due hdue job hjob => hbefore job ?_⟩
          have heq : due = before ++ [] := hselected due hdue
          rwa [heq, List.append_nil] at hjob
      | cons job rest => cases hprog
  | ended n ns howed hselected => exact ⟨howed, fun due hdue => absurd hdue (hselected due)⟩
  | marked => cases hprog
  | claimed => cases hprog
  | deleted => cases hprog
  | thrown => cases hprog

/-- A call that has thrown owes nothing. -/
theorem Stage.fail {e : String} (h : Stage call (.fail e) ns) : owed ns = none := by
  generalize hprog : (.fail e : Code ℕ) = prog at h
  cases h with
  | start => cases call <;> cases hprog
  | loop before rest n ns howed hselected hbefore => exact howed
  | ended n ns howed hselected => exact howed
  | marked => cases hprog
  | claimed event ns howed hselected hclaimed => exact howed
  | deleted event ns howed hselected hclaimed => exact howed
  | thrown e ns howed => exact howed

/-- A call that has marked a job is about to insert its event. -/
theorem Stage.of_owed (h : Stage call p ns) (howed : owed ns = some jobId) :
    ∃ event next err, p = .op (.insertEvent event) next err ∧
      event.idempotencyKey = retentionKey jobId := by
  cases h with
  | start => cases howed
  | marked before job rest n ns hselected hbefore =>
      obtain rfl : job.id = jobId := Option.some.inj howed
      exact ⟨job.event, _, _, insertRest_eq job rest n, rfl⟩
  | loop before rest n ns hnone hselected hbefore => exact absurd (hnone.symm.trans howed) (by simp)
  | claimed event ns hnone hselected hclaimed => exact absurd (hnone.symm.trans howed) (by simp)
  | deleted event ns hnone hselected hclaimed => exact absurd (hnone.symm.trans howed) (by simp)
  | ended n ns hnone hselected => exact absurd (hnone.symm.trans howed) (by simp)
  | thrown e ns hnone => exact absurd (hnone.symm.trans howed) (by simp)

end Stages

/-! ## The tables -/

section Tables

variable {w : Store} {s : Stmt} {e : Event} {jobId : String} {job : Job}

theorem hasEvent_mono {w' : Store} (h : ∀ e ∈ w.events, e ∈ w'.events) (hw : w.hasEvent jobId) :
    w'.hasEvent jobId := by
  obtain ⟨e, he, hkey⟩ := hw
  exact ⟨e, h e he, hkey⟩

theorem mem_insertEvent {event : Event} (h : e ∈ (w.insertEvent event).events) :
    e ∈ w.events ∨ e = event := by
  unfold Store.insertEvent at h
  split_ifs at h
  · exact .inl h
  · simpa using h

theorem events_insertEvent {event : Event} (h : e ∈ w.events) :
    e ∈ (w.insertEvent event).events := by
  unfold Store.insertEvent
  split_ifs
  · exact h
  · exact List.mem_append_left _ h

theorem jobs_insertEvent (event : Event) : (w.insertEvent event).jobs = w.jobs := by
  unfold Store.insertEvent
  split_ifs <;> rfl

/-- The event of a key is there after its insert. -/
theorem hasEvent_insertEvent (w : Store) (job : Job) : (w.insertEvent job.event).hasEvent job.id := by
  unfold Store.insertEvent
  split_ifs with htaken
  · obtain ⟨e, he, hkey⟩ := List.any_eq_true.mp htaken
    exact ⟨e, he, of_decide_eq_true hkey⟩
  · exact ⟨job.event, by simp, rfl⟩

/-- An insert gives no key a second event. -/
theorem single_insertEvent {event : Event} (h : (w.events.map Event.idempotencyKey).Nodup) :
    ((w.insertEvent event).events.map Event.idempotencyKey).Nodup := by
  unfold Store.insertEvent
  split_ifs with htaken
  · exact h
  · rw [List.map_append, List.nodup_append]
    refine ⟨h, List.nodup_singleton _, fun key hkey key' hkey' heq => htaken ?_⟩
    obtain ⟨e, he, rfl⟩ := List.mem_map.mp hkey
    obtain rfl : key' = event.idempotencyKey := by simpa using hkey'
    exact List.any_eq_true.mpr ⟨e, he, by simpa using heq⟩

/-- No statement deletes an event. -/
theorem events_write (h : e ∈ w.events) : e ∈ (s.write w).events := by
  cases s with
  | insertEvent event => exact events_insertEvent h
  | insertJob job =>
      change e ∈ (w.insertJob job).events
      unfold Store.insertJob
      split_ifs <;> exact h
  | _ => exact h

/-- A job after an update of its status. -/
theorem mem_mark {status : Status} (h : job ∈ (w.mark jobId status).jobs) :
    job.id = jobId ∨ job ∈ w.jobs := by
  obtain ⟨old, hold, rfl⟩ := List.mem_map.mp h
  by_cases hid : old.id = jobId
  · simp [hid]
  · simp [hid, hold]

end Tables

/-! ## What every run keeps -/

/-- What holds of the tables and of the notes of each process: events carry the key of their job,
no key has two, what has been claimed or inserted is there, and a job that has left `pending` has
an event or is owed one. -/
structure Kept (w : Store) (notes : ℕ → List Note) : Prop where
  keyed : ∀ e ∈ w.events, e.idempotencyKey = retentionKey e.retentionJobId
  single : (w.events.map Event.idempotencyKey).Nodup
  claimed : ∀ i event, .claimed event ∈ notes i → event ∈ w.events
  inserted : ∀ i jobId, .inserted jobId ∈ notes i → w.hasEvent jobId
  handed : ∀ job ∈ w.jobs, job.status ≠ .pending →
    w.hasEvent job.id ∨ ∃ i, owed (notes i) = some job.id

section Steps

variable {w : Store} {notes : ℕ → List Note} {i : ℕ} {s : Stmt} {ns : List Note} {jobId : String}
  {job : Job}

/-- Events keep the keys of their jobs. -/
theorem Kept.keyed_stmt (h : Kept w notes) (hfits : s.Fits ns) :
    ∀ e ∈ (s.write w).events, e.idempotencyKey = retentionKey e.retentionJobId := by
  intro e he
  cases s with
  | insertEvent event =>
      obtain ⟨job, rfl, -⟩ := hfits
      rcases mem_insertEvent he with he | rfl
      · exact h.keyed e he
      · rfl
  | insertJob job =>
      change e ∈ (w.insertJob job).events at he
      unfold Store.insertJob at he
      split_ifs at he <;> exact h.keyed e he
  | _ => exact h.keyed e he

/-- No key gets a second event. -/
theorem Kept.single_stmt (h : Kept w notes) :
    ((s.write w).events.map Event.idempotencyKey).Nodup := by
  cases s with
  | insertEvent event => exact single_insertEvent h.single
  | insertJob job =>
      change ((w.insertJob job).events.map Event.idempotencyKey).Nodup
      unfold Store.insertJob
      split_ifs <;> exact h.single
  | _ => exact h.single

/-- What a statement notes as claimed is in the outbox. -/
theorem mem_of_claimed {event : Event} (h : .claimed event ∈ s.note (s.result w)) :
    event ∈ w.events := by
  cases s with
  | claimEvent key =>
      change .claimed event ∈ (Stmt.claimEvent key).note
        (w.events.find? fun e => e.idempotencyKey = key) at h
      cases hfind : w.events.find? fun e => e.idempotencyKey = key with
      | none => simp [hfind, Stmt.note] at h
      | some e =>
          obtain rfl : event = e := by simpa [hfind, Stmt.note] using h
          exact List.mem_of_find?_eq_some hfind
  | _ => simp [Stmt.note] at h

/-- What a statement notes as inserted has an event after it. -/
theorem hasEvent_of_inserted (hfits : s.Fits ns) (h : .inserted jobId ∈ s.note (s.result w)) :
    (s.write w).hasEvent jobId := by
  cases s with
  | insertEvent event =>
      obtain ⟨job, rfl, -⟩ := hfits
      obtain rfl : jobId = job.id := by simpa [Stmt.note, Job.event] using h
      exact hasEvent_insertEvent w job
  | claimEvent key =>
      change .inserted jobId ∈ (Stmt.claimEvent key).note
        (w.events.find? fun e => e.idempotencyKey = key) at h
      cases hfind : w.events.find? fun e => e.idempotencyKey = key <;>
        simp [hfind, Stmt.note] at h
  | _ => simp [Stmt.note] at h

/-- What a job that has left `pending` is owed after a statement of process `i`. -/
theorem Kept.handed_stmt (h : Kept w notes) (hfits : s.Fits (notes i))
    (hjob : job ∈ (s.write w).jobs) (hstatus : job.status ≠ .pending) :
    (s.write w).hasEvent job.id ∨ owed (s.note (s.result w) ++ notes i) = some job.id ∨
      ∃ j, j ≠ i ∧ owed (notes j) = some job.id := by
  -- a job that was there before has an event, or another process owes it one
  have hold : job ∈ w.jobs → owed (notes i) = none → (s.write w).hasEvent job.id ∨
      owed (s.note (s.result w) ++ notes i) = some job.id ∨
        ∃ j, j ≠ i ∧ owed (notes j) = some job.id := by
    intro hmem hnone
    rcases h.handed job hmem hstatus with hevent | ⟨j, hj⟩
    · exact .inl (hasEvent_mono (fun _ => events_write) hevent)
    · refine .inr (.inr ⟨j, ?_, hj⟩)
      rintro rfl
      rw [hnone] at hj
      cases hj
  cases s with
  | insertEvent event =>
      obtain ⟨owedJob, rfl, howed⟩ := hfits
      have hmem : job ∈ w.jobs := by
        change job ∈ (w.insertEvent owedJob.event).jobs at hjob
        rwa [jobs_insertEvent] at hjob
      rcases h.handed job hmem hstatus with hevent | ⟨j, hj⟩
      · exact .inl (hasEvent_mono (fun _ => events_insertEvent) hevent)
      · by_cases hji : j = i
        · subst hji
          obtain hid : owedJob.id = job.id := Option.some.inj (howed.symm.trans hj)
          exact .inl (hid ▸ hasEvent_insertEvent w owedJob)
        · exact .inr (.inr ⟨j, hji, hj⟩)
  | markEnqueued jobId =>
      by_cases hid : job.id = jobId
      · subst hid
        exact .inr (.inl rfl)
      · exact hold ((mem_mark hjob).resolve_left hid) hfits
  | markFinished jobId =>
      obtain ⟨hnone, event, hevent, rfl⟩ := hfits
      by_cases hid : job.id = event.retentionJobId
      · have hmem : event ∈ w.events := h.claimed i event hevent
        exact .inl ⟨event, hmem, hid ▸ h.keyed event hmem⟩
      · exact hold ((mem_mark hjob).resolve_left hid) hnone
  | insertJob new =>
      change job ∈ (w.insertJob new).jobs at hjob
      have hmem : job ∈ w.jobs := by
        unfold Store.insertJob at hjob
        split_ifs at hjob
        · exact hjob
        · rcases List.mem_append.mp hjob with hjob | hjob
          · exact hjob
          · obtain rfl : job = new := by simpa using hjob
            exact absurd hfits.2 hstatus
      exact hold hmem hfits.1
  | due now limit => exact hold hjob hfits
  | claimEvent key => exact hold hjob hfits
  | deleteArtifactObject artifactId => exact hold hjob hfits

/-- A statement keeps it. -/
theorem Kept.stmt (h : Kept w notes) (hfits : s.Fits (notes i)) :
    Kept (s.write w) (Function.update notes i (s.note (s.result w) ++ notes i)) := by
  have hgrow : ∀ e ∈ w.events, e ∈ (s.write w).events := fun _ => events_write
  have hnoted : ∀ {j n}, n ∈ Function.update notes i (s.note (s.result w) ++ notes i) j →
      n ∈ s.note (s.result w) ∨ n ∈ notes j := by
    intro j n hn
    by_cases hj : j = i
    · subst hj
      rwa [Function.update_self, List.mem_append] at hn
    · rw [Function.update_of_ne hj] at hn
      exact .inr hn
  refine ⟨h.keyed_stmt hfits, h.single_stmt, fun j event hevent => ?_, fun j jobId hjobId => ?_,
    fun job hjob hstatus => ?_⟩
  · rcases hnoted hevent with hevent | hevent
    · exact hgrow event (mem_of_claimed hevent)
    · exact hgrow event (h.claimed j event hevent)
  · rcases hnoted hjobId with hjobId | hjobId
    · exact hasEvent_of_inserted hfits hjobId
    · exact hasEvent_mono hgrow (h.inserted j jobId hjobId)
  · rcases h.handed_stmt hfits hjob hstatus with hevent | hown | ⟨j, hji, hj⟩
    · exact .inl hevent
    · exact .inr ⟨i, by rwa [Function.update_self]⟩
    · exact .inr ⟨j, by rwa [Function.update_of_ne hji]⟩

/-- An allowed step keeps it. -/
theorem Kept.step {c c' : State} {l : Step}
    (h : Kept c.glob.world fun i => own i c.glob.hist)
    (hstep : Stagestep retentionStages c l c') :
    Kept c'.glob.world fun i => own i c'.glob.hist := by
  cases hstep with
  | stmt i q s next err busy hp hstage =>
      have hfits : s.Fits (own i c.glob.hist) := Stage.fits hstage
      change Kept (s.write c.glob.world)
        fun j => own j (retentionCalls.afterStmt ⟨i, q⟩ s busy none c.glob).hist
      rw [own_afterStmt]
      exact h.stmt hfits
  | spawn q => exact h
  | reply i q n hp hstage => exact h
  | error i q e hp hstage => exact h
  | fault i q s next err hp hstage => exact h
  | crash i q p hp hstage => exact h
  | env e => exact e.elim

end Steps

/-! ## A call on its own -/

/-- The tables after the body of the loop. -/
def Store.handOver (w : Store) (job : Job) : Store := (w.mark job.id .enqueued).insertEvent job.event

/-- Every job that has left `pending` has an event. -/
def Store.Settled (w : Store) : Prop := ∀ job ∈ w.jobs, job.status ≠ .pending → w.hasEvent job.id

section Alone

variable {w : Store} {job : Job} {now : ℤ} {limit : ℕ} {due : List Job} {jobId : String}

/-- A call on its own hands over the jobs it has read. -/
theorem solo_enqueueRest (rest : List Job) (n : ℕ) (w : Store) :
    (enqueueRest rest n).solo retentionEngine none w = (.ok n, rest.foldl Store.handOver w) := by
  induction rest generalizing w with
  | nil => rfl
  | cons job rest ih => exact ih (w.handOver job)

theorem afterCall_eq (now : ℤ) (limit : ℕ) (w : Store) :
    w.afterCall now limit = (w.dueJobs now limit).foldl Store.handOver w := by
  have hsolo := solo_enqueueRest (w.dueJobs now limit) (w.dueJobs now limit).length w
  exact congrArg Prod.snd hsolo

/-- Events stay, and a job that is handed over has one. -/
theorem hasEvent_handOver (h : w.hasEvent jobId) : (w.handOver job).hasEvent jobId :=
  hasEvent_mono (w := w.mark job.id .enqueued) (fun _ => events_insertEvent) h

theorem Store.Settled.handOver (h : w.Settled) (job : Job) : (w.handOver job).Settled := by
  intro old hold hstatus
  rw [Store.handOver, jobs_insertEvent] at hold
  by_cases hid : old.id = job.id
  · exact hid ▸ hasEvent_insertEvent (w.mark job.id .enqueued) job
  · exact hasEvent_handOver (h old ((mem_mark hold).resolve_left hid) hstatus)

/-- The jobs stay, with the times they are due. -/
theorem exists_handOver (job : Job) {old : Job} (h : old ∈ w.jobs) :
    ∃ old' ∈ (w.handOver job).jobs, old'.id = old.id ∧ old'.runAt = old.runAt := by
  rw [Store.handOver, jobs_insertEvent]
  refine ⟨_, List.mem_map_of_mem h, ?_⟩
  split_ifs <;> exact ⟨rfl, rfl⟩

/-- A job that is handed over is no longer pending. -/
theorem pendingDue_handOver (job : Job) (now : ℤ) : (w.handOver job).pendingDue now =
    (w.pendingDue now).filter fun old => decide (old.id ≠ job.id) := by
  rw [Store.pendingDue, Store.handOver, jobs_insertEvent, Store.mark, Store.pendingDue]
  simp only
  induction w.jobs with
  | nil => rfl
  | cons old rest ih =>
      rw [List.map_cons, List.filter_cons, ih, List.filter_cons]
      by_cases hdue : old.status = .pending ∧ old.runAt ≤ now
      · by_cases hid : old.id = job.id
        · simp [hid, hdue]
        · simp [hid, hdue]
      · by_cases hid : old.id = job.id
        · simp [hid, hdue]
        · simp [hid, hdue]

/-- The rows that a list of jobs leaves pending. -/
theorem pendingDue_foldl (jobs : List Job) (now : ℤ) (w : Store) :
    (jobs.foldl Store.handOver w).pendingDue now =
      (w.pendingDue now).filter fun old => decide (old.id ∉ jobs.map Job.id) := by
  induction jobs generalizing w with
  | nil => simp
  | cons job rest ih =>
      rw [List.foldl_cons, ih, pendingDue_handOver, List.filter_filter]
      refine List.filter_congr fun old _ => ?_
      by_cases hid : old.id = job.id
      · simp [hid]
      · simp [hid]

/-- Each call leaves `limit` jobs fewer. -/
theorem pendingDue_alone (now : ℤ) (limit : ℕ) (w : Store) :
    ((w.afterCall now limit).pendingDue now).length ≤ (w.pendingDue now).length - limit := by
  rw [afterCall_eq, pendingDue_foldl, Store.dueJobs]
  have hperm : ((w.pendingDue now).insertionSort fun a b => a.runAt ≤ b.runAt).Perm
      (w.pendingDue now) := List.perm_insertionSort _ _
  generalize hsorted : (w.pendingDue now).insertionSort (fun a b => a.runAt ≤ b.runAt) = sorted
    at hperm
  have htaken : (sorted.take limit).filter
      (fun old => decide (old.id ∉ (sorted.take limit).map Job.id)) = [] :=
    List.filter_eq_nil_iff.mpr fun old hold =>
      fun hnot => of_decide_eq_true hnot (List.mem_map_of_mem hold)
  calc ((w.pendingDue now).filter fun old => decide (old.id ∉ (sorted.take limit).map Job.id)).length
      = (sorted.filter fun old => decide (old.id ∉ (sorted.take limit).map Job.id)).length :=
        (hperm.symm.filter _).length_eq
    _ = ((sorted.drop limit).filter
          fun old => decide (old.id ∉ (sorted.take limit).map Job.id)).length := by
        conv_lhs => rw [← List.take_append_drop limit sorted, List.filter_append, List.length_append]
        rw [List.take_append_drop, htaken, List.length_nil, Nat.zero_add]
    _ ≤ (sorted.drop limit).length := List.length_filter_le _ _
    _ = (w.pendingDue now).length - limit := by rw [List.length_drop, hperm.length_eq]

/-- What a call on its own keeps. -/
theorem afterCall_keeps (now : ℤ) (limit : ℕ) (h : w.Settled) :
    (w.afterCall now limit).Settled ∧ ∀ old ∈ w.jobs,
      ∃ old' ∈ (w.afterCall now limit).jobs, old'.id = old.id ∧ old'.runAt = old.runAt := by
  rw [afterCall_eq]
  generalize w.dueJobs now limit = due
  induction due generalizing w with
  | nil => exact ⟨h, fun old hold => ⟨old, hold, rfl, rfl⟩⟩
  | cons job rest ih =>
      obtain ⟨hsettled, hjobs⟩ := ih (h.handOver job)
      refine ⟨hsettled, fun old hold => ?_⟩
      obtain ⟨old', hold', hid, hrun⟩ := exists_handOver job hold
      obtain ⟨old'', hold'', hid', hrun'⟩ := hjobs old' hold'
      exact ⟨old'', hold'', hid'.trans hid, hrun'.trans hrun⟩

/-- Enough calls on their own give an event to every job that is due. -/
theorem events_alone (now : ℤ) (limit k : ℕ) (h : w.Settled)
    (hk : (w.pendingDue now).length ≤ k * limit) (hjob : job ∈ w.jobs) (hdue : job.runAt ≤ now) :
    ((Store.afterCall now limit)^[k] w).hasEvent job.id := by
  induction k generalizing w job with
  | zero =>
      refine h job hjob fun hpending => ?_
      have hmem : job ∈ w.pendingDue now := List.mem_filter.mpr ⟨hjob, by simp [hpending, hdue]⟩
      have hpos : 0 < (w.pendingDue now).length := List.length_pos_of_mem hmem
      omega
  | succ k ih =>
      obtain ⟨hsettled, hjobs⟩ := afterCall_keeps now limit h
      obtain ⟨job', hjob', hid, hrun⟩ := hjobs job hjob
      have hless := pendingDue_alone now limit w
      have hrest : ((w.afterCall now limit).pendingDue now).length ≤ k * limit := by
        rw [Nat.succ_mul] at hk
        omega
      rw [Function.iterate_succ_apply, ← hid]
      exact ih hsettled hrest hjob' (hrun.trans_le hdue)

end Alone

/-! ## Main result -/

/-- In every state of an allowed run a job that has left `pending` has an event, or a running call
is about to insert it. -/
theorem handed_of_run {c : State} (h : Kept c.glob.world fun i => own i c.glob.hist)
    (hstaged : retentionStages.Staged c)
    (hlive : ∀ i, (owed (own i c.glob.hist)).isSome → ∃ p, c.procs i = some p) {job : Job}
    (hjob : job ∈ c.glob.world.jobs) (hstatus : job.status ≠ .pending) :
    c.glob.world.hasEvent job.id ∨ AboutToInsert c job.id := by
  rcases h.handed job hjob hstatus with hevent | ⟨i, howed⟩
  · exact .inl hevent
  · obtain ⟨p, hp⟩ := hlive i (by rw [howed]; rfl)
    obtain ⟨event, next, err, hprog, hkey⟩ := Stage.of_owed (hstaged i p hp).2 howed
    exact .inr ⟨i, p, event, next, err, hp, hprog, hkey⟩

/-- In every run of calls, of any number and in any order, in which each mark is followed by its
insert, no deletion is lost. -/
theorem not_lost {w : Store}
    (hkeyed : ∀ e ∈ w.events, e.idempotencyKey = retentionKey e.retentionJobId)
    (hsingle : (w.events.map Event.idempotencyKey).Nodup) (hsettled : w.Settled)
    {cs : List (Choice Call Empty)} {c : State}
    (h : retentionCalls.exec insertFollows cs (Sys.start w) = some c) : NotLost c := by
  have hkept : Kept c.glob.world fun i => own i c.glob.hist := by
    refine retentionStages.exec_invariant
      (I := fun c => Kept c.glob.world fun i => own i c.glob.hist) ?_ ?_ h
    · exact ⟨hkeyed, hsingle, fun i event hmem => absurd hmem (by simp [Sys.start]),
        fun i jobId hmem => absurd hmem (by simp [Sys.start]),
        fun job hjob hstatus => .inl (hsettled job hjob hstatus)⟩
    · exact fun c l c' hc _ _ hstep _ => hc.step hstep
  have hstaged : retentionStages.Staged c := retentionStages.exec_staged h
  have hlive : ∀ i, (owed (own i c.glob.hist)).isSome → ∃ p, c.procs i = some p := by
    refine retentionStages.exec_live (fun ns => (owed ns).isSome) (by simp [owed])
      (fun a n g hstage => ?_) (fun a e g hstage => ?_) (fun a g hok => ?_) h
    · have hnone : owed (own a.pid g.hist) = none := (Stage.ret hstage).1
      change ¬ (owed (own a.pid g.hist)).isSome
      simp [hnone]
    · have hnone : owed (own a.pid g.hist) = none := Stage.fail hstage
      simp [hnone]
    · simpa [insertFollows] using hok
  refine ⟨fun job hjob hne _ => handed_of_run hkept hstaged hlive hjob hne, hkept.single, ?_, ?_, ?_⟩
  · intro i p n due hp hprog hselected job hjob
    have hstage : Stage p.req p.prog (own i c.glob.hist) := (hstaged i p hp).2
    rw [hprog] at hstage
    exact hkept.inserted i job.id (hstage.ret.2 due hselected job hjob)
  · intro job hjob hnone hidle
    by_contra hstatus
    exact (handed_of_run hkept hstaged hlive hjob hstatus).elim hnone hidle
  · intro hidle now limit k hk job hjob hdue
    refine events_alone now limit k (fun old hold hstatus => ?_) hk hjob hdue
    exact (handed_of_run hkept hstaged hlive hold hstatus).resolve_right (hidle old.id)

/-- One job that is due. -/
def oneDueJob : Store := ⟨[⟨"r", "a", .pending, 0⟩], []⟩

theorem oneDueJob_settled : oneDueJob.Settled := by
  intro job hjob hstatus
  obtain rfl : job = ⟨"r", "a", .pending, 0⟩ := by simpa [oneDueJob] using hjob
  exact absurd rfl hstatus

/-- A call that is stopped after its first `n` statements. -/
def stoppedAfter (n : ℕ) : List (Choice Call Empty) :=
  ([.spawn (.enqueueDueRetentionDeletions 0 100)] : List (Choice Call Empty)) ++
    @List.replicate (Choice Call Empty) n (.run 0) ++ ([.crash 0] : List (Choice Call Empty))

/-- A call that is stopped after the insert has lost nothing. -/
theorem not_lost_after_insert : ∃ c : State,
    retentionCalls.exec insertFollows (stoppedAfter 3) (Sys.start oneDueJob) = some c ∧
      NotLost c := by
  obtain ⟨c, hc⟩ := Option.isSome_iff_exists.mp
    (show (retentionCalls.exec insertFollows (stoppedAfter 3) (Sys.start oneDueJob)).isSome by
      decide)
  exact ⟨c, hc, not_lost (by decide) (by decide) oneDueJob_settled hc⟩

/-- A crash between the mark and the insert: the job is `enqueued` without an event. -/
theorem marked_job_lost : ∃ c : State,
    retentionCalls.exec (fun _ _ => true) (stoppedAfter 2) (Sys.start oneDueJob) = some c ∧
      ¬ NotLost c := by
  have hrun : (retentionCalls.exec (fun _ _ => true) (stoppedAfter 2) (Sys.start oneDueJob)).map
      (fun c => (c.glob.world.jobs, c.glob.world.events, c.nextPid, (c.procs 0).isNone)) =
      some ([⟨"r", "a", .enqueued, 0⟩], [], 1, true) := by
    decide
  obtain ⟨c, hc, hstate⟩ := Option.map_eq_some_iff.mp hrun
  simp only [Prod.mk.injEq] at hstate
  obtain ⟨hjobs, hevents, hnext, hprocs⟩ := hstate
  refine ⟨c, hc, fun h => ?_⟩
  rcases h.handedOver ⟨"r", "a", .enqueued, 0⟩ (by simp [hjobs]) (by simp) (by simp) with
    ⟨e, he, -⟩ | ⟨i, p, event, next, err, hp, -⟩
  · simp [hevents] at he
  · by_cases hi : i = 0
    · subst hi
      simp [hp] at hprocs
    · have hunused := (Machine.exec_unused hc i (by omega)).1
      simp [Sys.program, hp] at hunused

end OpenUnion.Retention
