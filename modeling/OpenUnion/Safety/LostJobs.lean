import OpenUnion.Interleave.Solo
import OpenUnion.Code.SubmissionRows
import OpenUnion.Safety.JobStates
import OpenUnion.Safety.Judging

/-!
# No job is lost

A job that is not done is held by a worker, being verified, or open to the next worker.
The lease reaper takes jobs out of that: it sets `expired`, which no statement leaves
again.

* `no_job_lost`: in the runs in which the reaper finds nothing, no verdict is cut off before
  it writes its job, and a job that is written and not done names a submission that is being
  verified, every job that is not done is held, verified or leasable.
* `reaped_and_lost`: a job that could be leased is reaped, and nobody can lease it.
-/

namespace OpenUnion

open Interleave

/-- Worker `i` holds the job, by a lease that has not run out. -/
def Job.held (job : Job) (now : Nat) : Bool :=
  job.leaseWorkerId.isSome && job.leaseExpiresAt.any fun t => decide (now ≤ t)

/-- The submission has a verification that is not finished. -/
def World.Unfinished (w : World) (s : Nat) : Prop :=
  ∃ n v, w.verifications (s, n) = some v ∧ v.status ≠ .finished

/-- `leaseJob` finds no active job of the worker.  It has drawn its nonce by then. -/
def World.unemployed (w : World) (workerId : Nat) : Bool :=
  ! (Query.hasActiveLease workerId w.now).eval { w with nextId := w.nextId + 1 }

/-- `leaseJob` succeeds. -/
def World.leases (w : World) (jobId workerId ttlMs : Nat) : Bool :=
  match ((leaseJob jobId workerId ttlMs).solo engine none w).1 with
  | .ok (some _) => true
  | _ => false

/-- Somebody is at the job, or a worker can take it. -/
inductive World.Tended (w : World) (j : Nat) (job : Job) : Prop where
  | held : job.held w.now = true → Tended w j job
  | verified (s : Nat) : job.currentSubmissionId = some s → w.Unfinished s → Tended w j job
  | leasable : (∀ i ttl, w.unemployed i = true → w.leases j i ttl = true) → Tended w j job

/-- The submission has a verification that is not finished, among the keys handed out. -/
def World.unfinished (w : World) (s : Nat) : Bool :=
  w.verificationKeys.any fun k =>
    decide (k.1 = s) && (w.verifications k).any fun v => decide (v.status ≠ .finished)

/-- The row of job `j` names a submission of the job that is being verified, or whose verdict
another process than `i` is about to write. -/
def shielded (g : Glob World JudgeNote) (i j : Nat) (row : Job) : Bool :=
  row.currentSubmissionId.any fun s =>
    (g.world.submissions s).any (fun sub => decide (sub.jobId = j)) &&
      (g.world.unfinished s ||
        g.hist.any fun e => decide (e.1 ≠ i) && decide (s ∈ unwritten (own e.1 g.hist)))

/-- No verdict is cut off, the reaper finds nothing, and a job that is written is done or
being verified. -/
def tending (l : Step) (g : Glob World JudgeNote) : Bool :=
  ! cuts l g &&
    match l with
    | .event _ (.stmt (.job (.reap t)) _) => (JobStmt.reaped t g.world).isEmpty
    | .event a (.stmt (.job (.update j new)) _) =>
        decide (new.status = .done) || shielded g a.pid j new
    | _ => true

section States

variable {g g' : Glob World JudgeNote} {s j : Nat} {job : Job}

/-- The submission is being verified, or its verdict is about to be written. -/
def Pending (g : Glob World JudgeNote) (s : Nat) : Prop :=
  g.world.Unfinished s ∨ ∃ i, s ∈ unwritten (own i g.hist)

/-- A job that is done, that can be leased once its lease has run out, or whose submission
is pending. -/
def Job.Safe (g : Glob World JudgeNote) (j : Nat) (job : Job) : Prop :=
  job.status = .done ∨ job.status = .opened ∨
    (job.status = .claimed ∧ job.leaseWorkerId ≠ none ∧ job.leaseExpiresAt ≠ none) ∨
    ∃ s sub, job.currentSubmissionId = some s ∧ g.world.submissions s = some sub ∧
      sub.jobId = j ∧ Pending g s

/-- What holds in every state of an allowed run. -/
structure JobsSafe (g : Glob World JudgeNote) : Prop where
  jobs : ∀ j job, g.world.jobs j = some job → job.Safe g j
  noted : ∀ i s j, .about s j ∈ own i g.hist → ∃ sub, g.world.submissions s = some sub ∧ sub.jobId = j

theorem unfinished_of {w : World} (h : w.unfinished s = true) : w.Unfinished s := by
  obtain ⟨k, -, hk⟩ := List.any_eq_true.mp h
  obtain ⟨hs, hv⟩ := Bool.and_eq_true_iff.mp hk
  obtain rfl : k.1 = s := of_decide_eq_true hs
  obtain ⟨v, hv, hstatus⟩ := (Option.any_eq_true _ _).mp hv
  exact ⟨k.2, v, hv, of_decide_eq_true hstatus⟩

/-- What a shielded row names. -/
theorem shielded_pending {i : Nat} (h : shielded g i j job = true) :
    ∃ s sub, job.currentSubmissionId = some s ∧ g.world.submissions s = some sub ∧ sub.jobId = j ∧
      (g.world.Unfinished s ∨ ∃ i' ≠ i, s ∈ unwritten (own i' g.hist)) := by
  obtain ⟨s, hs, h⟩ := (Option.any_eq_true _ _).mp h
  obtain ⟨hsub, h⟩ := Bool.and_eq_true_iff.mp h
  obtain ⟨sub, hsub, hjob⟩ := (Option.any_eq_true _ _).mp hsub
  refine ⟨s, sub, hs, hsub, of_decide_eq_true hjob, ?_⟩
  obtain h | h := Bool.or_eq_true_iff.mp h
  · exact Or.inl (unfinished_of h)
  · obtain ⟨e, -, he⟩ := List.any_eq_true.mp h
    obtain ⟨hne, hmem⟩ := Bool.and_eq_true_iff.mp he
    exact Or.inr ⟨e.1, of_decide_eq_true hne, of_decide_eq_true hmem⟩

/-- A job that keeps its row stays safe while its submission stays pending. -/
theorem Job.Safe.kept (h : job.Safe g j) (hgrow : g.world.Grows g'.world)
    (hpending : ∀ s sub, g.world.submissions s = some sub → sub.jobId = j → Pending g s → Pending g' s) :
    job.Safe g' j := by
  obtain hdone | hopened | hclaimed | ⟨s, sub, hs, hsub, hjob, hp⟩ := h
  · exact Or.inl hdone
  · exact Or.inr (Or.inl hopened)
  · exact Or.inr (Or.inr (Or.inl hclaimed))
  · obtain ⟨sub', hsub', horigin⟩ := hgrow.submissions s sub hsub
    have hjob' : sub'.jobId = j := (congrArg Prod.fst horigin).trans hjob
    exact Or.inr (Or.inr (Or.inr ⟨s, sub', hs, hsub', hjob', hpending s sub hsub hjob hp⟩))

/-- What is about to be written stays so until a job is written. -/
theorem unwritten_append {ns earlier : List JudgeNote} (h : s ∈ unwritten earlier)
    (hne : .written ∉ ns) : s ∈ unwritten (ns ++ earlier) := by
  induction ns with
  | nil => exact h
  | cons note ns ih =>
      have hrest : s ∈ unwritten (ns ++ earlier) := ih fun hmem => hne (List.mem_cons_of_mem _ hmem)
      cases note with
      | about s' j' => exact hrest
      | finishing s' => exact List.mem_cons_of_mem _ hrest
      | written => exact absurd List.mem_cons_self hne

/-- What is finished is about to be written. -/
theorem finishing_unwritten {ns earlier : List JudgeNote} (h : .finishing s ∈ ns)
    (hne : .written ∉ ns) : s ∈ unwritten (ns ++ earlier) := by
  induction ns with
  | nil => exact absurd h (by simp)
  | cons note ns ih =>
      have hrest : .finishing s ∈ ns → s ∈ unwritten (ns ++ earlier) := fun hmem =>
        ih hmem fun hmem => hne (List.mem_cons_of_mem _ hmem)
      cases note with
      | about s' j' => exact hrest (by simpa using h)
      | finishing s' =>
          obtain heq | hmem := List.mem_cons.mp h
          · obtain rfl : s = s' := by simpa using heq
            exact List.mem_cons_self
          · exact List.mem_cons_of_mem _ (hrest hmem)
      | written => exact absurd List.mem_cons_self hne

variable {i : Nat} {ns : List JudgeNote}

theorem unwritten_kept {i' : Nat} (hhist : g'.hist = ns.map (fun note => (i, note)) ++ g.hist)
    (h : s ∈ unwritten (own i' g.hist)) (hne : i' = i → .written ∉ ns) :
    s ∈ unwritten (own i' g'.hist) := by
  rw [hhist, own_append]
  by_cases hi : i' = i
  · subst hi
    rw [own_map_self]
    exact unwritten_append h (hne rfl)
  · rwa [own_map_of_ne hi]

/-- A step keeps what holds of the jobs if it writes safe rows, keeps what is pending for the
others, and notes what is so. -/
theorem JobsSafe.step (h : JobsSafe g) (hgrow : g.world.Grows g'.world)
    (hhist : g'.hist = ns.map (fun note => (i, note)) ++ g.hist)
    (hrows : ∀ j job, g'.world.jobs j = some job → job.Safe g' j ∨
      (g.world.jobs j = some job ∧ ∀ s sub, g.world.submissions s = some sub → sub.jobId = j →
        Pending g s → Pending g' s))
    (hnoted : ∀ s j, .about s j ∈ ns → ∃ sub, g.world.submissions s = some sub ∧ sub.jobId = j) :
    JobsSafe g' := by
  refine ⟨fun j job hjob => ?_, fun i' s j hnote => ?_⟩
  · obtain hsafe | ⟨hold, hpending⟩ := hrows j job hjob
    · exact hsafe
    · exact (h.jobs j job hold).kept hgrow hpending
  · have hsub : ∃ sub, g.world.submissions s = some sub ∧ sub.jobId = j := by
      rw [hhist, own_append, List.mem_append] at hnote
      obtain hnote | hnote := hnote
      · by_cases hi : i' = i
        · subst hi
          rw [own_map_self] at hnote
          exact hnoted s j hnote
        · rw [own_map_of_ne hi] at hnote
          exact absurd hnote (by simp)
      · exact h.noted i' s j hnote
    obtain ⟨sub, hsub, hjob⟩ := hsub
    obtain ⟨sub', hsub', horigin⟩ := hgrow.submissions s sub hsub
    exact ⟨sub', hsub', (congrArg Prod.fst horigin).trans hjob⟩

/-- What is pending stays so when no job is written and what is finished is noted. -/
theorem Pending.kept (h : Pending g s) (hhist : g'.hist = ns.map (fun note => (i, note)) ++ g.hist)
    (hne : .written ∉ ns)
    (hunfinished : g.world.Unfinished s → g'.world.Unfinished s ∨ .finishing s ∈ ns) :
    Pending g' s := by
  obtain hunfinished' | ⟨i', hs⟩ := h
  · obtain hstill | hnote := hunfinished hunfinished'
    · exact Or.inl hstill
    · refine Or.inr ⟨i, ?_⟩
      rw [hhist, own_append, own_map_self]
      exact finishing_unwritten hnote hne
  · exact Or.inr ⟨i', unwritten_kept hhist hs fun _ => hne⟩

/-- A step that writes no job and notes what it finishes. -/
theorem JobsSafe.same (h : JobsSafe g) (hgrow : g.world.Grows g'.world)
    (hhist : g'.hist = ns.map (fun note => (i, note)) ++ g.hist) (hne : .written ∉ ns)
    (hjobs : g'.world.jobs = g.world.jobs)
    (hunfinished : ∀ s, g.world.Unfinished s → g'.world.Unfinished s ∨ .finishing s ∈ ns)
    (hnoted : ∀ s j, .about s j ∈ ns → ∃ sub, g.world.submissions s = some sub ∧ sub.jobId = j) :
    JobsSafe g' := by
  refine h.step hgrow hhist (fun j job hjob => Or.inr ⟨?_, fun s _ _ _ hp => ?_⟩) hnoted
  · rwa [hjobs] at hjob
  · exact hp.kept hhist hne (hunfinished s)

/-- A step that writes and notes nothing about jobs. -/
theorem JobsSafe.quiet (h : JobsSafe g) (hgrow : g.world.Grows g'.world) (hhist : g'.hist = g.hist)
    (hjobs : g'.world.jobs = g.world.jobs)
    (hver : g'.world.verifications = g.world.verifications) : JobsSafe g' := by
  have hhist : g'.hist = [].map (fun note => (0, note)) ++ g.hist := hhist
  refine h.same hgrow hhist (by simp) hjobs (fun s hs => Or.inl ?_) (by simp)
  unfold World.Unfinished
  rwa [hver]

end States

section Steps

variable {cfg : Config} {l : Step} {L : List Lock} {g g' : Glob World JudgeNote} {a : Actor Request}
  {st : Stmt} {busy : Lock → Bool}

/-- Only verdicts finish verifications. -/
theorem Request.finishes {q : Request} {k : Nat × Nat} {v : Verification}
    (h : q.Executes (.verification (.update k v))) (hv : v.status = .finished) :
    q.judges = true := by
  cases q with
  | verifierVerdict body => rfl
  | verificationRunner => rfl
  | verifierClaim body => exact absurd (h.2.symm.trans hv) (by simp)
  | requeueVerification i n => exact absurd (h.2.symm.trans hv) (by simp)
  | payoutRunner =>
      obtain h | ⟨key, htopic, hhandler | hfinal⟩ := h
      · exact h.elim
      · cases key with
        | verification i n => exact absurd htopic (by simp [payoutTopics, OutboxKey.topic])
        | _ => exact hhandler.elim
      · exact hfinal.elim
  | release i j n | reapLeases | payoutAddress i x | stripeWebhook e =>
      obtain h | h := h
      · exact h.elim
      · first | exact absurd h (by simp) | exact h.elim
  | _ => exact h.elim

/-- A whole row that is written is done, or its submission is pending without its writer. -/
theorem tending_write {j : Nat} {new : Job} {u : Unit}
    (h : tending (.event a (.stmt (.job (.update j new)) u)) g = true) :
    new.status = .done ∨ shielded g a.pid j new = true := by
  obtain ⟨-, h⟩ := Bool.and_eq_true_iff.mp h
  exact (Bool.or_eq_true_iff.mp h).imp_left of_decide_eq_true

/-- A whole row is written. -/
theorem JobsSafe.write {j : Nat} {new : Job} (h : JobsSafe g)
    (hout : a.req.judges = true → WriteOut (own a.pid g.hist) (.job (.update j new)))
    (hok : tending (.event a (.stmt (.job (.update j new)) ())) g = true) :
    JobsSafe ((system cfg judgeNotes).afterStmt a (.job (.update j new)) busy none g) := by
  have hgrow : g.world.Grows (Stmt.apply (.job (.update j new)) busy g.world) := Stmt.grows _
  have hhist : ((system cfg judgeNotes).afterStmt a (.job (.update j new)) busy none g).hist =
      (judgeNotes a (.stmt (.job (.update j new)) ()) g.world).map (fun note => (a.pid, note)) ++
        g.hist := rfl
  have hunfinished : ∀ s, g.world.Unfinished s →
      (Stmt.apply (.job (.update j new)) busy g.world).Unfinished s := by
    intro s hs
    unfold World.Unfinished
    rwa [Stmt.apply_verifications]
  refine h.step hgrow hhist (fun k job hjob => ?_) (fun s k hnote => ?_)
  · change (Stmt.apply (.job (.update j new)) busy g.world).jobs k = some job at hjob
    rw [Stmt.apply_jobs] at hjob
    change modify g.world.jobs j (JobStmt.assign new) k = some job at hjob
    obtain ⟨old, hold⟩ := exists_of_modify hjob
    obtain rfl := Option.some.inj ((modify_eq_some hold).symm.trans hjob)
    by_cases hk : k = j
    · left
      subst hk
      rw [if_pos rfl]
      obtain hdone | hshield := tending_write hok
      · exact Or.inl hdone
      · obtain ⟨s, sub, hs, hsub, hsubJob, hp⟩ := shielded_pending hshield
        obtain ⟨sub', hsub', horigin⟩ := hgrow.submissions s sub hsub
        have hsubJob' : sub'.jobId = k := (congrArg Prod.fst horigin).trans hsubJob
        refine Or.inr (Or.inr (Or.inr ⟨s, sub', hs, hsub', hsubJob', ?_⟩))
        obtain hp | ⟨i', hne, hp⟩ := hp
        · exact Or.inl (hunfinished s hp)
        · exact Or.inr ⟨i', unwritten_kept hhist hp fun hi => absurd hi hne⟩
    · right
      rw [if_neg hk]
      refine ⟨hold, fun s sub hsub hsubJob hp => ?_⟩
      obtain hp | ⟨i', hp⟩ := hp
      · exact Or.inl (hunfinished s hp)
      · refine Or.inr ⟨i', unwritten_kept hhist hp fun hi hnote => ?_⟩
        -- the process writes the job of what it has finished
        have hjudges : a.req.judges = true := by
          by_contra hjudges
          simp [judgeNotes, hjudges] at hnote
        obtain ⟨sub', hsub', hjob'⟩ := h.noted a.pid s j (hout hjudges s (hi ▸ hp))
        obtain rfl : sub = sub' := Option.some.inj (hsub.symm.trans hsub')
        exact hk (hsubJob.symm.trans hjob')
  · have hnotes : judgeNotes a (.stmt (.job (.update j new)) ()) g.world =
        if a.req.judges then [.written] else [] := rfl
    rw [hnotes] at hnote
    split_ifs at hnote <;> exact absurd hnote (by simp)

/-- A verification is rewritten; a verdict notes that it has finished it. -/
theorem JobsSafe.verification_update {k : Nat × Nat} {v : Verification} (h : JobsSafe g)
    (hexec : a.req.Executes (.verification (.update k v))) :
    JobsSafe ((system cfg judgeNotes).afterStmt a (.verification (.update k v)) busy none g) := by
  have hver := Stmt.apply_verifications (.verification (.update k v)) busy g.world
  have hnotes : ∀ note ∈ judgeNotes a (.stmt (.verification (.update k v)) ()) g.world,
      note = .finishing k.1 := by
    intro note hnote
    simp only [judgeNotes, JudgeNote.of] at hnote
    split_ifs at hnote
    · exact List.mem_singleton.mp hnote
    · exact absurd hnote (by simp)
    · exact absurd hnote (by simp)
  have hgrow : g.world.Grows (Stmt.apply (.verification (.update k v)) busy g.world) := Stmt.grows _
  have hhist : ((system cfg judgeNotes).afterStmt a (.verification (.update k v)) busy none g).hist =
      (judgeNotes a (.stmt (.verification (.update k v)) ()) g.world).map
        (fun note => (a.pid, note)) ++ g.hist := rfl
  refine h.same hgrow hhist (fun hmem => ?_)
    (Stmt.apply_jobs (.verification (.update k v)) busy g.world) (fun s hs => ?_) fun s j hmem => ?_
  · exact absurd (hnotes _ hmem) (by simp)
  · obtain ⟨n, v₀, hv₀, hstatus⟩ := hs
    have hrow := (congrFun hver (s, n)).trans (modify_eq_some hv₀)
    by_cases hk : (s, n) = k ∧ v.status = .finished
    · right
      obtain ⟨rfl, hfinished⟩ := hk
      simp [judgeNotes, JudgeNote.of, Request.finishes hexec hfinished, hfinished]
    · left
      refine ⟨n, _, hrow, ?_⟩
      split_ifs with hkey
      · exact fun hfinished => hk ⟨hkey, hfinished⟩
      · exact hstatus
  · exact absurd (hnotes _ hmem) (by simp)

/-- A statement outside transactions keeps the jobs safe. -/
theorem JobsSafe.stmt (h : JobsSafe g) (hexec : a.req.Executes st)
    (hout : a.req.judges = true → WriteOut (own a.pid g.hist) st)
    (hok : tending (.event a (.stmt st (st.result busy g.world))) g = true) :
    JobsSafe ((system cfg judgeNotes).afterStmt a st busy none g) := by
  have hgrow : g.world.Grows (st.apply busy g.world) := Stmt.grows _
  have hver := Stmt.apply_verifications st busy g.world
  have hjobs := Stmt.apply_jobs st busy g.world
  have hhist : ((system cfg judgeNotes).afterStmt a st busy none g).hist =
      (judgeNotes a (.stmt st (st.result busy g.world)) g.world).map (fun note => (a.pid, note)) ++
        g.hist := rfl
  have hquiet : Unjudged st → (st.apply busy g.world).verifications = g.world.verifications →
      (st.apply busy g.world).jobs = g.world.jobs →
      JobsSafe ((system cfg judgeNotes).afterStmt a st busy none g) := by
    intro hunjudged hver hjobs
    rw [hunjudged.note] at hhist
    exact h.quiet hgrow hhist hjobs hver
  cases st with
  | job js =>
      obtain ⟨pid, q⟩ := a
      cases Request.writes_job hexec with
      | release i j n =>
          rw [Unjudged.note (by trivial)] at hhist
          refine h.step hgrow hhist (fun k job hjob => ?_) (by simp)
          have hsame : ∀ s, Pending g s → Pending ((system cfg judgeNotes).afterStmt ⟨pid, _⟩
              (.job (.release j i n)) busy none g) s :=
            fun s hp => hp.kept hhist (by simp) fun hs => Or.inl (by
              change (Stmt.apply (.job (.release j i n)) busy g.world).Unfinished s
              unfold World.Unfinished
              rwa [hver])
          change (Stmt.apply (.job (.release j i n)) busy g.world).jobs k = some job at hjob
          rw [hjobs] at hjob
          simp only [JobStmt.write] at hjob
          split_ifs at hjob
          · obtain ⟨old, hold⟩ := exists_of_modify hjob
            obtain rfl := Option.some.inj ((modify_eq_some hold).symm.trans hjob)
            split_ifs with hk
            · exact Or.inl (Or.inr (Or.inl rfl))
            · exact Or.inr ⟨hold, fun s _ _ _ hp => hsame s hp⟩
          · exact Or.inr ⟨hjob, fun s _ _ _ hp => hsame s hp⟩
      | reap t =>
          obtain ⟨-, hempty⟩ := Bool.and_eq_true_iff.mp hok
          refine hquiet trivial hver (hjobs.trans ?_)
          change modifyAll g.world.jobs (JobStmt.reaped t g.world) _ = _
          rw [List.isEmpty_iff.mp hempty, modifyAll_nil]
      | update _ j new old _ => exact h.write hout hok
  | verification vs =>
      cases vs with
      | insert k v =>
          rw [Unjudged.note (by trivial)] at hhist
          refine h.same hgrow hhist (by simp) hjobs (fun s hs => Or.inl ?_) (by simp)
          obtain ⟨n, v₀, hv₀, hstatus⟩ := hs
          refine ⟨n, v₀, ?_, hstatus⟩
          refine (congrFun hver (s, n)).trans ?_
          simp only [VerificationStmt.write]
          split_ifs with hfree
          · have hne : (s, n) ≠ k := by
              rintro rfl
              exact absurd hfree (by simp [hv₀])
            rwa [Function.update_of_ne hne]
          · exact hv₀
      | update k v => exact h.verification_update hexec
  | read q =>
      cases q with
      | submission s =>
          have hnote : ∀ note ∈ judgeNotes a (.stmt (.read (.submission s))
              (g.world.submissions s)) g.world,
              ∃ sub, g.world.submissions s = some sub ∧ note = .about s sub.jobId := by
            intro note hnote
            unfold judgeNotes at hnote
            split_ifs at hnote
            · obtain ⟨sub, hsub, rfl⟩ := List.mem_map.mp hnote
              exact ⟨sub, by simpa using hsub, rfl⟩
            · exact absurd hnote (by simp)
          refine h.same hgrow hhist (fun hmem => ?_) hjobs (fun s' hs => Or.inl ?_)
            fun s' j hmem => ?_
          · obtain ⟨sub, -, heq⟩ := hnote _ hmem
            exact absurd heq (by simp)
          · change (Stmt.apply (.read (.submission s)) busy g.world).Unfinished s'
            unfold World.Unfinished
            rwa [hver]
          · obtain ⟨sub, hsub, heq⟩ := hnote _ hmem
            obtain ⟨rfl, rfl⟩ : s' = s ∧ j = sub.jobId := by simpa using heq
            exact ⟨sub, hsub, rfl⟩
      | _ => exact hquiet trivial hver hjobs
  | _ => exact hquiet trivial hver hjobs

/-- A commit keeps the jobs safe. -/
theorem JobsSafe.commit {t : Tag} {v : World → World} (h : JobsSafe g)
    (heffect : t.Effect cfg (fun _ _ _ => True) a.pid L g.world (v g.world)) :
    JobsSafe ((system cfg judgeNotes).afterCommit a t (some v) g) := by
  have hhist : ((system cfg judgeNotes).afterCommit a t (some v) g).hist =
      [].map (fun note => (a.pid, note)) ++ g.hist := by
    change (judgeNotes a (.commit t) g.world).map _ ++ g.hist = _
    simp [judgeNotes, JudgeNote.of]
  have hsame : ∀ s, Pending g s → Pending ((system cfg judgeNotes).afterCommit a t (some v) g) s :=
    fun s hp => hp.kept hhist (by simp) fun hs => Or.inl (by
      change (v g.world).Unfinished s
      unfold World.Unfinished
      rwa [heffect.submissions.2.2])
  refine h.step heffect.grows hhist (fun j job hjob => ?_) (by simp)
  change (v g.world).jobs j = some job at hjob
  cases heffect.jobsCommit with
  | same _ hjobs =>
      rw [hjobs] at hjob
      exact Or.inr ⟨hjob, fun s _ _ _ hp => hsame s hp⟩
  | leased k i _ hleased =>
      obtain ⟨e, n, t, w₀, -, -, -, -, -, hw⟩ := hleased
      rw [hw] at hjob
      obtain ⟨old, hold⟩ := exists_of_modify hjob
      obtain rfl := Option.some.inj ((modify_eq_some hold).symm.trans hjob)
      split_ifs with hk
      · exact Or.inl (Or.inr (Or.inr (Or.inl ⟨rfl, by simp [JobStmt.lease'], by simp [JobStmt.lease']⟩)))
      · exact Or.inr ⟨hold, fun s _ _ _ hp => hsame s hp⟩
  | published b bounty _ _ hpopulates =>
      obtain ⟨-, hjobs⟩ | ⟨w₀, -, -, hadds⟩ := hpopulates
      · rw [hjobs] at hjob
        exact Or.inr ⟨hjob, fun s _ _ _ hp => hsame s hp⟩
      · cases hold : g.world.jobs j with
        | none =>
            obtain ⟨-, fp, sla, now, rfl⟩ := hadds.new hold hjob
            exact Or.inl (Or.inr (Or.inl rfl))
        | some row =>
            obtain rfl : row = job := Option.some.inj ((hadds.kept hold).symm.trans hjob)
            exact Or.inr ⟨rfl, fun s _ _ _ hp => hsame s hp⟩

/-- The plan: the requests keep to their conduct. -/
def judgePlan (cfg : Config) : Plan (system cfg judgeNotes) :=
  systemPlan cfg judgeNotes tending (fun _ => True) (fun _ => True) (fun _ _ _ => True)
    fun _ _ _ => True

theorem judgePlan_valid (cfg : Config) : (judgePlan cfg).Valid :=
  systemPlan_valid (fun _ _ _ => trivial) (fun _ _ _ _ _ => trivial)
    (fun _ _ _ _ _ _ => trivial) fun _ _ _ _ _ _ _ => trivial

/-- A step keeps the jobs safe, if verdicts write the jobs of what they finish. -/
theorem JobsSafe.move (h : JobsSafe g) (hmove : (judgePlan cfg).Move l L g g')
    (hout : ∀ a st r, l = .event a (.stmt st r) → a.req.judges = true →
      WriteOut (own a.pid g.hist) st) : JobsSafe g' := by
  obtain ⟨-, hok, hstep⟩ := hmove
  cases hstep with
  | stmt a st busy _ _ _ hexec => exact h.stmt hexec.1 (hout a st _ rfl) hok
  | inner a st busy v _ _ hinner =>
      have hunjudged : Unjudged st := by
        have hinner : st.Inner cfg g.world := hinner
        unfold Unjudged
        split <;> first | exact hinner | trivial
      refine h.quiet (st.effect_grows (v g.world)) ?_ (st.effect_jobs busy (v g.world) g.world)
        (st.effect_verifications busy (v g.world) g.world)
      change (judgeNotes a (.stmt st _) g.world).map _ ++ g.hist = _
      rw [hunjudged.note]
      rfl
  | commit a t L v _ _ hcommit => exact h.commit hcommit.2
  | reply a x _ _ _ =>
      refine h.quiet (.refl _) ?_ rfl rfl
      change (judgeNotes a (.reply x) g.world).map _ ++ g.hist = _
      simp [judgeNotes, JudgeNote.of]
  | env e _ =>
      have hsame : (e.apply g.world).verifications = g.world.verifications ∧
          (e.apply g.world).jobs = g.world.jobs := by
        cases e <;> exact ⟨rfl, rfl⟩
      exact h.quiet (e.apply_grows _) rfl hsame.2 hsame.1

end Steps

section Runs

variable {cfg : Config} {w : World} {cs : List Pick} {c : State JudgeNote} {j : Nat} {job : Job}

/-- A leasable job can be leased. -/
theorem leases_of_leasable (hjob : w.jobs j = some job)
    (hleasable : JobStmt.leasable w.now job = true) (i ttl : Nat) (hfree : w.unemployed i = true) :
    w.leases j i ttl = true := by
  have hnone : Query.eval (.hasActiveLease i w.now) { w with nextId := w.nextId + 1 } = false := by
    simpa [World.unemployed] using hfree
  have hsolo : ((leaseJob j i ttl).solo engine none w).1 =
      .ok (some (JobStmt.lease' i (w.now + ttl) w.nextId job)) := by
    change ((Prog.seal (fun _ => Tag.leaseJob j i)
      (if Query.eval (.hasActiveLease i w.now) { w with nextId := w.nextId + 1 } = true then
        (.ret none : Code (Option Job))
      else run (.job (.lease j i (w.now + ttl) w.nextId w.now)))).solo engine (some id)
        { w with nextId := w.nextId + 1 }).1 = _
    rw [hnone, if_neg Bool.false_ne_true]
    change Except.ok (((w.jobs j).filter (JobStmt.leasable w.now)).map
      (JobStmt.lease' i (w.now + ttl) w.nextId)) = _
    simp [hjob, Option.filter, hleasable]
  simp [World.leases, hsolo]

/-- In an allowed run every verdict writes its job. -/
theorem exec_judges (hrun : (system cfg judgeNotes).exec tending cs (Sys.start w) = some c) :
    Settled (system cfg judgeNotes) Applying judgeDebts c := by
  refine Machine.exec_settled (fun i q => q.code_judges cfg i) (fun h => h rfl)
    (fun a x w => by simp [system, judgeNotes, JudgeNote.of]) (fun a st r g hok happlying => ?_)
    (fun a l g hok hl => ?_) hrun
  · obtain ⟨hcuts, -⟩ := Bool.and_eq_true_iff.mp hok
    have happlying : unwritten (own a.pid g.hist) ≠ [] := happlying
    simpa [cuts, happlying] using hcuts
  · obtain ⟨hcuts, -⟩ := Bool.and_eq_true_iff.mp hok
    obtain rfl | rfl := hl
    · simpa [cuts] using hcuts
    · simpa [cuts] using hcuts

/-- In an allowed run the jobs stay safe. -/
theorem exec_safe (hw : JobsSafe ⟨[], w⟩)
    (hrun : (system cfg judgeNotes).exec tending cs (Sys.start w) = some c) : JobsSafe c.glob := by
  refine Machine.exec_induction (I := fun c => JobsSafe c.glob) hw ?_ hrun
  intro cs c ch l c' hpre hsafe hmove hok
  have hout : ∀ a st r, l = .event a (.stmt st r) → a.req.judges = true →
      WriteOut (own a.pid c.glob.hist) st := by
    rintro a st r rfl
    obtain ⟨p, rest, hp, hadvances⟩ := Machine.move_actor hmove
    have hsettles := (exec_judges hpre).live a.pid a.req p hp
    cases hadvances with
    | stmt _ next err _ => exact hsettles.1
  obtain ⟨hsame, -⟩ | ⟨a, x, L, rfl, hstep⟩ | ⟨e, rfl, hstep⟩ :=
    (judgePlan_valid cfg).exec_step (π := judgePlan cfg) trivial hpre hmove hok
  · rw [hsame]
    exact hsafe
  · exact hsafe.move hstep hout
  · exact hsafe.move hstep hout

/-- **No job is lost**: in the runs in which the reaper finds nothing, no verdict is cut off,
and a job that is written is done or being verified, a job that is not done is held by an
unexpired lease, has a submission with an unfinished verification, or can be leased, unless
a verdict on its submission is between its first write and its last. -/
theorem no_job_lost (hw : JobsSafe ⟨[], w⟩)
    (hrun : (system cfg judgeNotes).exec tending cs (Sys.start w) = some c)
    (hjob : c.glob.world.jobs j = some job) (hopen : job.status ≠ .done)
    (hwhole : ∀ s, job.currentSubmissionId = some s → ∀ i, s ∉ unwritten (own i c.glob.hist)) :
    c.glob.world.Tended j job := by
  obtain hdone | hopened | ⟨hclaimed, hworker, hexpires⟩ | ⟨s, sub, hs, -, -, hp⟩ :=
    (exec_safe hw hrun).jobs j job hjob
  · exact absurd hdone hopen
  · exact .leasable fun i ttl hfree =>
      leases_of_leasable hjob (by simp [JobStmt.leasable, hopened]) i ttl hfree
  · obtain ⟨t, ht⟩ := Option.ne_none_iff_exists'.mp hexpires
    by_cases hlive : c.glob.world.now ≤ t
    · refine .held ?_
      simp [Job.held, Option.isSome_iff_ne_none.mpr hworker, ht, hlive]
    · refine .leasable fun i ttl hfree => leases_of_leasable hjob ?_ i ttl hfree
      simp [JobStmt.leasable, hclaimed, ht, Nat.lt_of_not_le hlive]
  · obtain hunfinished | ⟨i, hi⟩ := hp
    · exact .verified s hs hunfinished
    · exact absurd hi (hwhole s hs i)

end Runs

/-- No verdict is between its first write and its last. -/
def judged (g : Glob World JudgeNote) : Bool :=
  g.hist.all fun e => (unwritten (own e.1 g.hist)).isEmpty

theorem judged_whole {g : Glob World JudgeNote} (h : judged g = true) (s i : Nat) :
    s ∉ unwritten (own i g.hist) := by
  intro hs
  cases hown : own i g.hist with
  | nil =>
      rw [hown] at hs
      exact absurd hs (by simp [unwritten])
  | cons note ns =>
      have hmem : (i, note) ∈ g.hist := mem_own.mp (hown ▸ List.mem_cons_self)
      have hempty := List.isEmpty_iff.mp (List.all_eq_true.mp h (i, note) hmem)
      rw [hempty] at hs
      exact absurd hs (by simp)

theorem leasedWorld_safe : JobsSafe ⟨[], leasedWorld⟩ := by
  refine ⟨fun j job hjob => ?_, fun i s j hnote => absurd hnote (by simp)⟩
  have hrow : Function.update World.empty.jobs 2 (some leasedJob) j = some job := hjob
  by_cases hj : j = 2
  · subst hj
    rw [Function.update_self] at hrow
    obtain rfl := Option.some.inj hrow
    exact Or.inr (Or.inr (Or.inl ⟨rfl, by simp [leasedJob], by simp [leasedJob]⟩))
  · rw [Function.update_of_ne hj] at hrow
    exact absurd hrow (by simp [World.empty])

/-- A submission of job 2, claimed by a verifier and found inconclusive. -/
def submitAndRequeue : List Pick :=
  ([.spawn (.submit 3 2 none ⟨⟨1, 8, .absent, 0⟩, [], none⟩)] : List Pick) ++
    @List.replicate Pick 14 (.run 0) ++ ([.spawn (.verifierClaim ⟨5, 1, 7, 600⟩)] : List Pick) ++
    @List.replicate Pick 8 (.run 1) ++
    ([.spawn (.verifierVerdict ⟨5, 1, 7, .inconclusive, "?", 1⟩)] : List Pick) ++
    @List.replicate Pick 15 (.run 2)

theorem no_job_lost_submitAndRequeue :
    ∃ c job, (system Config.default judgeNotes).exec tending submitAndRequeue
        (Sys.start leasedWorld) = some c ∧
      c.glob.world.jobs 2 = some job ∧ job.status = .verifying ∧ c.glob.world.Tended 2 job := by
  obtain ⟨c, hrun, h⟩ := runs Config.default judgeNotes tending submitAndRequeue leasedWorld
    (fun c => (c.glob.world.jobs 2).any (fun (row : Job) => decide (row.status = .verifying)) &&
      judged c.glob) (by decide)
  obtain ⟨hjob, hjudged⟩ := Bool.and_eq_true_iff.mp h
  obtain ⟨job, hjob, hstatus⟩ := (Option.any_eq_true _ _).mp hjob
  have hstatus : job.status = .verifying := of_decide_eq_true hstatus
  have hopen : job.status ≠ .done := by
    rw [hstatus]
    decide
  exact ⟨c, job, hrun, hjob, hstatus,
    no_job_lost leasedWorld_safe hrun hjob hopen fun s _ i => judged_whole hjudged s i⟩

/-- The lease of job 2 runs out: a worker without a job can lease it. -/
def leaseRunsOut : List Pick := [.env (.tick 101)]

/-- The reaper runs. -/
def thenReaped : List Pick := .spawn .reapLeases :: List.replicate 2 (.run 0)

/-- A job that could be leased is reaped.  It has no submission, and nobody holds it or can
lease it. -/
theorem reaped_and_lost :
    JobsSafe ⟨[], leasedWorld⟩ ∧
    ∃ c c' job, (system Config.default judgeNotes).exec (fun _ _ => true) leaseRunsOut
        (Sys.start leasedWorld) = some c ∧
      c.glob.world.unemployed 4 = true ∧ c.glob.world.leases 2 4 5 = true ∧
      (system Config.default judgeNotes).exec (fun _ _ => true) thenReaped c = some c' ∧
      c'.glob.world.jobs 2 = some job ∧ job.status ≠ .done ∧
      (∀ i, unwritten (own i c'.glob.hist) = []) ∧ ¬ c'.glob.world.Tended 2 job := by
  refine ⟨leasedWorld_safe, ?_⟩
  obtain ⟨c, hrun, h⟩ := runs Config.default judgeNotes (fun _ _ => true) leaseRunsOut leasedWorld
    (fun c => (c.glob.world.unemployed 4 && c.glob.world.leases 2 4 5) &&
      ((system Config.default judgeNotes).exec (fun _ _ => true) thenReaped c).any fun c' =>
        (c'.glob.world.jobs 2).any (fun (row : Job) =>
          decide (row.status ≠ .done ∧ row.currentSubmissionId = none ∧ row.leaseWorkerId = none)) &&
        (c'.glob.world.unemployed 4 && ! c'.glob.world.leases 2 4 5 && judged c'.glob))
    (by decide)
  obtain ⟨hbefore, h⟩ := Bool.and_eq_true_iff.mp h
  obtain ⟨hfree, hleases⟩ := Bool.and_eq_true_iff.mp hbefore
  obtain ⟨c', hreap, h⟩ := (Option.any_eq_true _ _).mp h
  obtain ⟨hjob, hafter⟩ := Bool.and_eq_true_iff.mp h
  obtain ⟨job, hjob, hrow⟩ := (Option.any_eq_true _ _).mp hjob
  obtain ⟨hopen, hnone, hworker⟩ := of_decide_eq_true hrow
  obtain ⟨hafter, hjudged⟩ := Bool.and_eq_true_iff.mp hafter
  obtain ⟨hfree', hlost⟩ := Bool.and_eq_true_iff.mp hafter
  refine ⟨c, c', job, hrun, hfree, hleases, hreap, hjob, hopen, fun i => ?_, fun htended => ?_⟩
  · exact List.eq_nil_iff_forall_not_mem.mpr fun s => judged_whole hjudged s i
  · cases htended with
    | held hheld => simp [Job.held, hworker] at hheld
    | verified s hs _ => exact absurd (hs.symm.trans hnone) (by simp)
    | leasable hleasable =>
        rw [hleasable 4 5 hfree'] at hlost
        exact absurd hlost (by simp)

end OpenUnion
