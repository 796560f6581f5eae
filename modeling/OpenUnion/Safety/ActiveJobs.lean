import OpenUnion.Safety.Leases

/-!
# One active job per worker

`leaseJob` looks for an active job of the worker under the worker's advisory lock
before it leases another one.  The other writes of the job row do not take that
lock, and a late whole-row write can bring a job back to a worker who has leased
another one since.

* `one_active_job`: as long as no whole-row write makes a job active for a worker
  it was not active for, every worker has at most one active job.
* `late_submit_second_active_job`: a run in which a late submit does.
-/

namespace OpenUnion

open Interleave

/-- A whole-row write leaves the job active only for a worker it is active for. -/
def noRevival : Step → Glob World Unit → Bool
  | .spawn q, _ => q.isLeaseRequest
  | .event _ (.stmt (.job (.update j new)) _), g =>
      new.leaseWorkerId.all fun i => !new.activeFor i g.world.now ||
        (g.world.jobs j).any (Job.activeFor i g.world.now)
  | _, _ => true

/-- No job has become active for anybody, and none is new. -/
def Calms (now now' : Nat) (jobs jobs' : Nat → Option Job) : Prop :=
  ∀ k row', jobs' k = some row' → ∃ row, jobs k = some row ∧
    ∀ i, row'.activeFor i now' = true → row.activeFor i now = true

/-- Every worker has at most one active job. -/
def OneActive (w : World) : Prop :=
  ∀ i k k' row row', w.jobs k = some row → w.jobs k' = some row' →
    row.activeFor i w.now = true → row'.activeFor i w.now = true → k = k'

/-- Jobs have identifiers that have been handed out. -/
def JobsNumbered (w : World) : Prop := AllRows (fun k _ => k < w.nextId) w.jobs

/-- What the advisory lock of a worker protects: a job that is active for the worker
later is one that is active now. -/
def advisoryHold : Lock → World → World → Prop
  | .advisory i, w, w' => ∀ k row', w'.jobs k = some row' → row'.activeFor i w'.now = true →
      k < w.nextId ∧ ∃ row, w.jobs k = some row ∧ row.activeFor i w.now = true
  | _, _, _ => True

section Calm

variable {now now' : Nat} {jobs jobs' jobs'' : Nat → Option Job} {w w' : World}

theorem Calms.refl : Calms now now jobs jobs := fun _ row h => ⟨row, h, fun _ h => h⟩

theorem Calms.modify {k : Nat} {f : Job → Job}
    (hf : ∀ row, jobs k = some row → ∀ i, (f row).activeFor i now = true →
      row.activeFor i now = true) : Calms now now jobs (modify jobs k f) := by
  intro k' row' hrow'
  by_cases hk : k' = k
  · subst hk
    rw [modify_self, Option.map_eq_some_iff] at hrow'
    obtain ⟨row, hrow, rfl⟩ := hrow'
    exact ⟨row, hrow, hf row hrow⟩
  · exact ⟨row', by simpa [hk] using hrow', fun _ h => h⟩

theorem Calms.modifyAll {ks : List Nat} {f : Job → Job}
    (hf : ∀ row i, (f row).activeFor i now = true → row.activeFor i now = true) :
    Calms now now jobs (modifyAll jobs ks f) := by
  intro k row' hrow'
  by_cases hk : k ∈ ks
  · simp only [OpenUnion.modifyAll, hk, if_true, Option.map_eq_some_iff] at hrow'
    obtain ⟨row, hrow, rfl⟩ := hrow'
    exact ⟨row, hrow, hf row⟩
  · exact ⟨row', by rwa [modifyAll_of_notMem hk] at hrow', fun _ h => h⟩

/-- A lease that has not expired later has not expired before. -/
theorem Job.activeFor_mono {row : Job} {i : Nat} (hnow : now ≤ now')
    (h : row.activeFor i now' = true) : row.activeFor i now = true := by
  simp only [Job.activeFor, Bool.and_eq_true] at h ⊢
  refine ⟨h.1, ?_⟩
  have hstatus := h.2
  cases hs : row.status with
  | claimed =>
      simp only [hs] at hstatus ⊢
      cases hexpires : row.leaseExpiresAt with
      | none => rfl
      | some t =>
          simp only [hexpires, Option.all_some, decide_eq_true_eq] at hstatus ⊢
          omega
  | _ => simp_all

theorem Job.activeFor_unlease {row : Job} {i : Nat} (st : JobStatus) :
    (JobStmt.unlease st row).activeFor i now = false := by
  simp [Job.activeFor, JobStmt.unlease]

theorem OneActive.calm (h : OneActive w) (hcalm : Calms w.now w'.now w.jobs w'.jobs) :
    OneActive w' := by
  intro i k k' row row' hrow hrow' hactive hactive'
  obtain ⟨old, hold, hactive₀⟩ := hcalm k row hrow
  obtain ⟨old', hold', hactive₀'⟩ := hcalm k' row' hrow'
  exact h i k k' old old' hold hold' (hactive₀ i hactive) (hactive₀' i hactive')

theorem JobsNumbered.calm (h : JobsNumbered w) (hcalm : Calms w.now w'.now w.jobs w'.jobs)
    (hid : w.nextId ≤ w'.nextId) : JobsNumbered w' := by
  intro k row' hrow'
  obtain ⟨row, hrow, -⟩ := hcalm k row' hrow'
  exact Nat.lt_of_lt_of_le (h k row hrow) hid

theorem Calms.hold (hcalm : Calms w.now w'.now w.jobs w'.jobs) (hnumbered : JobsNumbered w)
    (k : Lock) : advisoryHold k w w' := by
  cases k with
  | advisory i =>
      intro k row' hrow' hactive
      obtain ⟨row, hrow, hactive'⟩ := hcalm k row' hrow'
      exact ⟨hnumbered k row hrow, row, hrow, hactive' i hactive⟩
  | _ => trivial

theorem advisoryHold_trans (k : Lock) (u v w : World) (huv : advisoryHold k u v)
    (hvw : advisoryHold k v w) : advisoryHold k u w := by
  cases k with
  | advisory i =>
      intro k row' hrow' hactive
      obtain ⟨-, row, hrow, hactive'⟩ := hvw k row' hrow' hactive
      exact huv k row hrow hactive'
  | _ => trivial

end Calm

/-- The plan: one active job per worker. -/
def activePlan (cfg : Config) : Plan (system cfg noNotes) :=
  systemPlan cfg noNotes noRevival (fun q => q.isLeaseRequest = true)
    (fun g => OneActive g.world ∧ JobsNumbered g.world) advisoryHold fun _ _ _ => True

/-- A statement outside transactions makes no job active. -/
theorem calm_stmt {q : Request} {s : JobStmt} {w : World} (hq : q.isLeaseRequest = true)
    (hs : q.Executes (.job s)) (hok : ∀ j new, s = .update j new →
      (new.leaseWorkerId.all fun i => !new.activeFor i w.now ||
        (w.jobs j).any (Job.activeFor i w.now)) = true) :
    Calms w.now w.now w.jobs (s.write w w.jobs) := by
  obtain ⟨i, j, n, -, rfl⟩ | ⟨t, -, rfl⟩ | ⟨j, new, old, rfl, -, -⟩ := Request.executes_job hq hs
  · simp only [JobStmt.write]
    split_ifs
    · exact .modify fun row _ i h => absurd h (by simp [Job.activeFor_unlease])
    · exact .refl
  · exact .modifyAll fun row i h => absurd h (by simp [Job.activeFor_unlease])
  · refine .modify fun row hrow i hactive => ?_
    -- the columns that decide are those of the row written
    have hactive : new.activeFor i w.now = true := hactive
    have hworker : new.leaseWorkerId = some i := by
      simp only [Job.activeFor, Bool.and_eq_true, decide_eq_true_eq] at hactive
      exact hactive.1
    simpa [hworker, hactive, hrow] using hok j new rfl

/-- A step makes no job active, or leases one to a worker who has none. -/
theorem activePlan_step {cfg : Config} {l : Step} {L : List Lock} {g g' : Glob World Unit}
    (h : (activePlan cfg).Move l L g g') :
    Calms g.world.now g'.world.now g.world.jobs g'.world.jobs ∨
      ∃ i j, .advisory i ∈ L ∧ Leased advisoryHold j i g.world g'.world := by
  obtain ⟨-, hok, hstep⟩ := h
  have hquiet : g'.world.jobs = g.world.jobs → g'.world.now = g.world.now →
      Calms g.world.now g'.world.now g.world.jobs g'.world.jobs := by
    intro hjobs hnow
    rw [hjobs, hnow]
    exact .refl
  cases hstep with
  | stmt a s busy _ hasked _ hexec =>
      left
      have hjobs := s.apply_jobs busy g.world
      have hnow := s.apply_now busy g.world
      cases s with
      | job s =>
          change Calms g.world.now ((Stmt.job s).apply busy g.world).now g.world.jobs
            ((Stmt.job s).apply busy g.world).jobs
          rw [hnow, hjobs]
          refine calm_stmt hasked hexec.1 fun j new hs => ?_
          subst hs
          exact hok
      | _ => exact hquiet hjobs hnow
  | inner a s busy v _ _ _ =>
      exact Or.inl (hquiet (Stmt.effect_jobs s busy _ _) (Stmt.effect_now s busy _ _))
  | commit a t L v _ hasked hcom =>
      obtain ⟨hends, heffect⟩ := hcom
      obtain ⟨i, j, -, rfl⟩ | rfl := Request.ends_lease hasked hends
      · obtain hsame | ⟨hlock, hleased⟩ := heffect
        · exact Or.inl (hquiet (congrArg World.jobs hsame) (congrArg World.now hsame))
        · exact Or.inr ⟨i, j, hlock, hleased⟩
      · obtain ⟨outbox, -, hbatch⟩ := heffect
        refine Or.inl (hquiet ?_ ?_)
        · change (v g.world).jobs = g.world.jobs
          rw [hbatch]
        · change (v g.world).now = g.world.now
          rw [hbatch]
  | reply a x _ _ => exact Or.inl .refl
  | env e _ =>
      left
      cases e with
      | tick ms =>
          exact fun k row hrow => ⟨row, hrow, fun i h => Job.activeFor_mono (Nat.le_add_right _ _) h⟩
      | answers o => exact .refl
      | revert hash => exact .refl

section Lease

variable {w w' : World} {i j : Nat}

/-- Before a worker is leased a job, it has no active one. -/
theorem Leased.idle (h : Leased advisoryHold j i w w') {k : Nat} {row : Job}
    (hrow : w.jobs k = some row) : row.activeFor i w.now = false := by
  obtain ⟨e, n, t, w₀, ht, -, hhold, hnone, -, -⟩ := h
  by_contra hactive
  rw [Bool.not_eq_false] at hactive
  obtain ⟨hlt, row₀, hrow₀, hactive₀⟩ := hhold k row hrow hactive
  have hfound : w₀.ids.any (fun j => (w₀.jobs j).any (Job.activeFor i t)) = true :=
    List.any_eq_true.mpr ⟨k, by simpa [World.ids] using hlt,
      by simpa [hrow₀] using Job.activeFor_mono ht hactive₀⟩
  exact absurd (hnone.symm.trans hfound) (by simp)

/-- A job of the state after the lease: the one leased, or one from before. -/
theorem Leased.jobs (h : Leased advisoryHold j i w w') {k : Nat} {row' : Job}
    (hrow' : w'.jobs k = some row') :
    (k = j ∧ (∃ row, w.jobs k = some row) ∧ row'.leaseWorkerId = some i) ∨
      (k ≠ j ∧ w.jobs k = some row') := by
  obtain ⟨e, n, t, w₀, -, -, -, -, -, hw'⟩ := h
  rw [hw'] at hrow'
  by_cases hk : k = j
  · subst hk
    have hrow' : modify w.jobs k (JobStmt.lease' i e n) k = some row' := hrow'
    rw [modify_self, Option.map_eq_some_iff] at hrow'
    obtain ⟨row, hrow, rfl⟩ := hrow'
    exact Or.inl ⟨rfl, ⟨row, hrow⟩, rfl⟩
  · exact Or.inr ⟨hk, by simpa [hk] using hrow'⟩

theorem Leased.now (h : Leased advisoryHold j i w w') : w'.now = w.now := by
  obtain ⟨e, n, t, w₀, -, -, -, -, -, rfl⟩ := h
  rfl

/-- An active job after the lease is the one leased, or was active before. -/
theorem Leased.active (h : Leased advisoryHold j i w w') {i' k : Nat} {row' : Job}
    (hrow' : w'.jobs k = some row') (hactive : row'.activeFor i' w'.now = true) :
    (k = j ∧ i' = i) ∨ (k ≠ j ∧ w.jobs k = some row' ∧ row'.activeFor i' w.now = true) := by
  obtain ⟨hk, -, hworker⟩ | ⟨hk, hrow⟩ := h.jobs hrow'
  · simp only [Job.activeFor, Bool.and_eq_true, decide_eq_true_eq] at hactive
    exact Or.inl ⟨hk, Option.some.inj (hactive.1.symm.trans hworker)⟩
  · exact Or.inr ⟨hk, hrow, h.now ▸ hactive⟩

theorem Leased.oneActive (h : Leased advisoryHold j i w w') (hone : OneActive w) :
    OneActive w' := by
  intro i' k k' row row' hrow hrow' hactive hactive'
  obtain ⟨hk, hi⟩ | ⟨hk, hold, hactive₀⟩ := h.active hrow hactive
  · obtain ⟨hk', -⟩ | ⟨-, hold', hactive₀'⟩ := h.active hrow' hactive'
    · rw [hk, hk']
    · rw [hi, h.idle hold'] at hactive₀'
      exact absurd hactive₀' (by simp)
  · obtain ⟨-, hi⟩ | ⟨-, hold', hactive₀'⟩ := h.active hrow' hactive'
    · rw [hi, h.idle hold] at hactive₀
      exact absurd hactive₀ (by simp)
    · exact hone i' k k' row row' hold hold' hactive₀ hactive₀'

end Lease

theorem activePlan_valid (cfg : Config) : (activePlan cfg).Valid := by
  refine systemPlan_valid (fun q g h => h) ?_ advisoryHold_trans ?_
  · intro l L g g' h
    have hgrown := (Conducted.grows (fun a g t L w
      (hcom : a.req.Ends t ∧ t.Effect cfg advisoryHold a.pid L g.world w) => hcom.2.grows) h.conducted)
    obtain ⟨hone, hnumbered⟩ : OneActive g.world ∧ JobsNumbered g.world := h.inv
    obtain hcalm | ⟨i, j, -, hleased⟩ := activePlan_step h
    · exact ⟨hone.calm hcalm, hnumbered.calm hcalm hgrown.nextId⟩
    · refine ⟨hleased.oneActive hone, fun k row' hrow' => ?_⟩
      refine Nat.lt_of_lt_of_le ?_ hgrown.nextId
      obtain ⟨-, ⟨row, hrow⟩, -⟩ | ⟨-, hrow⟩ := hleased.jobs hrow'
      · exact hnumbered k row hrow
      · exact hnumbered k row' hrow
  · intro l L g g' h k hk
    obtain ⟨-, hnumbered⟩ : OneActive g.world ∧ JobsNumbered g.world := h.inv
    obtain hcalm | ⟨i, j, hlock, hleased⟩ := activePlan_step h
    · exact hcalm.hold hnumbered k
    · cases k with
      | advisory i' =>
          intro k row' hrow' hactive
          obtain ⟨-, hi⟩ | ⟨-, hrow, hactive₀⟩ := hleased.active hrow' hactive
          · exact absurd (hi ▸ hlock) hk
          · exact ⟨hnumbered k row' hrow, row', hrow, hactive₀⟩
      | _ => trivial

/-- **Each worker has at most one active job**, in every state of a run in which no
whole-row write makes a job active for a worker it was not active for. -/
theorem one_active_job {cfg : Config} {w : World} {cs : List Pick} {c : State Unit}
    (hnumbered : JobsNumbered w) (hone : OneActive w)
    (hrun : (system cfg noNotes).exec noRevival cs (Sys.start w) = some c) :
    OneActive c.glob.world :=
  ((activePlan_valid cfg).exec_inv ⟨hone, hnumbered⟩ hrun).1

/-- A published bounty with two open jobs. -/
def twoJobsWorld : World :=
  { leaseWorld with jobs := Function.update leaseWorld.jobs 2 (some (.fresh 1 0 0 0)) }

theorem twoJobsWorld_jobs : AllRows (fun k row => k < 5 ∧ row = .fresh 1 0 0 0) twoJobsWorld.jobs :=
  AllRows.update (AllRows.update (fun _ _ h => absurd h (by simp [World.empty]))
    ⟨by decide, rfl⟩) ⟨by decide, rfl⟩

theorem twoJobsWorld_numbered : JobsNumbered twoJobsWorld :=
  fun k row hrow => (twoJobsWorld_jobs k row hrow).1

theorem twoJobsWorld_oneActive : OneActive twoJobsWorld := by
  intro i k k' row row' hrow hrow' hactive hactive'
  rw [(twoJobsWorld_jobs k row hrow).2] at hactive
  exact absurd hactive (by simp [Job.activeFor, Job.fresh])

/-- Worker 1 leases the first job. -/
def oneClaim : List Pick := .spawn (.claim 1 1) :: List.replicate 13 (.run 0)

theorem one_active_job_claim :
    ∃ c row, (system Config.default noNotes).exec noRevival oneClaim (Sys.start twoJobsWorld) =
        some c ∧
      c.glob.world.jobs 1 = some row ∧ row.activeFor 1 c.glob.world.now = true ∧
      OneActive c.glob.world := by
  obtain ⟨c, hrun, h⟩ := runs Config.default noNotes noRevival oneClaim twoJobsWorld
    (fun c => (c.glob.world.jobs 1).any fun row : Job => row.activeFor 1 c.glob.world.now)
    (by decide)
  obtain ⟨row, hrow, hactive⟩ := (Option.any_eq_true _ _).mp h
  exact ⟨c, row, hrun, hrow, hactive,
    one_active_job twoJobsWorld_numbered twoJobsWorld_oneActive hrun⟩

/-- Worker 1 leases a job and starts to submit; before the job row is written the
lease runs out, the reaper opens the job again and the worker leases the other
one. -/
def lateSubmitTwoJobs : List Pick :=
  .spawn (.claim 1 1) :: @List.replicate Pick 13 (.run 0) ++
    .spawn (.submit 1 1 none ⟨⟨1, 0, .absent, 0⟩, [], none⟩) :: @List.replicate Pick 10 (.run 1) ++
    .env (.tick 1200001) :: .spawn .reapLeases :: @List.replicate Pick 2 (.run 2) ++
    .spawn (.claim 1 2) :: @List.replicate Pick 13 (.run 3) ++ @List.replicate Pick 3 (.run 1)

/-- The late submit gives the worker a second active job. -/
theorem late_submit_second_active_job :
    JobsNumbered twoJobsWorld ∧ OneActive twoJobsWorld ∧ ∃ c,
      (system Config.default noNotes).exec leaseRequests lateSubmitTwoJobs
        (Sys.start twoJobsWorld) = some c ∧ ¬ OneActive c.glob.world := by
  refine ⟨twoJobsWorld_numbered, twoJobsWorld_oneActive, ?_⟩
  obtain ⟨c, hrun, h⟩ := runs Config.default noNotes leaseRequests lateSubmitTwoJobs twoJobsWorld
    (fun c => ((c.glob.world.jobs 1).any fun row : Job => row.activeFor 1 c.glob.world.now) &&
      (c.glob.world.jobs 2).any fun row : Job => row.activeFor 1 c.glob.world.now)
    (by decide)
  simp only [Bool.and_eq_true] at h
  obtain ⟨row, hrow, hactive⟩ := (Option.any_eq_true _ _).mp h.1
  obtain ⟨row', hrow', hactive'⟩ := (Option.any_eq_true _ _).mp h.2
  exact ⟨c, hrun, fun hone => absurd (hone 1 1 2 row row' hrow hrow' hactive hactive') (by decide)⟩

end OpenUnion
