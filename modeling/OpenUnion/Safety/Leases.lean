import OpenUnion.Safety.Basic

/-!
# Leases

Workers lease jobs with a guarded update, but a submit and a verdict rewrite the
whole job row from a copy they have read before.  Such a write can come late: the
lease it was checked against has expired, the job has been leased to somebody
else, and the stale copy is written over the new lease.

* `lease_undisturbed`: as long as every submit writes the job row while the row
  still names its worker, no step of another worker changes the job under a
  running lease.
* `stale_submit_tramples_lease`: a run in which a late submit does.
-/

namespace OpenUnion

open Interleave

/-- The requests that lease, release, submit and verify jobs. -/
def Request.isLeaseRequest : Request → Bool
  | .claim _ _ | .release _ _ _ | .reapLeases | .submit _ _ _ _ => true
  | .verifierClaim _ | .verifierVerdict _ | .verificationRunner => true
  | _ => false

/-- The worker a request comes from. -/
def Request.worker? : Request → Option Nat
  | .claim i _ | .release i _ _ | .submit i _ _ _ | .payoutAddress i _ => some i
  | _ => none

/-- The request a step belongs to. -/
def requestOf : Step → Option Request
  | .event a _ | .fault a | .crash a | .rollback a | .quiet a => some a.req
  | .spawn _ | .env _ => none

/-- Worker `i` holds a lease on the job that has not expired at `now`. -/
def Job.leasedTo (i now : Nat) (j : Job) : Bool :=
  decide (j.leaseWorkerId = some i) && j.leaseExpiresAt.any fun t => decide (now ≤ t)

/-- What a lease protects. -/
def Job.leaseColumns (j : Job) : JobStatus × Option Nat × Option Nat × Option Nat × Option Nat :=
  (j.status, j.leaseWorkerId, j.leaseNonce, j.leaseExpiresAt, j.currentSubmissionId)

/-- An open job is nobody's. -/
def OpenUnleased : (Nat → Option Job) → Prop :=
  AllRows fun _ row => row.status = .opened → row.leaseWorkerId = none

/-- Only requests about leases are started. -/
def leaseRequests : Step → Glob World Unit → Bool
  | .spawn q, _ => q.isLeaseRequest
  | _, _ => true

/-- Besides, a submit writes the job row only while the row still names its worker. -/
def submitsStillOwn : Step → Glob World Unit → Bool
  | .spawn q, _ => q.isLeaseRequest
  | .event ⟨_, .submit i _ _ _⟩ (.stmt (.job (.update j _)) _), g =>
      (g.world.jobs j).all fun row => row.leaseWorkerId = some i
  | _, _ => true

theorem RoundDoes.job {s : JobStmt} (h : RoundDoes verificationTopics (.job s)) :
    ∃ j new old, s = .update j new ∧ new.Rewrites old := by
  obtain ⟨key, htopic, hhandler | hfinal⟩ := h
  · cases key with
    | verification i n =>
        obtain hclaim | ⟨body, -, -, hverdict⟩ := hhandler
        · exact hclaim.elim
        · exact hverdict.job
    | _ => simp [OutboxKey.topic, verificationTopics] at htopic
  · exact hfinal.elim

/-- What a request about leases does to `jobs` outside transactions; the rows a
submit writes are those of its worker. -/
theorem Request.executes_job {q : Request} {s : JobStmt} (hq : q.isLeaseRequest = true)
    (h : q.Executes (.job s)) :
    (∃ i j n, q = .release i j n ∧ s = .release j i n) ∨ (∃ t, q = .reapLeases ∧ s = .reap t) ∨
      ∃ j new old, s = .update j new ∧ new.Rewrites old ∧
        ∀ i, q.worker? = some i → ∃ key body, q = .submit i j key body := by
  cases q with
  | claim i j => exact h.elim
  | release i j n =>
      obtain h | h := h
      · exact h.elim
      · exact Or.inl ⟨i, j, n, rfl, Stmt.job.inj h⟩
  | reapLeases =>
      obtain h | ⟨t, h⟩ := h
      · exact h.elim
      · exact Or.inr (Or.inl ⟨t, rfl, Stmt.job.inj h⟩)
  | submit i j key body =>
      obtain ⟨new, old, rfl, hrewrites, -⟩ := SubmitDoes.job h
      refine Or.inr (Or.inr ⟨j, new, old, rfl, hrewrites, ?_⟩)
      rintro i' hi'
      obtain rfl : i = i' := Option.some.inj hi'
      exact ⟨key, body, rfl⟩
  | verifierClaim body => exact h.elim
  | verifierVerdict body =>
      obtain ⟨j, new, old, rfl, hrewrites⟩ := VerdictDoes.job h
      exact Or.inr (Or.inr ⟨j, new, old, rfl, hrewrites, by simp [Request.worker?]⟩)
  | verificationRunner =>
      obtain h | h := h
      · exact h.elim
      · obtain ⟨j, new, old, rfl, hrewrites⟩ := h.job
        exact Or.inr (Or.inr ⟨j, new, old, rfl, hrewrites, by simp [Request.worker?]⟩)
  | _ => simp [Request.isLeaseRequest] at hq

/-- The transactions of requests about leases. -/
theorem Request.ends_lease {q : Request} {t : Tag} (hq : q.isLeaseRequest = true)
    (h : q.Ends t) : (∃ i j, q = .claim i j ∧ t = .leaseJob j i) ∨ t = .claimOutboxBatch := by
  cases q with
  | claim i j => exact Or.inl ⟨i, j, rfl, h⟩
  | verificationRunner => exact Or.inr h
  | release _ _ _ | reapLeases | submit _ _ _ _ | verifierClaim _ | verifierVerdict _ => exact h.elim
  | _ => simp [Request.isLeaseRequest] at hq

section Steps

variable {jobs jobs' : Nat → Option Job} {w : World}

/-- Every write of `jobs` by a request about leases leaves open jobs to nobody. -/
theorem OpenUnleased.write {q : Request} {s : JobStmt} (h : OpenUnleased w.jobs)
    (hq : q.isLeaseRequest = true) (hs : q.Executes (.job s)) :
    OpenUnleased (s.write w w.jobs) := by
  obtain ⟨i, j, n, -, rfl⟩ | ⟨t, -, rfl⟩ | ⟨j, new, old, rfl, hrewrites, -⟩ :=
    Request.executes_job hq hs
  · simp only [JobStmt.write]
    split_ifs
    · exact AllRows.modify h fun _ _ _ _ => rfl
    · exact h
  · exact AllRows.modifyAll h fun _ _ _ _ _ _ => rfl
  · exact AllRows.modify h fun _ _ _ hopened => absurd hopened hrewrites.status

/-- A lease is taken on an open job, or on one whose lease is over. -/
theorem not_leasable_of_leasedTo {row : Job} {B t now : Nat} (h : OpenUnleased jobs) {k : Nat}
    (hrow : jobs k = some row) (hleased : row.leasedTo B now = true) (ht : t ≤ now) :
    JobStmt.leasable t row = false := by
  simp only [Job.leasedTo, Bool.and_eq_true, decide_eq_true_eq] at hleased
  obtain ⟨hworker, hany⟩ := hleased
  obtain ⟨e, hexpires, hnow⟩ := (Option.any_eq_true _ _).mp hany
  rw [decide_eq_true_eq] at hnow
  cases hstatus : row.status with
  | opened =>
      rw [h k row hrow hstatus] at hworker
      exact absurd hworker (by simp)
  | claimed =>
      simp only [JobStmt.leasable, hstatus, hexpires, Option.any_some, decide_eq_false_iff_not]
      omega
  | submitted | verifying | done | expired => simp [JobStmt.leasable, hstatus]

end Steps

/-- The plan: open jobs are nobody's. -/
def leasePlan (cfg : Config) : Plan (system cfg noNotes) :=
  systemPlan cfg noNotes submitsStillOwn (fun q => q.isLeaseRequest = true)
    (fun g => OpenUnleased g.world.jobs) (fun _ _ _ => True) fun _ _ _ => True

theorem leasePlan_valid (cfg : Config) : (leasePlan cfg).Valid := by
  refine systemPlan_valid (fun q g h => h) ?_ (fun _ _ _ _ _ _ => trivial)
    (fun _ _ _ _ _ _ _ => trivial)
  rintro _ L g g' ⟨hinv, -, hstep⟩
  have hinv : OpenUnleased g.world.jobs := hinv
  cases hstep with
  | stmt a s busy _ hasked _ hexec =>
      change OpenUnleased (s.apply busy g.world).jobs
      rw [Stmt.apply_jobs]
      split
      · exact hinv.write hasked hexec.1
      · exact hinv
  | inner a s busy v _ _ _ =>
      change OpenUnleased (s.effect busy (v g.world) g.world).jobs
      rw [Stmt.effect_jobs]
      exact hinv
  | commit a t L v _ hasked hcom =>
      obtain ⟨hends, heffect⟩ := hcom
      change OpenUnleased (v g.world).jobs
      obtain ⟨i, j, -, rfl⟩ | rfl := Request.ends_lease hasked hends
      · obtain hsame | ⟨-, e, n, t, w₀, -, -, -, -, -, hlease⟩ := heffect
        · rwa [hsame]
        · rw [hlease]
          exact AllRows.modify hinv fun _ _ _ h => absurd h (by simp [JobStmt.lease'])
      · obtain ⟨outbox, -, hbatch⟩ := heffect
        rwa [hbatch]
  | reply a x _ _ => exact hinv
  | env e _ => cases e <;> exact hinv

/-- A step of another worker leaves a job under a running lease as it is. -/
theorem leaseColumns_kept {cfg : Config} {L : List Lock} {g g' : Glob World Unit}
    {a : Actor Request} {x : Happening} {A B j : Nat} {row : Job}
    (h : (leasePlan cfg).Move (.event a x) L g g') (hA : a.req.worker? = some A)
    (hrow : g.world.jobs j = some row) (hleased : row.leasedTo B g.world.now = true) (hne : A ≠ B) :
    ∃ row', g'.world.jobs j = some row' ∧ row'.leaseColumns = row.leaseColumns := by
  obtain ⟨hinv, hok, hstep⟩ := h
  have hinv : OpenUnleased g.world.jobs := hinv
  have hworker : row.leaseWorkerId = some B := by
    simp only [Job.leasedTo, Bool.and_eq_true, decide_eq_true_eq] at hleased
    exact hleased.1
  have hsame : g'.world.jobs = g.world.jobs →
      ∃ row', g'.world.jobs j = some row' ∧ row'.leaseColumns = row.leaseColumns :=
    fun h => ⟨row, by rw [h, hrow], rfl⟩
  cases hstep with
  | stmt _ s busy _ hasked _ hexec =>
      have hjobs := s.apply_jobs busy g.world
      cases s with
      | job s =>
          obtain ⟨i, k, n, hq, rfl⟩ | ⟨t, hq, rfl⟩ | ⟨k, new, old, rfl, -, hsubmit⟩ :=
            Request.executes_job hasked hexec.1
          · -- a release matches the worker's own lease only
            rw [hq] at hA
            obtain rfl : i = A := Option.some.inj hA
            by_cases hk : j = k
            · subst hk
              have hmismatch : JobStmt.releasable i n row = false := by
                simp [JobStmt.releasable, hworker, Ne.symm hne]
              refine hsame (hjobs.trans ?_)
              simp [JobStmt.write, hrow, hmismatch]
            · refine ⟨row, hjobs ▸ ?_, rfl⟩
              simp only [JobStmt.write]
              split_ifs
              · simpa [hk] using hrow
              · exact hrow
          · rw [hq] at hA
            exact absurd hA (by simp [Request.worker?])
          · -- a submit finds its worker on the row, which is then not this one
            obtain ⟨key, body, hq⟩ := hsubmit A hA
            obtain ⟨pid, req⟩ := a
            obtain rfl : req = .submit A k key body := hq
            have hok : (g.world.jobs k).all (fun row => row.leaseWorkerId = some A) = true := hok
            have hk : j ≠ k := by
              rintro rfl
              rw [hrow, Option.all_some, decide_eq_true_eq, hworker] at hok
              exact hne (Option.some.inj hok).symm
            exact ⟨row, hjobs ▸ by simpa [JobStmt.write, hk] using hrow, rfl⟩
      | _ => exact hsame hjobs
  | inner _ s busy v _ _ _ => exact hsame (Stmt.effect_jobs s busy _ _)
  | commit _ t L v _ hasked hcom =>
      obtain ⟨hends, heffect⟩ := hcom
      obtain ⟨i, k, -, rfl⟩ | rfl := Request.ends_lease hasked hends
      · obtain h | ⟨-, e, n, t, w₀, ht, hgrown, -, -, hleasable, hlease⟩ := heffect
        · exact hsame (congrArg World.jobs h)
        · by_cases hk : j = k
          · subst hk
            rw [hrow, Option.any_some, not_leasable_of_leasedTo hinv hrow hleased
              (Nat.le_trans ht hgrown.now)] at hleasable
            exact absurd hleasable (by simp)
          · refine ⟨row, ?_, rfl⟩
            change (v g.world).jobs j = some row
            rw [hlease]
            simpa [hk] using hrow
      · obtain ⟨outbox, -, hbatch⟩ := heffect
        refine hsame ?_
        change (v g.world).jobs = g.world.jobs
        rw [hbatch]
  | reply _ x _ _ => exact hsame rfl

/-- **While worker `B` holds a lease, no step of a request of another worker changes
the job**, in any run in which submits write the job row only while it still
names their worker. -/
theorem lease_undisturbed {cfg : Config} {w : World} {cs : List Pick} {c c' : State Unit}
    {ch : Pick} {l : Step} {A B j : Nat} {row : Job} (hopen : OpenUnleased w.jobs)
    (hrun : (system cfg noNotes).exec submitsStillOwn cs (Sys.start w) = some c)
    (hmove : (system cfg noNotes).move ch c = some (l, c'))
    (hok : submitsStillOwn l c.glob = true) (hA : (requestOf l).bind Request.worker? = some A)
    (hrow : c.glob.world.jobs j = some row) (hleased : row.leasedTo B c.glob.world.now = true)
    (hne : A ≠ B) :
    ∃ row', c'.glob.world.jobs j = some row' ∧ row'.leaseColumns = row.leaseColumns := by
  obtain ⟨hsame, -⟩ | ⟨a, x, L, rfl, h⟩ | ⟨e, rfl, -⟩ :=
    (leasePlan_valid cfg).exec_step hopen hrun hmove hok
  · exact ⟨row, by rw [hsame, hrow], rfl⟩
  · exact leaseColumns_kept h hA hrow hleased hne
  · exact absurd hA (by simp [requestOf])

/-- A published bounty with one open job. -/
def leaseWorld : World :=
  { World.empty with
    nextId := 5
    bounties := Function.update World.empty.bounties 1 (some ⟨1, .published, [], [0], 100, 0, 0, some 0⟩)
    jobs := Function.update World.empty.jobs 1 (some (.fresh 1 0 0 0)) }

theorem leaseWorld_open : OpenUnleased leaseWorld.jobs :=
  AllRows.update (fun _ _ h => absurd h (by simp [World.empty])) fun _ => rfl

/-- Worker 2 leases the job; then worker 1 asks to release it. -/
def foreignRelease : List Pick :=
  .spawn (.claim 2 1) :: @List.replicate Pick 13 (.run 0) ++ ([.spawn (.release 1 1 0)] : List Pick)

theorem lease_undisturbed_release :
    ∃ c l c' row row',
      (system Config.default noNotes).exec submitsStillOwn foreignRelease (Sys.start leaseWorld) =
        some c ∧
      (system Config.default noNotes).move (.run 1) c = some (l, c') ∧
      c.glob.world.jobs 1 = some row ∧ row.leasedTo 2 c.glob.world.now = true ∧
      c'.glob.world.jobs 1 = some row' ∧ row'.leaseColumns = row.leaseColumns := by
  obtain ⟨c, l, c', hrun, hmove, h⟩ := runs_and_moves Config.default noNotes submitsStillOwn
    foreignRelease leaseWorld (.run 1)
    (fun l c _ => submitsStillOwn l c.glob &&
      decide ((requestOf l).bind Request.worker? = some 1) &&
      (c.glob.world.jobs 1).any (Job.leasedTo 2 c.glob.world.now)) (by decide)
  simp only [Bool.and_eq_true, decide_eq_true_eq] at h
  obtain ⟨⟨hok, hA⟩, hany⟩ := h
  obtain ⟨row, hrow, hleased⟩ := (Option.any_eq_true _ _).mp hany
  obtain ⟨row', hrow', hsame⟩ :=
    lease_undisturbed leaseWorld_open hrun hmove hok hA hrow hleased (by decide)
  exact ⟨c, l, c', row, row', hrun, hmove, hrow, hleased, hrow', hsame⟩

/-- Worker 1 leases the job and starts to submit; before it writes the job row its
lease runs out and worker 2 leases the job. -/
def lateSubmit : List Pick :=
  .spawn (.claim 1 1) :: @List.replicate Pick 13 (.run 0) ++
    .spawn (.submit 1 1 none ⟨⟨1, 0, .absent, 0⟩, [], none⟩) :: @List.replicate Pick 10 (.run 1) ++
    .env (.tick 1200001) :: .spawn (.claim 2 1) :: @List.replicate Pick 13 (.run 2) ++
    @List.replicate Pick 2 (.run 1)

/-- The late submit writes its stale copy over the new lease. -/
theorem stale_submit_tramples_lease :
    OpenUnleased leaseWorld.jobs ∧ ∃ c l c' row row',
      (system Config.default noNotes).exec leaseRequests lateSubmit (Sys.start leaseWorld) =
        some c ∧
      (system Config.default noNotes).move (.run 1) c = some (l, c') ∧
      leaseRequests l c.glob = true ∧ (requestOf l).bind Request.worker? = some 1 ∧
      c.glob.world.jobs 1 = some row ∧ row.leasedTo 2 c.glob.world.now = true ∧
      c'.glob.world.jobs 1 = some row' ∧ row'.leaseColumns ≠ row.leaseColumns := by
  refine ⟨leaseWorld_open, ?_⟩
  obtain ⟨c, l, c', hrun, hmove, h⟩ := runs_and_moves Config.default noNotes leaseRequests
    lateSubmit leaseWorld (.run 1)
    (fun l c c' => leaseRequests l c.glob &&
      decide ((requestOf l).bind Request.worker? = some 1) &&
      (c.glob.world.jobs 1).any fun row : Job => row.leasedTo 2 c.glob.world.now &&
        (c'.glob.world.jobs 1).any fun row' : Job => !decide (row'.leaseColumns = row.leaseColumns))
    (by decide)
  simp only [Bool.and_eq_true, decide_eq_true_eq] at h
  obtain ⟨⟨hok, hA⟩, hany⟩ := h
  obtain ⟨row, hrow, hrest⟩ := (Option.any_eq_true _ _).mp hany
  simp only [Bool.and_eq_true] at hrest
  obtain ⟨row', hrow', hdiff⟩ := (Option.any_eq_true _ _).mp hrest.2
  exact ⟨c, l, c', row, row', hrun, hmove, hok, hA, hrow, hrest.1, hrow', by simpa using hdiff⟩

end OpenUnion
