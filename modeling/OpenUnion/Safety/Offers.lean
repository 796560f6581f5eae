import OpenUnion.Code.Offers
import OpenUnion.Interleave.Solo
import OpenUnion.Safety.ActiveJobs

/-!
# Offers and claims

A worker asks `GET /api/jobs/next` for a job and claims it with `POST
/api/jobs/:jobId/claim`.  Both ask whether the worker has an active job, and both decide
whether the job can be had, but each with queries of its own.

* `active_checks_agree`: `getActiveJobForWorker`, and with it both routes, agrees with the
  check of `leaseJob` exactly when every job the worker has let run out stands beside an
  active one.
* `overdue_lease_refused`: a run after which a worker with one expired lease is refused,
  although `leaseJob` would serve it.
* `offer_and_claim_agree`: the claim route and `findClaimableJob` agree on a job exactly when
  a job whose row can be claimed also passes the checks only the offer makes.
* `paused_bounty_claimed`: a job of a paused bounty is not offered, and can be claimed.
-/

namespace OpenUnion

open Interleave

/-- A claimed job of the worker whose lease has run out. -/
def Job.overdueFor (workerId now : Nat) (job : Job) : Bool :=
  decide (job.leaseWorkerId = some workerId ∧ job.status = .claimed) &&
    job.leaseExpiresAt.any fun t => decide (t < now)

/-- The check of `leaseJob`: the worker has an active job. -/
def World.engaged (w : World) (workerId now : Nat) : Prop :=
  Query.eval (.hasActiveLease workerId now) w = true

/-- A lease of the worker that has run out stands beside an active job of the worker. -/
def World.OverdueCovered (w : World) (workerId now : Nat) : Prop :=
  ∀ row ∈ w.jobRows, row.2.overdueFor workerId now = true →
    ∃ row' ∈ w.jobRows, row'.2.activeFor workerId now = true

/-- `POST /api/jobs/:jobId/claim` on its own succeeds. -/
def World.claims (w : World) (cfg : Config) (workerId jobId : Nat) : Bool :=
  match ((claimRoute cfg workerId jobId).solo engine none w).1 with
  | .ok (.ok _) => true
  | _ => false

/-- `POST /api/jobs/:jobId/claim` on its own is refused as `already_claimed`. -/
def World.refuses (w : World) (cfg : Config) (workerId jobId : Nat) : Bool :=
  match ((claimRoute cfg workerId jobId).solo engine none w).1 with
  | .ok (.error _ code _) => decide (code = "already_claimed")
  | _ => false

/-- `findClaimableJob(worker, {requireJobId: jobId})` returns the job. -/
def Board.offers (b : Board) (workerId jobId : Nat) : Bool :=
  (b.findClaimableJob workerId (.requireJob jobId)).any fun c => decide (c.jobId = jobId)

section Active

variable {cfg : Config} {w : World} {i j now : Nat} {job : Job}

theorem mem_jobRows {row : Nat × Job} :
    row ∈ w.jobRows ↔ row.1 ∈ w.ids ∧ w.jobs row.1 = some row.2 := by
  obtain ⟨j, job⟩ := row
  simp [World.jobRows]

/-- `getActiveJobForWorker` finds a job when there is one in an active status. -/
theorem getActiveJobForWorker_isSome :
    (getActiveJobForWorker w i).isSome = true ↔ ∃ row ∈ w.jobRows, row.2.activeStatus i = true := by
  rw [getActiveJobForWorker, List.isSome_head?]
  constructor
  · intro hne
    obtain ⟨row, hmem⟩ := List.exists_mem_of_ne_nil _ hne
    exact ⟨row, List.mem_filter.mp ((List.mem_insertionSort _).mp hmem)⟩
  · intro h
    obtain ⟨row, hrow⟩ := h
    exact List.ne_nil_of_mem ((List.mem_insertionSort _).mpr (List.mem_filter.mpr hrow))

theorem engaged_iff : w.engaged i now ↔ ∃ row ∈ w.jobRows, row.2.activeFor i now = true := by
  simp only [World.engaged, Query.eval, List.any_eq_true, Option.any_eq_true]
  constructor
  · intro h
    obtain ⟨j, hj, job, hjob, hactive⟩ := h
    exact ⟨(j, job), mem_jobRows.mpr ⟨hj, hjob⟩, hactive⟩
  · intro h
    obtain ⟨row, hrow, hactive⟩ := h
    obtain ⟨hj, hjob⟩ := mem_jobRows.mp hrow
    exact ⟨row.1, hj, row.2, hjob, hactive⟩

theorem hasActiveJob_iff :
    Query.eval (.hasActiveJob i) w = true ↔ (getActiveJobForWorker w i).isSome = true := by
  rw [getActiveJobForWorker_isSome]
  simp only [Query.eval, List.any_eq_true, Option.any_eq_true]
  constructor
  · intro h
    obtain ⟨j, hj, job, hjob, hactive⟩ := h
    exact ⟨(j, job), mem_jobRows.mpr ⟨hj, hjob⟩, by simpa [Job.activeStatus] using hactive⟩
  · intro h
    obtain ⟨row, hrow, hactive⟩ := h
    obtain ⟨hj, hjob⟩ := mem_jobRows.mp hrow
    exact ⟨row.1, hj, row.2, hjob, by simpa [Job.activeStatus] using hactive⟩

/-- A job in an active status is active, or its lease has run out. -/
theorem activeStatus_iff :
    job.activeStatus i = true ↔ job.activeFor i now = true ∨ job.overdueFor i now = true := by
  simp only [Job.activeStatus, Job.activeFor, Job.overdueFor, Bool.and_eq_true, decide_eq_true_eq]
  cases hstatus : job.status with
  | claimed =>
      cases job.leaseExpiresAt with
      | none => simp
      | some t =>
          rcases Nat.lt_or_ge t now with hlt | hge
          · simp [hlt]
          · simp [hge]
  | opened | submitted | verifying | done | expired => simp

/-- The two notions of an active job agree when nothing overdue stands alone. -/
theorem agree_iff :
    ((getActiveJobForWorker w i).isSome = true ↔ w.engaged i now) ↔ w.OverdueCovered i now := by
  rw [getActiveJobForWorker_isSome, engaged_iff]
  constructor
  · intro h row hrow hoverdue
    exact h.mp ⟨row, hrow, activeStatus_iff.mpr (Or.inr hoverdue)⟩
  · intro h
    constructor
    · intro hactive
      obtain ⟨row, hrow, hstatus⟩ := hactive
      have hcases : row.2.activeFor i now = true ∨ row.2.overdueFor i now = true :=
        activeStatus_iff.mp hstatus
      rcases hcases with hactive | hoverdue
      · exact ⟨row, hrow, hactive⟩
      · exact h row hrow hoverdue
    · intro hactive
      obtain ⟨row, hrow, hactive⟩ := hactive
      exact ⟨row, hrow, activeStatus_iff.mpr (Or.inl hactive)⟩

/-- The state in which `leaseJob` looks for an active job, its nonce drawn. -/
def World.drawn (w : World) : World := { w with nextId := w.nextId + 1 }

/-- What follows `leaseJob` in the claim route. -/
def answerLease (bountyId : Nat) : Option Job → Code (Http Job)
  | none => return .error 409 "not_available" "Job could not be leased"
  | some lease => do
      let _ ← getBountyOrThrow bountyId
      return .ok lease

/-- What `leaseJob` answers on its own. -/
def World.leased (w : World) (jobId workerId ttlMs : Nat) : Option Job :=
  if Query.eval (.hasActiveLease workerId w.now) w.drawn = true then none
  else ((w.jobs jobId).filter (JobStmt.leasable w.now)).map
    (JobStmt.lease' workerId (w.now + ttlMs) w.nextId)

/-- What the claim route answers to the lease. -/
def World.leaseAnswer (w : World) (bountyId : Nat) : Option Job → Except Err (Http Job)
  | none => .ok (.error 409 "not_available" "Job could not be leased")
  | some lease =>
      if (w.bounties bountyId).isSome then .ok (.ok lease) else .error .bountyNotFound

/-- What the claim route answers to a worker without an active job. -/
def World.claimAnswer (w : World) (cfg : Config) (workerId jobId : Nat) :
    Except Err (Http Job) :=
  match w.jobs jobId with
  | none => .ok (.error 404 "not_found" "Job not found")
  | some job =>
      if job.isStale w.now then
        .ok (.error 409 "stale_job" "Job is stale (freshness SLA exceeded)")
      else if job.status ≠ .opened ∧ isLeaseExpired job.leaseExpiresAt w.now = false then
        .ok (.error 409 "not_available" "Job already claimed")
      else w.leaseAnswer job.bountyId (w.leased jobId workerId cfg.leaseTtlMs)

/-- `leaseJob` inside the claim route. -/
theorem leaseJob_answer {ttlMs bountyId : Nat} :
    ∃ w', w'.bounties = w.bounties ∧
      ((leaseJob j i ttlMs).bind (answerLease bountyId)).solo engine none w =
        (answerLease bountyId (w.leased j i ttlMs)).solo engine none w' := by
  by_cases hlease : Query.eval (.hasActiveLease i w.now) w.drawn = true
  · refine ⟨w.drawn, rfl, ?_⟩
    change ((Prog.seal (fun _ => Tag.leaseJob j i)
      (if Query.eval (.hasActiveLease i w.now) w.drawn = true then
        (.ret none : Code (Option Job))
      else run (.job (.lease j i (w.now + ttlMs) w.nextId w.now)))).bind
        (answerLease bountyId)).solo engine (some id) w.drawn = _
    rw [World.leased, if_pos hlease, if_pos hlease]
    rfl
  · refine ⟨{ w.drawn with
      jobs := (JobStmt.lease j i (w.now + ttlMs) w.nextId w.now).write w.drawn w.jobs }, rfl, ?_⟩
    change ((Prog.seal (fun _ => Tag.leaseJob j i)
      (if Query.eval (.hasActiveLease i w.now) w.drawn = true then
        (.ret none : Code (Option Job))
      else run (.job (.lease j i (w.now + ttlMs) w.nextId w.now)))).bind
        (answerLease bountyId)).solo engine (some id) w.drawn = _
    rw [World.leased, if_neg hlease, if_neg hlease]
    rfl

theorem leaseAnswer_congr {w' : World} {bountyId : Nat} {o : Option Job}
    (hbounties : w'.bounties = w.bounties) : w'.leaseAnswer bountyId o = w.leaseAnswer bountyId o := by
  cases o <;> simp [World.leaseAnswer, hbounties]

/-- What follows the read of a bounty. -/
def bountyOrThrow : Option Bounty → Code Bounty
  | some bounty => .ret bounty
  | none => .fail .bountyNotFound

/-- The lease is answered once the bounty of the job has been read. -/
theorem answerLease_answer {bountyId : Nat} {o : Option Job} :
    ((answerLease bountyId o).solo engine none w).1 = w.leaseAnswer bountyId o := by
  cases o with
  | none => rfl
  | some lease =>
      change (Prog.solo engine (Prog.bind (bountyOrThrow (w.bounties bountyId))
        fun _ => (.ret (Http.ok lease) : Code (Http Job))) none w).1 =
          if (w.bounties bountyId).isSome then .ok (.ok lease) else .error .bountyNotFound
      cases w.bounties bountyId with
      | none => rfl
      | some bounty => rfl

/-- The claim route on its own. -/
theorem claimRoute_answer :
    ((claimRoute cfg i j).solo engine none w).1 =
      if Query.eval (.hasActiveJob i) w = true then
        .ok (.error 409 "already_claimed" "Worker already has active job")
      else w.claimAnswer cfg i j := by
  change (Prog.solo engine
    (if Query.eval (.hasActiveJob i) w = true then _ else _ : Code (Http Job)) none w).1 = _
  split_ifs with hbusy
  · rfl
  · change (Prog.solo engine
      (match w.jobs j with | none => _ | some job => _ : Code (Http Job)) none w).1 = _
    rw [World.claimAnswer]
    cases w.jobs j with
    | none => rfl
    | some job =>
        change (Prog.solo engine
          (if job.isStale w.now = true then _
            else if job.status ≠ .opened ∧ isLeaseExpired job.leaseExpiresAt w.now = false then _
            else _ : Code (Http Job)) none w).1 =
          if job.isStale w.now = true then _
          else if job.status ≠ .opened ∧ isLeaseExpired job.leaseExpiresAt w.now = false then _
          else _
        split_ifs with hstale htaken
        · rfl
        · rfl
        · have hlease : ∃ w', w'.bounties = w.bounties ∧
              ((leaseJob j i cfg.leaseTtlMs).bind (answerLease job.bountyId)).solo engine none w =
                (answerLease job.bountyId (w.leased j i cfg.leaseTtlMs)).solo engine none w' :=
            leaseJob_answer
          obtain ⟨w', hbounties, hanswer⟩ := hlease
          rw [← leaseAnswer_congr hbounties, ← answerLease_answer, ← hanswer]
          congr 3

theorem leaseAnswer_not_refused {bountyId status : Nat} {o : Option Job} {message : String} :
    w.leaseAnswer bountyId o ≠ .ok (.error status "already_claimed" message) := by
  cases o with
  | none => simp [World.leaseAnswer]
  | some lease =>
      unfold World.leaseAnswer
      split_ifs <;> simp

/-- Past the first check no answer is a refusal. -/
theorem claimAnswer_not_refused {status : Nat} {message : String} :
    w.claimAnswer cfg i j ≠ .ok (.error status "already_claimed" message) := by
  unfold World.claimAnswer
  cases w.jobs j with
  | none => simp
  | some job =>
      by_cases hstale : job.isStale w.now = true
      · simp [hstale]
      · by_cases htaken : job.status ≠ .opened ∧ isLeaseExpired job.leaseExpiresAt w.now = false
        · simp [hstale, htaken]
        · simp only [hstale, htaken]
          exact leaseAnswer_not_refused

/-- The claim route refuses exactly the workers that have an active job. -/
theorem refuses_iff : w.refuses cfg i j = true ↔ (getActiveJobForWorker w i).isSome = true := by
  rw [← hasActiveJob_iff, World.refuses, claimRoute_answer]
  split_ifs with hbusy
  · simp [hbusy]
  · simp only [hbusy, Bool.false_eq_true, iff_false]
    split
    · rename_i status code message hanswer
      rw [decide_eq_true_eq]
      intro hcode
      subst hcode
      exact claimAnswer_not_refused hanswer
    · simp

/-- `jobs/next` answers `blocked` to a worker that has an active job. -/
theorem blocked_iff {b : Board} {q : Intake} {opts : Filters} :
    (∃ j, nextRoute b q i opts = .blocked j) ↔
      (getActiveJobForWorker b.world i).isSome = true := by
  unfold nextRoute
  cases getActiveJobForWorker b.world i with
  | some row => exact ⟨fun _ => rfl, fun _ => ⟨row.1, rfl⟩⟩
  | none =>
      simp only [Option.isSome_none, Bool.false_eq_true, iff_false, not_exists]
      intro j
      repeat' split
      all_goals simp

/-- **The checks for an active job agree**, `getActiveJobForWorker` and the two routes that
ask it with the check of `leaseJob`, exactly when every lease the worker has let run out
stands beside an active job of the worker. -/
theorem active_checks_agree (b : Board) (cfg : Config) (q : Intake) (opts : Filters)
    (i j now : Nat) :
    (((getActiveJobForWorker b.world i).isSome = true ↔ b.world.engaged i now) ↔
      b.world.OverdueCovered i now) ∧
    (((∃ k, nextRoute b q i opts = .blocked k) ↔ b.world.engaged i now) ↔
      b.world.OverdueCovered i now) ∧
    ((b.world.refuses cfg i j = true ↔ b.world.engaged i now) ↔
      b.world.OverdueCovered i now) := by
  rw [blocked_iff, refuses_iff]
  exact ⟨agree_iff, agree_iff, agree_iff⟩

/-- Worker 1 leases a job and lets the lease run out. -/
def claimAndForget : List Pick := oneClaim ++ ([.env (.tick 1200001)] : List Pick)

/-- The worker whose only lease has run out is refused every job, although `leaseJob` would
lease it one. -/
theorem overdue_lease_refused :
    ∃ c, (system Config.default noNotes).exec (fun _ _ => true) claimAndForget
        (Sys.start twoJobsWorld) = some c ∧
      (getActiveJobForWorker c.glob.world 1).isSome = true ∧
      ¬ c.glob.world.engaged 1 c.glob.world.now ∧
      c.glob.world.refuses Config.default 1 2 = true ∧
      (c.glob.world.leased 2 1 Config.default.leaseTtlMs).isSome = true := by
  obtain ⟨c, hrun, h⟩ := runs Config.default noNotes (fun _ _ => true) claimAndForget twoJobsWorld
    (fun c => (getActiveJobForWorker c.glob.world 1).isSome &&
      (! Query.eval (.hasActiveLease 1 c.glob.world.now) c.glob.world) &&
      c.glob.world.refuses Config.default 1 2 &&
      (c.glob.world.leased 2 1 Config.default.leaseTtlMs).isSome) (by decide)
  simp only [Bool.and_eq_true, Bool.not_eq_true'] at h
  obtain ⟨⟨⟨hactive, hidle⟩, hrefused⟩, hleased⟩ := h
  exact ⟨c, hrun, hactive, by simp [World.engaged, hidle], hrefused, hleased⟩

end Active

section Offer

variable {cfg : Config} {b : Board} {i j : Nat} {c : Candidate}

theorem candidate_jobId {k : Nat} (h : b.candidate k = some c) :
    c.jobId = k ∧ b.world.jobs k = some c.job ∧
      b.world.bounties c.job.bountyId = some c.bounty := by
  obtain ⟨job, hjob, hmap⟩ := Option.bind_eq_some_iff.mp h
  obtain ⟨bounty, hbounty, rfl⟩ := Option.map_eq_some_iff.mp hmap
  exact ⟨rfl, hjob, hbounty⟩

theorem wanted_requireJob :
    b.wanted (.requireJob j) c = true ↔
      c.bounty.status = .published ∧ JobStmt.leasable b.world.now c.job = true ∧ c.jobId = j := by
  simp [Board.wanted, Filters.requireJob, Filters.none, and_assoc]

theorem offerable_requireJob :
    b.offerable i (.requireJob j) c = true ↔
      b.originsVerified c = true ∧ b.capable i none c = true ∧ b.stale c = false := by
  simp [Board.offerable, Filters.requireJob, Filters.none, and_assoc]

/-- With one job required there is at most one candidate. -/
theorem findClaimableJob_requireJob {d : Candidate} :
    b.findClaimableJob i (.requireJob j) = some d ↔
      j ∈ b.world.ids ∧ b.candidate j = some d ∧ b.wanted (.requireJob j) d = true ∧
        b.offerable i (.requireJob j) d = true := by
  have hmem : ∀ x, x ∈ ((b.world.ids.filterMap b.candidate).filter
      (b.wanted (.requireJob j))).insertionSort b.before ↔
        j ∈ b.world.ids ∧ b.candidate j = some x ∧ b.wanted (.requireJob j) x = true := by
    intro x
    simp only [List.mem_insertionSort, List.mem_filter, List.mem_filterMap]
    constructor
    · intro h
      obtain ⟨⟨k, hk, hx⟩, hwanted⟩ := h
      have hkj : j = k :=
        ((wanted_requireJob.mp hwanted).2.2).symm.trans (candidate_jobId hx).1
      subst hkj
      exact ⟨hk, hx, hwanted⟩
    · intro h
      exact ⟨⟨j, h.1, h.2.1⟩, h.2.2⟩
  rw [Board.findClaimableJob, Board.candidates]
  generalize ((b.world.ids.filterMap b.candidate).filter
    (b.wanted (.requireJob j))).insertionSort b.before = rows at hmem ⊢
  cases rows with
  | nil =>
      have hnone : ¬ (j ∈ b.world.ids ∧ b.candidate j = some d ∧
          b.wanted (.requireJob j) d = true) := fun h => List.not_mem_nil ((hmem d).mpr h)
      simp only [List.take_nil, List.foldl_nil, Option.map_none, reduceCtorEq, false_iff]
      exact fun h => hnone ⟨h.1, h.2.1, h.2.2.1⟩
  | cons x rows =>
      obtain ⟨hj, hx, hwanted⟩ := (hmem x).mp List.mem_cons_self
      have hone : (x :: rows).take (if (Filters.requireJob j).requireJobId.isSome then 1 else 50) =
          [x] := by simp [Filters.requireJob]
      rw [hone, List.foldl_cons, List.foldl_nil, Board.keepBest]
      by_cases hoffer : b.offerable i (.requireJob j) x = true
      · simp only [hoffer, if_true, Option.map_some, Option.some.injEq]
        constructor
        · intro h
          subst h
          exact ⟨hj, hx, hwanted, hoffer⟩
        · intro h
          exact Option.some.inj (hx.symm.trans h.2.1)
      · rw [if_neg hoffer]
        simp only [Option.map_none, reduceCtorEq, false_iff]
        intro h
        obtain rfl : x = d := Option.some.inj (hx.symm.trans h.2.1)
        exact hoffer h.2.2.2

theorem offers_iff {b : SoundBoard} :
    b.offers i j = true ↔ ∃ c, b.candidate j = some c ∧ c.bounty.status = .published ∧
      JobStmt.leasable b.world.now c.job = true ∧ b.originsVerified c = true ∧
        b.capable i none c = true ∧ b.stale c = false := by
  rw [Board.offers, Option.any_eq_true]
  constructor
  · intro h
    obtain ⟨c, hfound, -⟩ := h
    obtain ⟨-, hc, hwanted, hofferable⟩ := findClaimableJob_requireJob.mp hfound
    obtain ⟨hpublished, hleasable, -⟩ := wanted_requireJob.mp hwanted
    exact ⟨c, hc, hpublished, hleasable, offerable_requireJob.mp hofferable⟩
  · intro h
    obtain ⟨c, hc, hpublished, hleasable, hofferable⟩ := h
    obtain ⟨hid, hjob, -⟩ := candidate_jobId hc
    refine ⟨c, findClaimableJob_requireJob.mpr ⟨?_, hc, ?_, ?_⟩, by simpa using hid⟩
    · simpa [World.ids] using b.numbered j c.job hjob
    · exact wanted_requireJob.mpr ⟨hpublished, hleasable, hid⟩
    · exact offerable_requireJob.mpr hofferable

/-- A job that can be leased passes the status check of the claim route. -/
theorem not_taken_of_leasable {job : Job} {now : Nat} (h : JobStmt.leasable now job = true) :
    ¬ (job.status ≠ .opened ∧ isLeaseExpired job.leaseExpiresAt now = false) := by
  intro htaken
  obtain ⟨hstatus, hrunning⟩ := htaken
  cases hs : job.status with
  | opened => exact hstatus hs
  | claimed =>
      simp only [JobStmt.leasable, hs] at h
      rw [isLeaseExpired, h] at hrunning
      exact Bool.noConfusion hrunning
  | submitted | verifying | done | expired => simp [JobStmt.leasable, hs] at h

/-- A worker without an active job passes the check of `leaseJob`. -/
theorem leased_of_idle {b : SoundBoard} {ttlMs : Nat}
    (hidle : getActiveJobForWorker b.world i = none) :
    b.world.leased j i ttlMs = ((b.world.jobs j).filter (JobStmt.leasable b.world.now)).map
      (JobStmt.lease' i (b.world.now + ttlMs) b.world.nextId) := by
  have hfree : ¬ Query.eval (.hasActiveLease i b.world.now) b.world.drawn = true := by
    intro hengaged
    obtain ⟨row, hrow, hactive⟩ := engaged_iff.mp hengaged
    have hjob := (mem_jobRows.mp hrow).2
    have hmem : row ∈ b.world.jobRows :=
      mem_jobRows.mpr ⟨by simpa [World.ids] using b.numbered row.1 row.2 hjob, hjob⟩
    have hsome := getActiveJobForWorker_isSome.mpr
      ⟨row, hmem, activeStatus_iff.mpr (Or.inl hactive)⟩
    rw [hidle] at hsome
    exact Bool.noConfusion hsome
  rw [World.leased, if_neg hfree]

/-- The claim route serves a worker without an active job when the row can be leased and is
not stale by its own descriptor. -/
theorem claims_iff {b : SoundBoard} (hidle : getActiveJobForWorker b.world i = none) :
    b.world.claims cfg i j = true ↔ ∃ job, b.world.jobs j = some job ∧
      JobStmt.leasable b.world.now job = true ∧ job.isStale b.world.now = false := by
  have hfree : ¬ Query.eval (.hasActiveJob i) b.world = true := by
    rw [hasActiveJob_iff, hidle]
    simp
  rw [World.claims, claimRoute_answer, if_neg hfree, World.claimAnswer]
  cases hjob : b.world.jobs j with
  | none => simp
  | some job =>
      simp only [Option.some.injEq, exists_eq_left']
      by_cases hstale : job.isStale b.world.now = true
      · simp [hstale]
      · by_cases hleasable : JobStmt.leasable b.world.now job = true
        · have hleased : b.world.leased j i cfg.leaseTtlMs =
              some (JobStmt.lease' i (b.world.now + cfg.leaseTtlMs) b.world.nextId job) := by
            rw [leased_of_idle hidle, hjob]
            simp [Option.filter, hleasable]
          have hbounty := b.bountyExists j job hjob
          simp [hstale, not_taken_of_leasable hleasable, hleased, World.leaseAnswer, hbounty,
            hleasable]
        · have hleased : b.world.leased j i cfg.leaseTtlMs = none := by
            rw [leased_of_idle hidle, hjob]
            simp [Option.filter, hleasable]
          rw [hleased]
          by_cases htaken : job.status ≠ .opened ∧
              isLeaseExpired job.leaseExpiresAt b.world.now = false
          · simp [hstale, htaken, hleasable]
          · simp only [hstale, htaken, hleasable]
            simp [World.leaseAnswer]

/-- A job that is not stale by the descriptor it falls back to is not stale by its own. -/
theorem isStale_of_stale {b : SoundBoard} (hc : b.candidate j = some c)
    (hfresh : b.stale c = false) : c.job.isStale b.world.now = false := by
  obtain ⟨hid, hjob, -⟩ := candidate_jobId hc
  have hsla : c.job.freshnessSlaSec = slaSec (b.jobDescriptor c.jobId) :=
    hid ▸ b.ownSla j c.job hjob
  cases hown : b.jobDescriptor c.jobId with
  | none => simp [Job.isStale, hsla, hown, slaSec]
  | some descriptor =>
      simp only [Board.stale, Board.descriptor, hown, Option.some_or] at hfresh
      simpa [Job.isStale, hsla, hown] using hfresh

/-- **Offer and claim agree on a job** of a worker without an active one exactly when a job
whose row can be claimed belongs to a published bounty, all origins of which are public or
still verified, asks for nothing the worker has disabled, and is not stale by the descriptor
it falls back to. -/
theorem offer_and_claim_agree (b : SoundBoard) (cfg : Config) (i j : Nat)
    (hidle : getActiveJobForWorker b.world i = none) :
    (b.world.claims cfg i j = true ↔ b.offers i j = true) ↔
      ∀ c, b.candidate j = some c → JobStmt.leasable b.world.now c.job = true →
        c.job.isStale b.world.now = false →
          c.bounty.status = .published ∧ b.originsVerified c = true ∧
            b.capable i none c = true ∧ b.stale c = false := by
  rw [claims_iff hidle, offers_iff]
  constructor
  · intro h c hc hleasable hfresh
    obtain ⟨c', hc', hpublished, -, hrest⟩ :=
      h.mp ⟨c.job, (candidate_jobId hc).2.1, hleasable, hfresh⟩
    obtain rfl : c = c' := Option.some.inj (hc.symm.trans hc')
    exact ⟨hpublished, hrest⟩
  · intro h
    constructor
    · intro hclaims
      obtain ⟨job, hjob, hleasable, hfresh⟩ := hclaims
      obtain ⟨bounty, hbounty⟩ := Option.isSome_iff_exists.mp (b.bountyExists j job hjob)
      have hc : b.candidate j = some ⟨j, job, bounty⟩ := by
        simp [Board.candidate, hjob, hbounty]
      obtain ⟨hpublished, hrest⟩ := h ⟨j, job, bounty⟩ hc hleasable hfresh
      exact ⟨⟨j, job, bounty⟩, hc, hpublished, hleasable, hrest⟩
    · intro hoffers
      obtain ⟨c, hc, -, hleasable, -, -, hfresh⟩ := hoffers
      exact ⟨c.job, (candidate_jobId hc).2.1, hleasable, isStale_of_stale hc hfresh⟩

/-- A board with one bounty and its open job, nothing of which has a descriptor. -/
def leaseBoard (status : BountyStatus) : SoundBoard where
  world :=
    { World.empty with
      nextId := 5
      bounties := Function.update World.empty.bounties 1
        (some ⟨1, status, [], [0], 100, 0, 0, some 0⟩)
      jobs := Function.update World.empty.jobs 2 (some (.fresh 1 0 0 0)) }
  jobDescriptor _ := none
  bountyDescriptor _ := none
  priority _ := 0
  requiredProofs _ := 1
  appByTaskType _ := none
  orgSystem := 0
  normalizeOrigin := some
  browserDisabled _ := false
  numbered := AllRows.update (fun _ _ h => absurd h (by simp [World.empty]))
    (show 2 < 5 by decide)
  bountyExists := AllRows.update (fun _ _ h => absurd h (by simp [World.empty])) rfl
  ownSla := AllRows.update (fun _ _ h => absurd h (by simp [World.empty])) rfl

theorem offer_and_claim_agree_published :
    ((leaseBoard .published).world.claims Config.default 1 2 = true ↔
        (leaseBoard .published).offers 1 2 = true) ∧
      (leaseBoard .published).offers 1 2 = true := by
  have hoffers : (leaseBoard .published).offers 1 2 = true := by decide
  refine ⟨(offer_and_claim_agree (leaseBoard .published) Config.default 1 2
    (Option.not_isSome_iff_eq_none.mp (by decide))).mpr ?_, hoffers⟩
  intro c hc _ _
  obtain ⟨c', hc', hpublished, -, hrest⟩ := offers_iff.mp hoffers
  obtain rfl : c = c' := Option.some.inj (hc.symm.trans hc')
  exact ⟨hpublished, hrest⟩

/-- A job of a paused bounty is not offered, and its claim succeeds. -/
theorem paused_bounty_claimed :
    getActiveJobForWorker (leaseBoard .paused).world 1 = none ∧
      (leaseBoard .paused).world.claims Config.default 1 2 = true ∧
      (leaseBoard .paused).offers 1 2 = false := by
  refine ⟨?_, by decide, by decide⟩
  rw [← Option.not_isSome_iff_eq_none]
  decide

end Offer

end OpenUnion
