import OpenUnion.Safety.JobNotes

/-!
# Job rows stay well-formed

`Job.Formed` says what the columns of a job have to do with its status.  The verdict
route sets `done_at` when it completes a job; the duplicate branch of the submit
route, the admin's duplicate mark and the admin's override complete it without, and a
verdict that requeues leaves the job verifying whether or not it has a current
submission.

* `jobs_formed`: in the runs in which these four find the columns already set, every
  job is well-formed in every state.
* `duplicate_without_doneAt`: a submit that takes the duplicate branch.
-/

namespace OpenUnion

open Interleave

/-- What the columns of job `j` have to do with its status.  A current submission is one
of the job. -/
structure Job.Formed (w : World) (j : Nat) (row : Job) : Prop where
  done : row.status = .done → row.doneAt ≠ none ∧ row.finalVerdict ≠ none
  free : row.status = .opened ∨ row.status = .expired →
    row.leaseWorkerId = none ∧ row.leaseExpiresAt = none ∧ row.leaseNonce = none
  claimed : row.status = .claimed →
    row.leaseWorkerId ≠ none ∧ row.leaseExpiresAt ≠ none ∧ row.leaseNonce ≠ none
  current : ∀ s, row.currentSubmissionId = some s →
    ∃ sub, w.submissions s = some sub ∧ sub.jobId = j
  verifying : row.status = .verifying →
    ∃ s n, row.currentSubmissionId = some s ∧ w.verifications (s, n) ≠ none

/-- Every job is well-formed. -/
def JobsFormed (w : World) : Prop := AllRows (Job.Formed w) w.jobs

/-- What has been noted is so. -/
def RowNote.Holds (w : World) : RowNote → Prop
  | .job j row => row.Formed w j
  | .submission s j => ∃ sub, w.submissions s = some sub ∧ sub.jobId = j
  | .verified s => ∃ n, w.verifications (s, n) ≠ none
  | .duplicate => True

/-- The requests that complete a job without setting `done_at` find it set, and a verdict
that requeues finds a current submission with a verification. -/
def columnsSet : Step → Glob World RowNote → Bool
  | .event a (.stmt (.job (.update _ new)) _), g =>
      match a.req, lastJob (own a.pid g.hist) with
      | .submit _ _ _ _, some (_, row) =>
          (own a.pid g.hist).all (fun n => ! n.isDuplicate) || row.doneAt.isSome
      | .markDuplicate _, some (_, row) | .overrideVerdict _ _ _, some (_, row) => row.doneAt.isSome
      | .verifierVerdict _, some (_, row) | .verificationRunner, some (_, row) =>
          decide (new.status ≠ .verifying) ||
            row.currentSubmissionId.any fun s => (g.world.maxAttempt s).isSome
      | _, _ => true
  | _, _ => true

section Rows

variable {w w' : World} {j : Nat} {row : Job}

/-- Submissions stay with their jobs, and verifications stay. -/
theorem Job.Formed.grows (h : row.Formed w j) (hgrow : w.Grows w') : row.Formed w' j := by
  refine ⟨h.done, h.free, h.claimed, fun s hs => ?_, fun hverifying => ?_⟩
  · obtain ⟨sub, hsub, hjob⟩ := h.current s hs
    obtain ⟨sub', hsub', horigin⟩ := hgrow.submissions s sub hsub
    exact ⟨sub', hsub', (congrArg Prod.fst horigin).trans hjob⟩
  · obtain ⟨s, n, hs, hv⟩ := h.verifying hverifying
    obtain ⟨v, hv⟩ := Option.ne_none_iff_exists'.mp hv
    obtain ⟨v', hv', -⟩ := hgrow.verifications (s, n) v hv
    exact ⟨s, n, hs, by simp [hv']⟩

theorem RowNote.Holds.grows {n : RowNote} (h : n.Holds w) (hgrow : w.Grows w') : n.Holds w' := by
  cases n with
  | job j row => exact Job.Formed.grows h hgrow
  | submission s j =>
      obtain ⟨sub, hsub, hjob⟩ := h
      obtain ⟨sub', hsub', horigin⟩ := hgrow.submissions s sub hsub
      exact ⟨sub', hsub', (congrArg Prod.fst horigin).trans hjob⟩
  | verified s =>
      obtain ⟨n, hv⟩ := h
      obtain ⟨v, hv⟩ := Option.ne_none_iff_exists'.mp hv
      obtain ⟨v', hv', -⟩ := hgrow.verifications (s, n) v hv
      exact ⟨n, by simp [hv']⟩
  | duplicate => trivial

/-- A submission that has attempts has a verification. -/
theorem verified_of_maxAttempt {s : Nat} (h : (w.maxAttempt s).isSome = true) :
    ∃ n, w.verifications (s, n) ≠ none := by
  have hne : w.attempts s ≠ [] := by
    rintro hnil
    rw [World.maxAttempt, hnil] at h
    exact absurd h (by simp)
  obtain ⟨n, hn⟩ := List.exists_mem_of_ne_nil _ hne
  obtain ⟨k, hk, rfl⟩ := List.mem_map.mp hn
  obtain ⟨-, hsub, hsome⟩ : k ∈ w.verificationKeys ∧ k.1 = s ∧ (w.verifications k).isSome := by
    simpa using List.mem_filter.mp hk
  refine ⟨k.2, fun hnone => ?_⟩
  subst hsub
  rw [show (k.1, k.2) = k from rfl] at hnone
  rw [hnone] at hsome
  exact absurd hsome (by simp)

/-- A submission found by its idempotency key is one of the job. -/
theorem submissionByKey_found {i k s : Nat} {sub : Submission}
    (h : w.submissionByKey j i k = some (s, sub)) :
    w.submissions s = some sub ∧ sub.jobId = j := by
  obtain ⟨n, -, hn⟩ := List.exists_of_findSome?_eq_some h
  obtain ⟨row, hrow, hfound⟩ := Option.bind_eq_some_iff.mp hn
  split_ifs at hfound with hkey
  obtain ⟨rfl, rfl⟩ : n = s ∧ row = sub := by simpa using hfound
  exact ⟨hrow, hkey.1⟩

/-- Only the columns an update writes matter. -/
theorem Job.Formed.assign {new old : Job} (h : new.Formed w j) : (JobStmt.assign new old).Formed w j :=
  ⟨h.done, h.free, h.claimed, h.current, h.verifying⟩

/-- Leasing a job, giving it back, and a new job. -/
theorem Job.Formed.lease' (h : row.Formed w j) (i e n : Nat) :
    (JobStmt.lease' i e n row).Formed w j :=
  ⟨fun hdone => absurd hdone (by simp [JobStmt.lease']),
    fun hfree => absurd hfree (by simp [JobStmt.lease']),
    fun _ => by simp [JobStmt.lease'], h.current,
    fun hverifying => absurd hverifying (by simp [JobStmt.lease'])⟩

theorem Job.Formed.unlease (h : row.Formed w j) {st : JobStatus} (hst : st = .opened ∨ st = .expired) :
    (JobStmt.unlease st row).Formed w j := by
  refine ⟨fun hdone => ?_, fun _ => ⟨rfl, rfl, rfl⟩, fun hclaimed => ?_, h.current,
    fun hverifying => ?_⟩
  · obtain rfl | rfl := hst <;> exact absurd hdone (by simp [JobStmt.unlease])
  · obtain rfl | rfl := hst <;> exact absurd hclaimed (by simp [JobStmt.unlease])
  · obtain rfl | rfl := hst <;> exact absurd hverifying (by simp [JobStmt.unlease])

theorem Job.Formed.fresh (b fp sla now : Nat) : (Job.fresh b fp sla now).Formed w j :=
  ⟨fun h => absurd h (by simp [Job.fresh]), fun _ => ⟨rfl, rfl, rfl⟩,
    fun h => absurd h (by simp [Job.fresh]), fun s hs => absurd hs (by simp [Job.fresh]),
    fun h => absurd h (by simp [Job.fresh])⟩

end Rows

section Writes

variable {g : Glob World RowNote} {a : Actor Request} {j : Nat} {row new : Job} {u : Unit}

/-- A job whose status is `verifying` or `done` is well-formed if the columns of that
status are set. -/
theorem Job.Formed.of_verifying {w : World} {s : Nat} (hstatus : new.status = .verifying)
    (hcurrent : new.currentSubmissionId = some s)
    (hsub : ∃ sub, w.submissions s = some sub ∧ sub.jobId = j)
    (hverified : ∃ n, w.verifications (s, n) ≠ none) : new.Formed w j := by
  refine ⟨fun h => ?_, fun h => ?_, fun h => ?_, fun s' hs' => ?_, fun _ => ?_⟩
  · exact absurd (hstatus.symm.trans h) (by simp)
  · obtain h | h := h <;> exact absurd (hstatus.symm.trans h) (by simp)
  · exact absurd (hstatus.symm.trans h) (by simp)
  · obtain rfl : s = s' := Option.some.inj (hcurrent.symm.trans hs')
    exact hsub
  · obtain ⟨n, hn⟩ := hverified
    exact ⟨s, n, hcurrent, hn⟩

theorem Job.Formed.of_done {w : World} (hstatus : new.status = .done) (hdoneAt : new.doneAt ≠ none)
    (hverdict : new.finalVerdict ≠ none)
    (hcurrent : ∀ s, new.currentSubmissionId = some s →
      ∃ sub, w.submissions s = some sub ∧ sub.jobId = j) : new.Formed w j := by
  refine ⟨fun _ => ⟨hdoneAt, hverdict⟩, fun h => ?_, fun h => ?_, hcurrent, fun h => ?_⟩
  · obtain h | h := h <;> exact absurd (hstatus.symm.trans h) (by simp)
  · exact absurd (hstatus.symm.trans h) (by simp)
  · exact absurd (hstatus.symm.trans h) (by simp)

/-- The row written for a job is well-formed, if the columns it needs are set. -/
theorem JobRow.formed (hwrite : JobRow (own a.pid g.hist) a.req j row new)
    (hread : lastJob (own a.pid g.hist) = some (j, row)) (hrow : row.Formed g.world j)
    (hnotes : ∀ n ∈ own a.pid g.hist, n.Holds g.world)
    (hok : columnsSet (.event a (.stmt (.job (.update j new)) u)) g = true) :
    new.Formed g.world j := by
  obtain ⟨pid, q⟩ := a
  simp only [columnsSet, hread] at hok
  cases hwrite with
  | verifying i j key body row s hstored hverified =>
      exact .of_verifying rfl rfl (hnotes _ hstored) (hnotes _ hverified)
  | healed i j key body row s hworker hnone hclaimed hopened hstored hverified =>
      have hhealed : row.healed s =
          { row with currentSubmissionId := some s, status := row.status } := by
        rw [Job.healed, hnone]
        cases hstatus : row.status <;> simp_all [JobStatus.orVerifying]
      rw [hhealed]
      refine ⟨hrow.done, hrow.free, hrow.claimed, fun s' hs' => ?_, fun h => ?_⟩
      · obtain rfl : s = s' := Option.some.inj hs'
        exact hnotes _ hstored
      · obtain ⟨s', n, hs', -⟩ := hrow.verifying h
        exact absurd (hnone.symm.trans hs') (by simp)
  | duplicate i j key body row s hduplicate hstored =>
      have hdone : row.doneAt.isSome = true := by
        obtain hall | hdone := Bool.or_eq_true _ _ ▸ hok
        · exact absurd (List.all_eq_true.mp hall _ hduplicate) (by simp [RowNote.isDuplicate])
        · exact hdone
      refine .of_done rfl (Option.isSome_iff_ne_none.mp hdone) (by simp [Job.duplicateAs])
        fun s' hs' => ?_
      obtain rfl : s = s' := Option.some.inj hs'
      exact hnotes _ hstored
  | requeued q body j row hq =>
      have hany : row.currentSubmissionId.any (fun s => (g.world.maxAttempt s).isSome) = true := by
        obtain rfl | rfl := hq <;> simpa [Job.requeued] using hok
      obtain ⟨s, hs, hattempt⟩ := (Option.any_eq_true _ _).mp hany
      exact .of_verifying rfl hs (hrow.current s hs) (verified_of_maxAttempt hattempt)
  | completed q body j row doneAt =>
      exact .of_done rfl (by simp [Job.completed]) (by simp [Job.completed, Job.judged]) hrow.current
  | markedDuplicate s j row =>
      exact .of_done rfl (Option.isSome_iff_ne_none.mp hok) (by simp [Job.markedDuplicate]) hrow.current
  | overridden s v score j row verdict sub =>
      exact .of_done rfl (Option.isSome_iff_ne_none.mp hok) (by simp [Job.overridden]) hrow.current

end Writes

section Noting

variable {cfg : Config} {w w' : World} {a : Actor Request} {x : Happening}

theorem lastJob_mem {ns : List RowNote} {j : Nat} {row : Job} (h : lastJob ns = some (j, row)) :
    .job j row ∈ ns := by
  induction ns with
  | nil => exact absurd h (by simp [lastJob])
  | cons n ns ih =>
      cases n with
      | job j' row' =>
          obtain ⟨rfl, rfl⟩ : j' = j ∧ row' = row := by simpa [lastJob] using h
          exact List.mem_cons_self
      | _ => exact List.mem_cons_of_mem _ (ih h)

/-- What a step notes holds after it, if what it stores is there then. -/
theorem rowNotes_hold (hformed : JobsFormed w) (hgrow : w.Grows w')
    (hsubmission : ∀ s row, x = .stmt (.submission (.insert s row)) true →
      w'.submissions s = some row)
    (hverification : ∀ k v, x = .stmt (.verification (.insert k v)) true →
      w'.verifications k ≠ none) :
    ∀ n ∈ rowNotes a x w, n.Holds w' := by
  intro n hn
  unfold rowNotes at hn
  split at hn
  · obtain ⟨row, hrow, rfl⟩ := List.mem_map.mp hn
    exact (hformed _ row (by simpa using hrow)).grows hgrow
  · obtain ⟨row, hrow, rfl⟩ := List.mem_map.mp hn
    obtain ⟨sub, hsub, horigin⟩ := hgrow.submissions _ row (by simpa using hrow)
    exact ⟨sub, hsub, congrArg Prod.fst horigin⟩
  · obtain ⟨⟨s, row⟩, hfound, rfl⟩ := List.mem_map.mp hn
    obtain ⟨hrow, hjob⟩ := submissionByKey_found (by simpa using hfound)
    obtain ⟨sub, hsub, horigin⟩ := hgrow.submissions s row hrow
    exact ⟨sub, hsub, (congrArg Prod.fst horigin).trans hjob⟩
  · rename_i s k _
    obtain ⟨v, hv, rfl⟩ := List.mem_map.mp hn
    obtain ⟨v', hv', -⟩ := hgrow.verifications (s, k) v (by simpa using hv)
    exact ⟨k, by simp [hv']⟩
  · split_ifs at hn with hduplicate
    · obtain rfl := List.mem_singleton.mp hn
      trivial
    · exact absurd hn (by simp)
  · rename_i s row inserted
    cases inserted with
    | true =>
        obtain rfl := List.mem_singleton.mp hn
        exact ⟨row, hsubmission s row rfl, rfl⟩
    | false => exact absurd hn (by simp)
  · rename_i k v inserted
    cases inserted with
    | true =>
        obtain rfl := List.mem_singleton.mp hn
        exact ⟨k.2, hverification k v rfl⟩
    | false => exact absurd hn (by simp)
  · exact absurd hn (by simp)

/-- Jobs are formed, and what has been noted is so. -/
structure RowsHold (g : Glob World RowNote) : Prop where
  jobs : JobsFormed g.world
  notes : ∀ e ∈ g.hist, e.2.Holds g.world

/-- The plan: jobs are well-formed. -/
def jobStatesPlan (cfg : Config) : Plan (system cfg rowNotes) :=
  { systemPlan cfg rowNotes columnsSet (fun _ => True) RowsHold (fun _ _ _ => True)
      (fun _ _ _ => True) with
    conduct := fun a => (Request.conduct cfg (fun _ _ _ => True) a).and (rowConduct a) }

/-- A step of the plan keeps what does not depend on the jobs written. -/
theorem RowsHold.step {g g' : Glob World RowNote} {new : List (Nat × RowNote)} (h : RowsHold g)
    (hgrow : g.world.Grows g'.world) (hhist : g'.hist = new ++ g.hist)
    (hnew : ∀ e ∈ new, e.2.Holds g'.world)
    (hjobs : ∀ j row', g'.world.jobs j = some row' → row'.Formed g.world j) : RowsHold g' := by
  refine ⟨fun j row' hrow' => (hjobs j row' hrow').grows hgrow, fun e he => ?_⟩
  rw [hhist] at he
  obtain hmem | hmem := List.mem_append.mp he
  · exact hnew e hmem
  · exact (h.notes e hmem).grows hgrow

/-- What a whole-row write, a release or a reap leaves in `jobs`. -/
theorem RowsHold.job_write {g : Glob World RowNote} {s : JobStmt} {u : s.Val} (h : RowsHold g)
    (hexec : a.req.Executes (.job s)) (hout : RowOut a.req (own a.pid g.hist) (.job s))
    (hok : columnsSet (.event a (.stmt (.job s) u)) g = true) {j : Nat} {row' : Job}
    (hrow' : s.write g.world g.world.jobs j = some row') : row'.Formed g.world j := by
  have hall : AllRows (Job.Formed g.world) (s.write g.world g.world.jobs) := by
    obtain ⟨pid, q⟩ := a
    cases Request.writes_job hexec with
    | release i j n =>
        simp only [JobStmt.write]
        split_ifs
        · exact h.jobs.modify fun r _ hr => hr.unlease (Or.inl rfl)
        · exact h.jobs
    | reap t => exact h.jobs.modifyAll fun k _ r _ hr => hr.unlease (Or.inr rfl)
    | update _ j new old _ =>
        obtain ⟨row, hread, hwrite⟩ := hout
        have hown : ∀ n ∈ own pid g.hist, n.Holds g.world := fun n hn => h.notes _ (mem_own.mp hn)
        have hnew : new.Formed g.world j :=
          hwrite.formed hread (hown _ (lastJob_mem hread)) hown hok
        exact h.jobs.modify fun r _ _ => hnew.assign
  exact hall j row' hrow'

theorem jobStatesPlan_inv_step {l : Step} {L : List Lock} {g g' : Glob World RowNote}
    (h : (jobStatesPlan cfg).Move l L g g') : RowsHold g' := by
  have hgrow : g.world.Grows g'.world := Conducted.grows
    (fun a g t L w (hcom : (a.req.Ends t ∧ t.Effect cfg (fun _ _ _ => True) a.pid L g.world w) ∧ _) =>
      hcom.1.2.grows) h.conducted
  obtain ⟨hinv, hok, hstep⟩ := h
  have hinv : RowsHold g := hinv
  cases hstep with
  | stmt a s busy _ _ _ hout =>
      refine hinv.step hgrow
        (rfl : _ = ((rowNotes a _ g.world).map fun n => (a.pid, n)) ++ g.hist) ?_ ?_
      · intro e he
        obtain ⟨n, hn, rfl⟩ := List.mem_map.mp he
        refine rowNotes_hold hinv.jobs hgrow ?_ ?_ n hn
        · intro i row hx
          obtain ⟨rfl, hfree⟩ : s = .submission (.insert i row) ∧ SubmissionStmt.free i row g.world := by
            injection hx with hs hr
            subst hs
            exact ⟨rfl, eq_of_heq hr⟩
          change (Stmt.apply (.submission (.insert i row)) busy g.world).submissions i = some row
          rw [Stmt.apply_submissions]
          simp [SubmissionStmt.write, hfree]
        · intro k v hx
          obtain ⟨rfl, hfree⟩ : s = .verification (.insert k v) ∧
              (g.world.verifications k).isNone = true := by
            injection hx with hs hr
            subst hs
            exact ⟨rfl, eq_of_heq hr⟩
          change (Stmt.apply (.verification (.insert k v)) busy g.world).verifications k ≠ none
          rw [Stmt.apply_verifications]
          simp [VerificationStmt.write, hfree]
      · intro j row' hrow'
        change (s.apply busy g.world).jobs j = some row' at hrow'
        rw [Stmt.apply_jobs] at hrow'
        cases s with
        | job s => exact hinv.job_write hout.1.1 hout.2 hok hrow'
        | _ => exact hinv.jobs j row' hrow'
  | inner a s busy v _ _ hinside =>
      refine hinv.step hgrow
        (rfl : _ = ((rowNotes a _ g.world).map fun n => (a.pid, n)) ++ g.hist) ?_ ?_
      · intro e he
        obtain ⟨n, hn, rfl⟩ := List.mem_map.mp he
        have hinner : s.Inner cfg g.world := hinside.1
        refine rowNotes_hold hinv.jobs hgrow ?_ ?_ n hn
        · intro i row hx
          obtain rfl : s = .submission (.insert i row) := by injection hx
          exact hinner.elim
        · intro k v hx
          obtain rfl : s = .verification (.insert k v) := by injection hx
          exact hinner.elim
      · intro j row' hrow'
        exact hinv.jobs j row' ((congrFun (Stmt.effect_jobs s busy (v g.world) g.world) j).symm.trans hrow')
  | commit a t L v _ _ hcom =>
      refine hinv.step hgrow (rfl : _ = [] ++ g.hist) (by simp) fun j row' hrow' => ?_
      cases hcom.1.2.jobsCommit with
      | same _ hsame => exact hinv.jobs j row' ((congrFun hsame j).symm.trans hrow')
      | leased k i _ hleased =>
          obtain ⟨e, n, t, w₀, -, -, -, -, -, hw⟩ := hleased
          have hall : AllRows (Job.Formed g.world) (modify g.world.jobs k (JobStmt.lease' i e n)) :=
            hinv.jobs.modify fun r _ hr => hr.lease' i e n
          refine hall j row' ?_
          change (v g.world).jobs j = some row' at hrow'
          rwa [hw] at hrow'
      | published b bounty _ _ hjobs =>
          obtain ⟨-, hsame⟩ | ⟨w₀, -, -, hadds⟩ := hjobs
          · exact hinv.jobs j row' ((congrFun hsame j).symm.trans hrow')
          · cases hold : g.world.jobs j with
            | none =>
                obtain ⟨-, fp, sla, now, rfl⟩ := hadds.new hold hrow'
                exact .fresh b fp sla now
            | some row =>
                obtain rfl : row = row' := Option.some.inj ((hadds.kept hold).symm.trans hrow')
                exact hinv.jobs j row hold
  | reply a x _ _ _ => exact hinv.step hgrow (rfl : _ = [] ++ g.hist) (by simp) hinv.jobs
  | env e _ =>
      refine hinv.step hgrow (rfl : _ = [] ++ g.hist) (by simp) fun j row' hrow' => ?_
      have hjobs : (e.apply g.world).jobs = g.world.jobs := by cases e <;> rfl
      exact hinv.jobs j row' ((congrFun hjobs j).symm.trans hrow')

theorem jobStatesPlan_valid (cfg : Config) : (jobStatesPlan cfg).Valid where
  grow_trans _ _ _ := World.Grows.trans
  grow_refl := World.Grows.refl
  hold_trans _ _ _ _ _ _ := trivial
  drift_refl _ _ := trivial
  drift_trans _ _ _ _ _ _ := trivial
  spawn _ _ _ := trivial
  does i q _ := ((Request.code_does (fun _ _ h => h) i q).and (q.rows_does fun _ _ h => h)).mono
    (fun _ _ _ _ _ _ => trivial) (fun _ _ _ => trivial) (fun _ _ _ h => h) (fun _ _ _ _ h => h)
    fun _ _ _ _ h => h
  inv_step _ _ _ _ := jobStatesPlan_inv_step
  grow_step _ _ _ _ h := Conducted.grows
    (fun a g t L w (hcom : (a.req.Ends t ∧ t.Effect cfg (fun _ _ _ => True) a.pid L g.world w) ∧ _) =>
      hcom.1.2.grows) h.conducted
  hold_step _ _ _ _ _ _ _ := trivial
  drift_step _ _ _ _ _ _ _ := trivial

/-- **Jobs are well-formed** in every state of a run in which no duplicate submission,
duplicate mark or override completes a job that has no `done_at`, and no verdict sends a
job without a current submission into another attempt. -/
theorem jobs_formed {w : World} {cs : List Pick} {c : State RowNote} (hw : JobsFormed w)
    (hrun : (system cfg rowNotes).exec columnsSet cs (Sys.start w) = some c) :
    JobsFormed c.glob.world :=
  ((jobStatesPlan_valid cfg).exec_inv ⟨hw, by simp⟩ hrun).jobs

end Noting

/-- A job that worker 3 holds, of a bounty where key 7 has been accepted. -/
def leasedJob : Job :=
  { Job.fresh 1 7 0 0 with
    status := .claimed, leaseWorkerId := some 3, leaseExpiresAt := some 100, leaseNonce := some 4 }

def leasedWorld : World :=
  { World.empty with
    nextId := 5
    bounties := Function.update World.empty.bounties 1
      (some ⟨9, .published, [], [7], 100, 0, 0, some 0⟩)
    jobs := Function.update World.empty.jobs 2 (some leasedJob)
    acceptedDedupe := fun k => decide (k = (1, 7)) }

theorem leasedWorld_formed : JobsFormed leasedWorld := by
  refine AllRows.update (fun j row hrow => absurd hrow (by simp [World.empty])) ?_
  refine ⟨fun h => ?_, fun h => ?_, fun _ => by simp [leasedJob], fun s hs => ?_, fun h => ?_⟩
  · exact absurd h (by decide)
  · exact absurd h (by decide)
  · exact absurd hs (by simp [leasedJob, Job.fresh])
  · exact absurd h (by decide)

/-- A submission of another result, claimed by a verifier and rejected. -/
def submitAndFail : List Pick :=
  ([.spawn (.submit 3 2 none ⟨⟨1, 8, .absent, 0⟩, [], none⟩)] : List Pick) ++
    @List.replicate Pick 14 (.run 0) ++ ([.spawn (.verifierClaim ⟨5, 1, 7, 600⟩)] : List Pick) ++
    @List.replicate Pick 8 (.run 1) ++
    ([.spawn (.verifierVerdict ⟨5, 1, 7, .fail, "no", 1⟩)] : List Pick) ++
    @List.replicate Pick 11 (.run 2)

theorem jobs_formed_submitAndFail :
    ∃ c, (system Config.default rowNotes).exec columnsSet submitAndFail (Sys.start leasedWorld) =
        some c ∧
      (c.glob.world.jobs 2).any (fun row => decide (row.status = .done)) = true ∧
      JobsFormed c.glob.world := by
  obtain ⟨c, hrun, hdone⟩ := runs Config.default rowNotes columnsSet submitAndFail leasedWorld
    (fun c => (c.glob.world.jobs 2).any fun (row : Job) => decide (row.status = .done)) (by decide)
  exact ⟨c, hrun, hdone, jobs_formed leasedWorld_formed hrun⟩

/-- A submission of the result that has been accepted. -/
def submitDuplicate : List Pick :=
  ([.spawn (.submit 3 2 none ⟨⟨1, 6, .absent, 0⟩, [], none⟩)] : List Pick) ++
    @List.replicate Pick 10 (.run 0)

/-- A duplicate leaves its job done without `done_at`. -/
theorem duplicate_without_doneAt :
    ∃ c, (system Config.default rowNotes).exec (fun _ _ => true) submitDuplicate
        (Sys.start leasedWorld) = some c ∧
      JobsFormed leasedWorld ∧ ¬ JobsFormed c.glob.world := by
  obtain ⟨c, hrun, hdone⟩ := runs Config.default rowNotes (fun _ _ => true) submitDuplicate
    leasedWorld
    (fun c => (c.glob.world.jobs 2).any fun (row : Job) => decide (row.status = .done ∧ row.doneAt = none))
    (by decide)
  obtain ⟨row, hrow, hstatus⟩ := (Option.any_eq_true _ _).mp hdone
  obtain ⟨hstatus, hnone⟩ := of_decide_eq_true hstatus
  exact ⟨c, hrun, leasedWorld_formed, fun hformed =>
    ((hformed 2 row hrow).done hstatus).1 hnone⟩

end OpenUnion
