import OpenUnion.Code.SubmissionRows
import OpenUnion.Safety.DealNotes
import OpenUnion.Safety.JobStates
import OpenUnion.Safety.Splits

/-!
# Every payment has been earned

What has led to a payout can be read off the history: its bounty was published, a claim of
the worker on the job was committed, the worker submitted then, the submission was accepted
by a verdict or by an admin, and the payout was created.

* `Job.Traced`: a job has been published, and who holds it has claimed it.
* `Worked`: steps that have followed the work on a submission, in their order.
* `Deals`: the invariant.
* `payments_earned`: every payout, transaction and provider call of a run from a system
  without jobs.

A handler writes jobs that are made from those it has read (`RowOut`), so the lease in a row
that was read long ago still goes back to a claim.
-/

namespace OpenUnion

open Interleave

/-- The notes of a run, newest first. -/
def notesOf (g : Glob World DealNote) : List DealNote := g.hist.map Prod.snd

/-- Job `j` has been published, and claimed since then by the worker who holds it. -/
structure Job.Traced (ns : List DealNote) (j : Nat) (row : Job) : Prop where
  published : [.published row.bountyId].Sublist ns
  claimed : ∀ i, row.leaseWorkerId = some i →
    [.claimed i j, .published row.bountyId].Sublist ns

/-- What leads to a submission, newest first. -/
def workSteps (s workerId jobId bountyId : Nat) : List DealNote :=
  [.submitted workerId jobId s, .claimed workerId jobId, .published bountyId]

/-- The work on submission `s` has been done, and then the steps `later`, newest first. -/
def Worked (later : List DealNote) (s : Nat) (g : Glob World DealNote) : Prop :=
  ∃ sub job, g.world.submissions s = some sub ∧ g.world.jobs sub.jobId = some job ∧
    (later ++ workSteps s sub.workerId sub.jobId job.bountyId).Sublist (notesOf g)

/-- The ways to accept a submission. -/
inductive Accepts (s : Nat) : DealNote → Prop where
  | passed : Accepts s (.passed s)
  | overridden : Accepts s (.overridden s)

/-- What a note says of the state. -/
def DealNote.Holds (g : Glob World DealNote) : DealNote → Prop
  | .read (.job j row) => row.Traced (notesOf g) j ∧
      ∃ job, g.world.jobs j = some job ∧ job.bountyId = row.bountyId
  | .read (.submission s _) | .read (.verified s) => ∃ sub, g.world.submissions s = some sub
  | .passed s => Worked [.passed s] s g
  | .overridden s => Worked [.overridden s] s g
  | _ => True

/-- What is stored goes back to the work that was done. -/
structure Deals (g : Glob World DealNote) : Prop where
  jobs : AllRows (Job.Traced (notesOf g)) g.world.jobs
  submissions : ∀ s sub, g.world.submissions s = some sub → Worked [] s g
  verifications : ∀ k v, g.world.verifications k = some v →
    ∃ sub, g.world.submissions k.1 = some sub
  payouts : ∀ k p, g.world.payouts k = some p →
    ∃ n, Accepts p.submissionId n ∧ Worked [.owed k p.submissionId, n] p.submissionId g
  notes : ∀ e ∈ g.hist, e.2.Holds g

section Steps

variable {g g' : Glob World DealNote} {new : List (Nat × DealNote)} {ns ns' : List DealNote}
  {j s : Nat} {row : Job} {later : List DealNote}

theorem Job.Traced.mono (h : row.Traced ns j) (hsub : ns.Sublist ns') : row.Traced ns' j :=
  ⟨h.published.trans hsub, fun i hi => (h.claimed i hi).trans hsub⟩

/-- The history only gets longer. -/
theorem notesOf_append (hhist : g'.hist = new ++ g.hist) :
    notesOf g' = new.map Prod.snd ++ notesOf g := by
  rw [notesOf, hhist, List.map_append, notesOf]

theorem notesOf_sublist (hhist : g'.hist = new ++ g.hist) : (notesOf g).Sublist (notesOf g') := by
  rw [notesOf_append hhist]
  exact List.sublist_append_right _ _

/-- A new step comes after what has been done. -/
theorem Worked.after {steps : List DealNote} (h : Worked later s g)
    (hgrow : g.world.Grows g'.world) (hhist : g'.hist = new ++ g.hist)
    (hsteps : steps.Sublist (new.map Prod.snd)) : Worked (steps ++ later) s g' := by
  obtain ⟨sub, job, hsub, hjob, hdone⟩ := h
  obtain ⟨sub', hsub', horigin⟩ := hgrow.submissions s sub hsub
  obtain ⟨job', hjob', hbounty⟩ := hgrow.jobs sub.jobId job hjob
  have hjobId : sub'.jobId = sub.jobId := congrArg Prod.fst horigin
  have hworker : sub'.workerId = sub.workerId := congrArg Prod.snd horigin
  refine ⟨sub', job', hsub', by rw [hjobId, hjob'], ?_⟩
  rw [hjobId, hworker, hbounty, notesOf_append hhist, List.append_assoc]
  exact hsteps.append hdone

theorem Worked.grows (h : Worked later s g) (hgrow : g.world.Grows g'.world)
    (hhist : g'.hist = new ++ g.hist) : Worked later s g' :=
  h.after hgrow hhist (List.nil_sublist _)

theorem known_grows (h : ∃ sub, g.world.submissions s = some sub)
    (hgrow : g.world.Grows g'.world) : ∃ sub, g'.world.submissions s = some sub := by
  obtain ⟨sub, hsub⟩ := h
  obtain ⟨sub', hsub', -⟩ := hgrow.submissions s sub hsub
  exact ⟨sub', hsub'⟩

theorem DealNote.Holds.grows {n : DealNote} (h : n.Holds g) (hgrow : g.world.Grows g'.world)
    (hhist : g'.hist = new ++ g.hist) : n.Holds g' := by
  cases n with
  | read n =>
      cases n with
      | job j row =>
          obtain ⟨htraced, job, hjob, hbounty⟩ := h
          obtain ⟨job', hjob', hkept⟩ := hgrow.jobs j job hjob
          exact ⟨htraced.mono (notesOf_sublist hhist), job', hjob', hkept.trans hbounty⟩
      | submission s j => exact known_grows h hgrow
      | verified s => exact known_grows h hgrow
      | duplicate => trivial
  | passed s => exact Worked.grows h hgrow hhist
  | overridden s => exact Worked.grows h hgrow hhist
  | _ => trivial

/-- What a step has to show. -/
theorem Deals.step (h : Deals g) (hgrow : g.world.Grows g'.world)
    (hhist : g'.hist = new ++ g.hist)
    (hjobs : AllRows (Job.Traced (notesOf g')) g'.world.jobs)
    (hsubmissions : ∀ s sub, g'.world.submissions s = some sub →
      (∃ old, g.world.submissions s = some old) ∨ Worked [] s g')
    (hverifications : ∀ k v, g'.world.verifications k = some v →
      (∃ old, g.world.verifications k = some old) ∨ ∃ sub, g.world.submissions k.1 = some sub)
    (hpayouts : ∀ k p, g'.world.payouts k = some p →
      (∃ old, g.world.payouts k = some old) ∨
        ∃ n, Accepts p.submissionId n ∧ Worked [.owed k p.submissionId, n] p.submissionId g')
    (hnotes : ∀ e ∈ new, e.2.Holds g') : Deals g' := by
  refine ⟨hjobs, fun s sub hsub => ?_, fun k v hv => ?_, fun k p hp => ?_, fun e he => ?_⟩
  · obtain ⟨old, hold⟩ | hworked := hsubmissions s sub hsub
    · exact (h.submissions s old hold).grows hgrow hhist
    · exact hworked
  · obtain ⟨old, hold⟩ | hknown := hverifications k v hv
    · exact known_grows (h.verifications k old hold) hgrow
    · exact known_grows hknown hgrow
  · obtain ⟨old, hold⟩ | hpaid := hpayouts k p hp
    · obtain ⟨p', hp', hterms⟩ := hgrow.payouts k old hold
      obtain rfl : p = p' := Option.some.inj (hp.symm.trans hp')
      have hsubmission : p.submissionId = old.submissionId := congrArg Prod.fst hterms
      obtain ⟨n, haccepts, hworked⟩ := h.payouts k old hold
      rw [hsubmission]
      exact ⟨n, haccepts, hworked.grows hgrow hhist⟩
    · exact hpaid
  · rw [hhist] at he
    obtain he | he := List.mem_append.mp he
    · exact hnotes e he
    · exact (h.notes e he).grows hgrow hhist

/-- What a process has read of a submission. -/
theorem Deals.read_submission (h : Deals g) {pid s j : Nat}
    (hread : .submission s j ∈ rowsRead (own pid g.hist)) :
    ∃ sub, g.world.submissions s = some sub :=
  h.notes _ (mem_own.mp (mem_rowsRead.mp hread))

theorem Deals.read_verified (h : Deals g) {pid s : Nat}
    (hread : .verified s ∈ rowsRead (own pid g.hist)) :
    ∃ sub, g.world.submissions s = some sub :=
  h.notes _ (mem_own.mp (mem_rowsRead.mp hread))

theorem Deals.read_job (h : Deals g) {pid j : Nat} {row : Job}
    (hread : .job j row ∈ rowsRead (own pid g.hist)) :
    row.Traced (notesOf g) j ∧ ∃ job, g.world.jobs j = some job ∧ job.bountyId = row.bountyId :=
  h.notes _ (mem_own.mp (mem_rowsRead.mp hread))

end Steps

section Statements

variable {cfg : Config} {g g' : Glob World DealNote} {a : Actor Request} {x : Happening}
  {new : List (Nat × DealNote)}

/-- The row a handler writes has the lease and the bounty of the row it has read. -/
theorem JobRow.rewrites {ns : List RowNote} {q : Request} {j : Nat} {row new : Job}
    (h : JobRow ns q j row new) : new.Rewrites row := by
  cases h with
  | verifying i j key body row s _ _ => exact Job.verifyingAs_rewrites s
  | healed i j key body row s _ hnone _ _ _ _ => exact Job.healed_rewrites hnone
  | duplicate i j key body row s _ _ => exact Job.duplicateAs_rewrites s
  | requeued q body j row _ => exact Job.requeued_rewrites body
  | completed q body j row doneAt => exact Job.completed_rewrites body doneAt
  | markedDuplicate s j row => exact Job.markedDuplicate_rewrites
  | overridden s v score j row verdict sub => exact Job.overridden_rewrites verdict sub

/-- Giving a job back leaves no lease to account for. -/
theorem Job.Traced.unlease {ns : List DealNote} {j : Nat} {row : Job} (h : row.Traced ns j)
    (st : JobStatus) : (JobStmt.unlease st row).Traced ns j :=
  ⟨h.published, fun i hi => absurd hi (by simp [JobStmt.unlease])⟩

/-- A statement on `jobs` keeps them traced. -/
theorem Deals.job_write (h : Deals g) {s : JobStmt} (hexec : a.req.Executes (.job s))
    (hout : RowOut a.req (rowsRead (own a.pid g.hist)) (.job s)) :
    AllRows (Job.Traced (notesOf g)) (s.write g.world g.world.jobs) := by
  obtain ⟨pid, q⟩ := a
  cases Request.writes_job hexec with
  | release i j n =>
      simp only [JobStmt.write]
      split_ifs
      · exact h.jobs.modify fun r _ hr => hr.unlease _
      · exact h.jobs
  | reap t => exact h.jobs.modifyAll fun k _ r _ hr => hr.unlease _
  | update _ j new old _ =>
      obtain ⟨row, hread, hwrite⟩ := hout
      obtain ⟨htraced, job, hjob, hbounty⟩ := h.read_job (lastJob_mem hread)
      refine h.jobs.modify fun r hr hrtraced => ⟨hrtraced.published, fun i hi => ?_⟩
      obtain rfl : job = r := Option.some.inj (hjob.symm.trans hr)
      have hlease : row.leaseWorkerId = some i :=
        hwrite.rewrites.leaseWorkerId.symm.trans hi
      change [DealNote.claimed i j, .published job.bountyId].Sublist (notesOf g)
      rw [hbounty]
      exact htraced.claimed i hlease

/-- What has been read holds, if what is stored then is there. -/
theorem Deals.rows_hold (h : Deals g) (hgrow : g.world.Grows g'.world)
    (hhist : g'.hist = new ++ g.hist)
    (hsubmission : ∀ s row, x = .stmt (.submission (.insert s row)) true →
      ∃ sub, g'.world.submissions s = some sub)
    (hverification : ∀ k v, x = .stmt (.verification (.insert k v)) true →
      ∃ sub, g'.world.submissions k.1 = some sub) :
    ∀ n ∈ rowNotes a x g.world, (DealNote.read n).Holds g' := by
  intro n hn
  unfold rowNotes at hn
  split at hn
  · rename_i j _
    obtain ⟨row, hrow, rfl⟩ := List.mem_map.mp hn
    have hnow : (DealNote.read (.job j row)).Holds g :=
      ⟨h.jobs j row (by simpa using hrow), row, by simpa using hrow, rfl⟩
    exact hnow.grows hgrow hhist
  · obtain ⟨row, hrow, rfl⟩ := List.mem_map.mp hn
    exact known_grows ⟨row, by simpa using hrow⟩ hgrow
  · obtain ⟨⟨s, row⟩, hfound, rfl⟩ := List.mem_map.mp hn
    obtain ⟨hrow, -⟩ := submissionByKey_found (by simpa using hfound)
    exact known_grows ⟨row, hrow⟩ hgrow
  · rename_i s k _
    obtain ⟨v, hv, rfl⟩ := List.mem_map.mp hn
    exact known_grows (h.verifications (s, k) v (by simpa using hv)) hgrow
  · split_ifs at hn with hduplicate
    · obtain rfl := List.mem_singleton.mp hn
      trivial
    · exact absurd hn (by simp)
  · rename_i s row inserted
    cases inserted with
    | true =>
        obtain rfl := List.mem_singleton.mp hn
        exact hsubmission s row rfl
    | false => exact absurd hn (by simp)
  · rename_i k v inserted
    cases inserted with
    | true =>
        obtain rfl := List.mem_singleton.mp hn
        exact hverification k v rfl
    | false => exact absurd hn (by simp)
  · exact absurd hn (by simp)

/-- A pass is noted where a verification is finished with one. -/
theorem passed_mem {q : Request} {s : Nat} {w : World} (h : .passed s ∈ dealSteps q x w) :
    ∃ k v r, x = .stmt (.verification (.update k v)) r ∧ v.status = .finished ∧ k.1 = s := by
  unfold dealSteps at h
  split at h
  · exact absurd h (by simp)
  · split_ifs at h <;> exact absurd h (by simp)
  · rename_i s' row inserted
    split at h
    · cases inserted <;> exact absurd h (by simp)
    · exact absurd h (by simp)
  · rename_i k v r
    split_ifs at h with hpass
    · obtain rfl : s = k.1 := by simpa using h
      exact ⟨k, v, r, rfl, hpass.1, rfl⟩
    · exact absurd h (by simp)
  · split at h <;> exact absurd h (by simp)
  · exact absurd h (by simp)
  · exact absurd h (by simp)

/-- An override is noted where the admin's request writes the job. -/
theorem overridden_mem {q : Request} {s : Nat} {w : World} (h : .overridden s ∈ dealSteps q x w) :
    ∃ j row r score, x = .stmt (.job (.update j row)) r ∧
      q = .overrideVerdict s (some .pass) score := by
  unfold dealSteps at h
  split at h
  · exact absurd h (by simp)
  · split_ifs at h <;> exact absurd h (by simp)
  · rename_i s' row inserted
    split at h
    · cases inserted <;> exact absurd h (by simp)
    · exact absurd h (by simp)
  · split_ifs at h <;> exact absurd h (by simp)
  · rename_i j row r
    split at h
    · rename_i s' score
      obtain rfl : s = s' := by simpa using h
      exact ⟨j, row, r, score, rfl, rfl⟩
    · exact absurd h (by simp)
  · exact absurd h (by simp)
  · exact absurd h (by simp)

/-- The notes of an event come before those that were there. -/
theorem event_notes {w : World} :
    ((dealNotes a x w).map fun n => (a.pid, n)).map Prod.snd = dealNotes a x w := by
  rw [List.map_map]
  exact List.map_id _

/-- The steps of an event follow what has been done. -/
theorem Worked.noted {later steps : List DealNote} {s : Nat} (h : Worked later s g)
    (hgrow : g.world.Grows g'.world)
    (hhist : g'.hist = ((dealNotes a x g.world).map fun n => (a.pid, n)) ++ g.hist)
    (hsteps : steps.Sublist (dealSteps a.req x g.world)) : Worked (steps ++ later) s g' := by
  refine h.after hgrow hhist ?_
  rw [event_notes]
  exact hsteps.trans (List.sublist_append_left _ _)

/-- What an event notes holds after it, if what it is about is known. -/
theorem Deals.event_holds (h : Deals g) (hgrow : g.world.Grows g'.world)
    (hhist : g'.hist = ((dealNotes a x g.world).map fun n => (a.pid, n)) ++ g.hist)
    (hrows : ∀ n ∈ rowNotes a x g.world, (DealNote.read n).Holds g')
    (hsteps : ∀ n s, Accepts s n → n ∈ dealSteps a.req x g.world →
      ∃ sub, g.world.submissions s = some sub) :
    ∀ e ∈ (dealNotes a x g.world).map fun n => (a.pid, n), e.2.Holds g' := by
  have haccepted : ∀ n s, Accepts s n → n ∈ dealSteps a.req x g.world → Worked [n] s g' := by
    intro n s haccepts hn
    obtain ⟨sub, hsub⟩ := hsteps n s haccepts hn
    exact (h.submissions s sub hsub).noted hgrow hhist (List.singleton_sublist.mpr hn)
  intro e he
  obtain ⟨n, hn, rfl⟩ := List.mem_map.mp he
  obtain hn | hn := List.mem_append.mp hn
  · cases n with
    | read n => exact absurd (dealSteps_row _ hn) (by simp [DealNote.row?])
    | passed s => exact haccepted _ s .passed hn
    | overridden s => exact haccepted _ s .overridden hn
    | _ => trivial
  · obtain ⟨m, hm, rfl⟩ := List.mem_map.mp hn
    exact hrows m hm

end Statements

section Writes

variable {g g' : Glob World DealNote} {a : Actor Request} {busy : Lock → Bool} {s : Stmt}
  (h : Deals g) (hexec : a.req.Executes s) (hout : DealOut a.req (own a.pid g.hist) s)
  (hgrow : g.world.Grows g'.world) (hworld : g'.world = s.apply busy g.world)
  (hhist : g'.hist =
    ((dealNotes a (.stmt s (s.result busy g.world)) g.world).map fun n => (a.pid, n)) ++ g.hist)

include h hexec hout hgrow hworld hhist

/-- A submission is stored by who has claimed the job. -/
theorem Deals.stored {i : Nat} {sub : Submission} (hsub : g'.world.submissions i = some sub) :
    (∃ old, g.world.submissions i = some old) ∨ Worked [] i g' := by
  have hwrite := s.apply_submissions busy g.world
  rw [hworld, hwrite] at hsub
  cases s with
  | submission s =>
      cases s with
      | update k new => exact Or.inl (exists_of_modify hsub)
      | setPayoutStatus k st => exact Or.inl (exists_of_modify hsub)
      | insert k new =>
          simp only [SubmissionStmt.write] at hsub
          split_ifs at hsub with hfree
          · by_cases hi : i = k
            · subst hi
              refine Or.inr ?_
              obtain ⟨w, j, key, body, hreq⟩ := Request.inserts_submission hexec
              obtain ⟨row, hread, hlease⟩ := hout.reads w j key body hreq
              obtain ⟨htraced, job, hjob, hbounty⟩ := h.read_job hread
              rw [hreq] at hexec
              obtain ⟨hjobId, hworker, -⟩ := hexec
              have hnew : g'.world.submissions i = some new := by
                rw [hworld, hwrite]
                simp [SubmissionStmt.write, hfree]
              obtain ⟨job', hjob', hkept⟩ := hgrow.jobs j job hjob
              refine ⟨new, job', hnew, hjobId ▸ hjob', ?_⟩
              have hnoted : [DealNote.submitted w j i].Sublist
                  (dealSteps a.req (.stmt (.submission (.insert i new)) true) g.world) := by
                rw [hreq]
                exact List.Sublist.refl _
              have hdone := htraced.claimed w hlease
              rw [hkept, hbounty, hjobId, hworker, notesOf_append hhist, event_notes]
              have hresult : (Stmt.submission (.insert i new)).result busy g.world = true := hfree
              rw [hresult]
              exact (hnoted.trans (List.sublist_append_left _ _)).append hdone
            · exact Or.inl ⟨sub, by simpa [hi] using hsub⟩
          · exact Or.inl ⟨sub, hsub⟩
  | _ => exact Or.inl ⟨sub, hsub⟩

omit hexec hgrow hhist in
/-- A verification is of a submission that was read. -/
theorem Deals.verified {k : Nat × Nat} {v : Verification}
    (hv : g'.world.verifications k = some v) :
    (∃ old, g.world.verifications k = some old) ∨
      ∃ sub, g.world.submissions k.1 = some sub := by
  rw [hworld, s.apply_verifications busy g.world] at hv
  cases s with
  | verification s =>
      cases s with
      | update k' new => exact Or.inl (exists_of_modify hv)
      | insert k' new =>
          simp only [VerificationStmt.write] at hv
          split_ifs at hv with hfree
          · by_cases hk : k = k'
            · subst hk
              obtain ⟨j, hread⟩ := hout.reads
              exact Or.inr (h.read_submission hread)
            · exact Or.inl ⟨v, by simpa [hk] using hv⟩
          · exact Or.inl ⟨v, hv⟩
  | _ => exact Or.inl ⟨v, hv⟩

omit hexec in
/-- A payout is created for a submission that was accepted. -/
theorem Deals.created {k : Nat} {p : Payout} (hp : g'.world.payouts k = some p) :
    (∃ old, g.world.payouts k = some old) ∨
      ∃ n, Accepts p.submissionId n ∧ Worked [.owed k p.submissionId, n] p.submissionId g' := by
  rw [hworld, s.apply_payouts busy g.world] at hp
  cases s with
  | payout s =>
      cases s with
      | upsert i new =>
          simp only [PayoutStmt.write] at hp
          split_ifs at hp with hclash
          · exact Or.inl ⟨p, hp⟩
          · by_cases hk : k = PayoutStmt.target i new g.world
            · cases hold : g.world.payouts k with
              | some old => exact Or.inl ⟨old, rfl⟩
              | none =>
                  refine Or.inr ?_
                  obtain rfl : new = p := by
                    rw [← hk, hold] at hp
                    simpa [PayoutStmt.upserted] using hp
                  have hnoted : [DealNote.owed k new.submissionId].Sublist (dealSteps a.req
                      (.stmt (.payout (.upsert i new))
                        ((Stmt.payout (.upsert i new)).result busy g.world)) g.world) := by
                    have hresult : (Stmt.payout (.upsert i new)).result busy g.world =
                        some (k, PayoutStmt.upserted new (g.world.payouts k)) := by
                      rw [hk]
                      exact if_neg hclash
                    rw [hresult]
                    exact List.Sublist.refl _
                  obtain hpassed | hoverridden := hout.passes
                  · have hdone : Worked [.passed new.submissionId] new.submissionId g :=
                      h.notes _ (mem_own.mp hpassed)
                    exact ⟨_, .passed, hdone.noted hgrow hhist hnoted⟩
                  · have hdone : Worked [.overridden new.submissionId] new.submissionId g :=
                      h.notes _ (mem_own.mp hoverridden)
                    exact ⟨_, .overridden, hdone.noted hgrow hhist hnoted⟩
            · exact Or.inl ⟨p, by simpa [hk] using hp⟩
      | lock i => exact Or.inl ⟨p, hp⟩
      | unblockWorker i => exact Or.inl (exists_of_modifyAll hp)
      | _ => exact Or.inl (exists_of_modify hp)
  | _ => exact Or.inl ⟨p, hp⟩

/-- A statement that is not part of a transaction. -/
theorem Deals.stmt : Deals g' := by
  refine h.step hgrow hhist ?_ (fun i sub => h.stored hexec hout hgrow hworld hhist)
    (fun k v => h.verified hout hworld) (fun k p => h.created hout hgrow hworld hhist) ?_
  · rw [hworld, s.apply_jobs busy g.world]
    have hmono : ∀ {tbl : Nat → Option Job}, AllRows (Job.Traced (notesOf g)) tbl →
        AllRows (Job.Traced (notesOf g')) tbl :=
      fun hall j row hrow => (hall j row hrow).mono (notesOf_sublist hhist)
    cases s with
    | job s => exact hmono (h.job_write hexec hout.rows)
    | _ => exact hmono h.jobs
  · refine h.event_holds hgrow hhist (h.rows_hold hgrow hhist ?_ ?_) ?_
    · intro i row hx
      obtain ⟨rfl, hfree⟩ : s = .submission (.insert i row) ∧ SubmissionStmt.free i row g.world := by
        injection hx with hs hr
        subst hs
        exact ⟨rfl, eq_of_heq hr⟩
      refine ⟨row, ?_⟩
      rw [hworld, Stmt.apply_submissions]
      simp [SubmissionStmt.write, hfree]
    · intro k v hx
      obtain rfl : s = .verification (.insert k v) := by injection hx
      obtain ⟨j, hread⟩ := hout.reads
      exact known_grows (h.read_submission hread) hgrow
    · intro n i haccepts hn
      cases haccepts with
      | passed =>
          obtain ⟨k, v, r, hx, hfinished, rfl⟩ := passed_mem hn
          obtain rfl : s = .verification (.update k v) := by injection hx
          exact h.read_verified (hout.reads hfinished)
      | overridden =>
          obtain ⟨j, row, r, score, hx, hreq⟩ := overridden_mem hn
          obtain rfl : s = .job (.update j row) := by injection hx
          obtain ⟨j', hread⟩ := hout.reads i (some .pass) score hreq
          exact h.read_submission hread

end Writes

/-- A job that could be leased can be leased later. -/
theorem leasable_later {t now : Nat} {job : Job} (h : JobStmt.leasable t job = true)
    (hle : t ≤ now) : JobStmt.leasable now job = true := by
  simp only [JobStmt.leasable] at h ⊢
  cases hstatus : job.status with
  | opened => rfl
  | claimed =>
      rw [hstatus] at h
      obtain ⟨e, he, hlt⟩ := (Option.any_eq_true _ _).mp h
      have hlt : e < t := of_decide_eq_true hlt
      exact (Option.any_eq_true _ _).mpr ⟨e, he, decide_eq_true (Nat.lt_of_lt_of_le hlt hle)⟩
  | _ =>
      rw [hstatus] at h
      exact absurd h (by simp)

section Commits

variable {cfg : Config} {g g' : Glob World DealNote} {a : Actor Request} {t : Tag}
  {hold : Lock → World → World → Prop} {L : List Lock}

/-- A commit that leases a job or publishes a bounty notes it. -/
theorem Deals.commit_jobs (h : Deals g) (heffect : t.Effect cfg hold a.pid L g.world g'.world)
    (hhist : g'.hist = ((dealNotes a (.commit t) g.world).map fun n => (a.pid, n)) ++ g.hist) :
    AllRows (Job.Traced (notesOf g')) g'.world.jobs := by
  have hmono : AllRows (Job.Traced (notesOf g')) g.world.jobs :=
    fun j row hrow => (h.jobs j row hrow).mono (notesOf_sublist hhist)
  have hnotes := notesOf_append hhist
  rw [event_notes] at hnotes
  cases heffect.jobsCommit with
  | same _ hsame =>
      rw [hsame]
      exact hmono
  | leased j i _ hleased =>
      obtain ⟨e, n, t, w₀, ht, hgrow, -, -, hleasable, hw⟩ := hleased
      have hnow : (g.world.jobs j).any (JobStmt.leasable g.world.now) = true := by
        obtain ⟨row, hrow, hfree⟩ := (Option.any_eq_true _ _).mp hleasable
        exact (Option.any_eq_true _ _).mpr ⟨row, hrow, leasable_later hfree (Nat.le_trans ht hgrow.now)⟩
      have hnoted : dealNotes a (.commit (.leaseJob j i)) g.world = [.claimed i j] := by
        simp [dealNotes, dealSteps, rowNotes, hnow]
      have hjobs : g'.world.jobs = modify g.world.jobs j (JobStmt.lease' i e n) := by rw [hw]
      rw [hjobs]
      refine hmono.modify fun row hrow htraced => ⟨htraced.published, fun i' hi' => ?_⟩
      obtain rfl : i = i' := Option.some.inj hi'
      rw [hnotes, hnoted]
      exact ((h.jobs j row hrow).published).cons_cons _
  | published b bounty _ _ hjobs =>
      obtain ⟨-, hsame⟩ | ⟨w₀, -, -, hadds⟩ := hjobs
      · rw [hsame]
        exact hmono
      · intro j row hrow
        cases hold : g.world.jobs j with
        | some old =>
            obtain rfl : old = row := Option.some.inj ((hadds.kept hold).symm.trans hrow)
            exact hmono j old hold
        | none =>
            obtain ⟨-, fp, sla, now, rfl⟩ := hadds.new hold hrow
            refine ⟨?_, fun i hi => absurd hi (by simp [Job.fresh])⟩
            rw [hnotes]
            exact (List.nil_sublist _).cons_cons _

/-- A commit. -/
theorem Deals.commit (h : Deals g) (heffect : t.Effect cfg hold a.pid L g.world g'.world)
    (hgrow : g.world.Grows g'.world)
    (hhist : g'.hist = ((dealNotes a (.commit t) g.world).map fun n => (a.pid, n)) ++ g.hist) :
    Deals g' := by
  obtain ⟨hreversed, -, hverifications⟩ := heffect.submissions
  refine h.step hgrow hhist (h.commit_jobs heffect hhist) (fun i sub hsub => ?_)
    (fun k v hv => Or.inl ⟨v, by rwa [hverifications] at hv⟩) (fun k p hp => ?_) ?_
  · obtain ⟨row, st, hrow, -⟩ := hreversed.row hsub
    exact Or.inl ⟨row, hrow⟩
  · obtain ⟨old, hold, -⟩ := heffect.payout_of hp
    exact Or.inl ⟨old, hold⟩
  · refine h.event_holds hgrow hhist
      (fun n hn => absurd hn (by simp [rowNotes])) fun n i haccepts hn => ?_
    cases haccepts with
    | passed =>
        obtain ⟨k, v, r, hx, -⟩ := passed_mem hn
        exact absurd hx (by simp)
    | overridden =>
        obtain ⟨j, row, r, score, hx, -⟩ := overridden_mem hn
        exact absurd hx (by simp)

/-- A statement of a transaction. -/
theorem Deals.inner (h : Deals g) {s : Stmt} {r : s.Val} (hinner : s.Inner cfg g.world)
    (hgrow : g.world.Grows g'.world)
    (hjobs : g'.world.jobs = g.world.jobs)
    (hsubmissions : g'.world.submissions = g.world.submissions)
    (hverifications : g'.world.verifications = g.world.verifications)
    (hpayouts : g'.world.payouts = g.world.payouts)
    (hhist : g'.hist = ((dealNotes a (.stmt s r) g.world).map fun n => (a.pid, n)) ++ g.hist) :
    Deals g' := by
  refine h.step hgrow hhist ?_ (fun i sub hsub => Or.inl ⟨sub, by rwa [hsubmissions] at hsub⟩)
    (fun k v hv => Or.inl ⟨v, by rwa [hverifications] at hv⟩)
    (fun k p hp => Or.inl ⟨p, by rwa [hpayouts] at hp⟩) ?_
  · rw [hjobs]
    exact fun j row hrow => (h.jobs j row hrow).mono (notesOf_sublist hhist)
  · refine h.event_holds hgrow hhist (h.rows_hold hgrow hhist (fun i row hx => ?_) fun k v hx => ?_)
      fun n i haccepts hn => ?_
    · obtain rfl : s = .submission (.insert i row) := by injection hx
      exact hinner.elim
    · obtain rfl : s = .verification (.insert k v) := by injection hx
      exact hinner.elim
    · cases haccepts with
      | passed =>
          obtain ⟨k, v, r', hx, -⟩ := passed_mem hn
          obtain rfl : s = .verification (.update k v) := by injection hx
          exact hinner.elim
      | overridden =>
          obtain ⟨j, row, r', score, hx, -⟩ := overridden_mem hn
          obtain rfl : s = .job (.update j row) := by injection hx
          exact hinner.elim

end Commits

/-- The plan: what is stored goes back to the work. -/
def dealPlan (cfg : Config) : Plan (system cfg dealNotes) :=
  { systemPlan cfg dealNotes (fun _ _ => true) (fun _ => True) Deals (fun _ _ _ => True)
      (fun _ _ _ => True) with
    conduct := fun a => (Request.conduct cfg (fun _ _ _ => True) a).and (dealConduct a) }

theorem dealPlan_inv_step {cfg : Config} {l : Step} {L : List Lock} {g g' : Glob World DealNote}
    (h : (dealPlan cfg).Move l L g g') : Deals g' := by
  have hgrow : g.world.Grows g'.world := Conducted.grows
    (fun a g t L w (hcom : (a.req.Ends t ∧ t.Effect cfg (fun _ _ _ => True) a.pid L g.world w) ∧ _) =>
      hcom.1.2.grows) h.conducted
  obtain ⟨hinv, -, hstep⟩ := h
  have hinv : Deals g := hinv
  cases hstep with
  | stmt a s busy _ _ _ hout =>
      exact hinv.stmt hout.1.1 hout.2 hgrow rfl rfl
  | inner a s busy v _ _ hinside =>
      exact hinv.inner hinside.1 hgrow (Stmt.effect_jobs s busy (v g.world) g.world)
        (Stmt.effect_submissions s busy (v g.world) g.world)
        (Stmt.effect_verifications s busy (v g.world) g.world)
        (Stmt.effect_payouts s busy (v g.world) g.world) rfl
  | commit a t L v _ _ hcom => exact hinv.commit hcom.1.2 hgrow rfl
  | reply a x _ _ _ =>
      exact hinv.step hgrow (rfl : _ = [] ++ g.hist) hinv.jobs (fun i sub hsub => Or.inl ⟨sub, hsub⟩)
        (fun k v hv => Or.inl ⟨v, hv⟩) (fun k p hp => Or.inl ⟨p, hp⟩) (by simp)
  | env e _ =>
      have hjobs : (e.apply g.world).jobs = g.world.jobs := by cases e <;> rfl
      have hsubmissions : (e.apply g.world).submissions = g.world.submissions := by cases e <;> rfl
      have hverifications : (e.apply g.world).verifications = g.world.verifications := by
        cases e <;> rfl
      have hpayouts : (e.apply g.world).payouts = g.world.payouts := by cases e <;> rfl
      refine hinv.step hgrow (rfl : _ = [] ++ g.hist) ?_
        (fun i sub hsub => Or.inl ⟨sub, (congrFun hsubmissions i).symm.trans hsub⟩)
        (fun k v hv => Or.inl ⟨v, (congrFun hverifications k).symm.trans hv⟩)
        (fun k p hp => Or.inl ⟨p, (congrFun hpayouts k).symm.trans hp⟩) (by simp)
      exact fun j row hrow => hinv.jobs j row ((congrFun hjobs j).symm.trans hrow)

theorem dealPlan_valid (cfg : Config) : (dealPlan cfg).Valid where
  grow_trans _ _ _ := World.Grows.trans
  grow_refl := World.Grows.refl
  hold_trans _ _ _ _ _ _ := trivial
  drift_refl _ _ := trivial
  drift_trans _ _ _ _ _ _ := trivial
  spawn _ _ _ := trivial
  does i q _ := ((Request.code_does (fun _ _ h => h) i q).and (q.deals_does fun _ _ h => h)).mono
    (fun _ _ _ _ _ _ => trivial) (fun _ _ _ => trivial) (fun _ _ _ h => h) (fun _ _ _ _ h => h)
    fun _ _ _ _ h => h
  inv_step _ _ _ _ := dealPlan_inv_step
  grow_step _ _ _ _ h := Conducted.grows
    (fun a g t L w (hcom : (a.req.Ends t ∧ t.Effect cfg (fun _ _ _ => True) a.pid L g.world w) ∧ _) =>
      hcom.1.2.grows) h.conducted
  hold_step _ _ _ _ _ _ _ := trivial
  drift_step _ _ _ _ _ _ _ := trivial

/-- No work has begun: there is no job, and nothing that comes after one. -/
structure World.Untouched (w : World) : Prop where
  jobs : ∀ j, w.jobs j = none
  submissions : ∀ s, w.submissions s = none
  verifications : ∀ k, w.verifications k = none
  payouts : ∀ p, w.payouts p = none
  payoutOf : ∀ s, w.payoutOf s = none
  chain : w.outside.chain = []

/-- Payout `k` is what the bounty of its submission pays, to the worker who claimed the job
after the bounty was published and submitted after that, and it was created after the
submission was accepted. -/
def Earned (g : Glob World DealNote) (k : Nat) (p : Payout) : Prop :=
  ∃ sub job bounty n, g.world.submissions p.submissionId = some sub ∧
    g.world.jobs sub.jobId = some job ∧ g.world.bounties job.bountyId = some bounty ∧
    p.workerId = sub.workerId ∧ p.amountCents = bounty.payoutCents ∧ Accepts p.submissionId n ∧
    (.owed k p.submissionId :: n ::
      workSteps p.submissionId sub.workerId sub.jobId job.bountyId).Sublist (notesOf g)

section Payments

variable {cfg : Config} {w : World} {g : Glob World DealNote}

theorem World.Untouched.deals (h : w.Untouched) : Deals ⟨[], w⟩ where
  jobs j row hrow := absurd ((h.jobs j).symm.trans hrow) (by simp)
  submissions s sub hsub := absurd ((h.submissions s).symm.trans hsub) (by simp)
  verifications k v hv := absurd ((h.verifications k).symm.trans hv) (by simp)
  payouts k p hp := absurd ((h.payouts k).symm.trans hp) (by simp)
  notes e he := absurd he (by simp)

theorem World.Untouched.conserved (h : w.Untouched) : Conserved w where
  rows k p hp := absurd ((h.payouts k).symm.trans hp) (by simp)
  index s k hk := absurd ((h.payoutOf s).symm.trans hk) (by simp)
  chain tx htx := by
    rw [h.chain] at htx
    exact absurd htx (by simp)

/-- A payout goes back to the work its amount and worker are those of. -/
theorem Deals.earned (h : Deals g) (hconserved : Conserved g.world) {k : Nat} {p : Payout}
    (hp : g.world.payouts k = some p) : Earned g k p := by
  obtain ⟨n, haccepts, sub, job, hsub, hjob, hdone⟩ := h.payouts k p hp
  obtain ⟨⟨sub', job', bounty, hsub', hjob', hbounty, hworker, hcents⟩, -⟩ :=
    hconserved.rows k p hp
  obtain rfl : sub = sub' := Option.some.inj (hsub.symm.trans hsub')
  obtain rfl : job = job' := Option.some.inj (hjob.symm.trans hjob')
  exact ⟨sub, job, bounty, n, hsub, hjob, hbounty, hworker.symm, hcents.symm, haccepts, hdone⟩

/-- A run in which payouts and transactions add up, whatever is noted of it. -/
theorem splits_renoted {cs : List Pick} {c : State DealNote} (hw : w.Untouched)
    (hrun : (system cfg dealNotes).exec (fun _ _ => true) cs (Sys.start w) = some c) :
    ∃ hist, (system cfg noNotes).exec anyStep cs (Sys.start w) = some (c.renote hist) ∧
      Conserved c.glob.world := by
  have hok : ∀ l (g : Glob World DealNote) hist, (fun _ _ => true : Step → _ → Bool) l g = true →
      anyStep l ⟨hist, g.world⟩ = true := fun _ _ _ _ => rfl
  obtain ⟨hist, hrenoted⟩ := Machine.exec_renote noNotes hok hrun []
  exact ⟨hist, hrenoted, (splitPlan_valid cfg).exec_inv hw.conserved hrenoted⟩

/-- **Every payment has been earned**, in every run from a system in which no work has
begun: every payout, every transaction the chain has accepted, with the amount of its
payout, and every payment a provider is asked to make. -/
theorem payments_earned {cs : List Pick} {c : State DealNote} (hw : w.Untouched)
    (hrun : (system cfg dealNotes).exec (fun _ _ => true) cs (Sys.start w) = some c) :
    (∀ k p, c.glob.world.payouts k = some p → Earned c.glob k p) ∧
    (∀ tx ∈ c.glob.world.outside.chain, ∃ p, c.glob.world.payouts tx.payoutId = some p ∧
      Earned c.glob tx.payoutId p ∧ tx.call.total = p.amountCents * 10000) ∧
    ∀ ch c' a mock k n r, (system cfg dealNotes).move ch c =
        some (.event a (.stmt (.outside (.createPayout mock k n)) r), c') →
      ∃ (p : Payout) (fees : Fees), c.glob.world.payouts k = some p ∧ Earned c.glob k p ∧
        n = fees.netAmountCents ∧ fees.total = p.amountCents := by
  have hdeals : Deals c.glob := (dealPlan_valid cfg).exec_inv hw.deals hrun
  obtain ⟨hist, hrenoted, hconserved⟩ := splits_renoted hw hrun
  refine ⟨fun k p hp => hdeals.earned hconserved hp, fun tx htx => ?_,
    fun ch c' a mock k n r hmove => ?_⟩
  · obtain ⟨p, fees, hp, hcarries, htotal⟩ := hconserved.chain tx htx
    exact ⟨p, hp, hdeals.earned hconserved hp, by rw [hcarries.total, htotal]⟩
  · obtain ⟨hist', hmoved⟩ := Machine.move_renote noNotes hmove hist
    obtain ⟨-, hquiet⟩ | ⟨a, x, L, hl, h⟩ | ⟨e, hl, -⟩ :=
      (splitPlan_valid cfg).exec_step hw.conserved hrenoted hmoved rfl
    · exact absurd rfl (hquiet a _)
    · obtain ⟨-, -, hstep⟩ := h
      rw [← hl] at hstep
      have hworld : (c.renote hist).glob.world = c.glob.world := rfl
      generalize (c.renote hist).glob = g at hstep hworld
      generalize (c'.renote hist').glob = g' at hstep
      cases hstep with
      | stmt _ _ busy _ _ _ hout =>
          obtain ⟨fees, ⟨p, bps, wallet, hp, -, hfees⟩, hn⟩ := hout.2
          rw [hworld] at hp
          exact ⟨p, fees, hp, hdeals.earned hconserved hp, hn, splitFees_total hfees⟩
      | inner _ _ busy v _ _ hinner => exact (hinner : False).elim
    · exact absurd hl (by simp)

end Payments

/-- A draft bounty of a funded organisation, and a worker with a payout address. -/
def startWorld : World :=
  { World.empty with
    nextId := 5
    orgs := Function.update World.empty.orgs 9 (some ⟨none, none, none, 500, some 8⟩)
    workers := Function.update World.empty.workers 3 (some ⟨some 7, true, some 0⟩)
    accounts := Function.update World.empty.accounts 9 (some ⟨1000⟩)
    bounties := Function.update World.empty.bounties 1
      (some ⟨9, .draft, [], [7], 100, 0, 0, none⟩) }

theorem startWorld_untouched : startWorld.Untouched :=
  ⟨fun _ => rfl, fun _ => rfl, fun _ => rfl, fun _ => rfl, fun _ => rfl, rfl⟩

/-- Publication, claim, submission, verification with a pass, and one round of the payout
worker. -/
def workAndPay : List Pick :=
  ([.spawn (.publish 9 1 [])] : List Pick) ++ @List.replicate Pick 17 (.run 0) ++
    ([.spawn (.claim 3 5)] : List Pick) ++ @List.replicate Pick 13 (.run 1) ++
    ([.spawn (.submit 3 5 none ⟨⟨1, 8, .absent, 0⟩, [], none⟩)] : List Pick) ++
    @List.replicate Pick 14 (.run 2) ++
    ([.spawn (.verifierClaim ⟨7, 1, 7, 600⟩)] : List Pick) ++ @List.replicate Pick 9 (.run 3) ++
    ([.spawn (.verifierVerdict ⟨7, 1, 9, .pass, "ok", 100⟩)] : List Pick) ++
    @List.replicate Pick 23 (.run 4) ++
    ([.spawn .payoutRunner] : List Pick) ++ @List.replicate Pick 24 (.run 5)

theorem payments_earned_paid :
    ∃ c tx p, (system Config.crypto dealNotes).exec (fun _ _ => true) workAndPay
        (Sys.start startWorld) = some c ∧
      tx ∈ c.glob.world.outside.chain ∧ c.glob.world.payouts tx.payoutId = some p ∧
      Earned c.glob tx.payoutId p ∧ tx.call.total = p.amountCents * 10000 := by
  obtain ⟨c, hrun, h⟩ := runs Config.crypto dealNotes (fun _ _ => true) workAndPay startWorld
    (fun c => !c.glob.world.outside.chain.isEmpty) (by decide)
  have hne : c.glob.world.outside.chain ≠ [] := by simpa using h
  obtain ⟨tx, htx⟩ := List.exists_mem_of_ne_nil _ hne
  obtain ⟨p, hp, hearned, htotal⟩ := (payments_earned startWorld_untouched hrun).2.1 tx htx
  exact ⟨c, tx, p, hrun, htx, hp, hearned, htotal⟩

end OpenUnion
