import OpenUnion.Code.SubmissionRows
import OpenUnion.Safety.Basic

/-!
# Verdicts and payouts

A payout is created when a verdict passes.  A later verdict (a second verification, an
admin's override or duplicate mark) rewrites submission and job, and nothing looks at the
payout any more.

* `verdicts_cohere`: as long as no pass is taken back from under a payout that is due, and
  no payout gets due without a pass, a payout that is due has a submission and a job that
  have passed.
* `overridden_payout_stays_due`: a run in which an admin overrides a pass, and the payout
  stays as it is.
-/

namespace OpenUnion

open Interleave

/-- Pending, and not blocked. -/
def Payout.isDue (p : Payout) : Bool := decide (p.status = .pending ∧ p.blockedReason = none)

/-- The last verdict on the submission, and on its job, is a pass. -/
def Passed (submissionId : Nat) (w : World) : Prop :=
  ∃ sub job, w.submissions submissionId = some sub ∧ sub.finalVerdict = some .pass ∧
    w.jobs sub.jobId = some job ∧ job.finalVerdict = some .pass

/-- What is due has passed. -/
def Coherent (w : World) : Prop :=
  AllRows (fun _ p => p.isDue = true → Passed p.submissionId w) w.payouts

/-- The step takes no pass back from under a payout that is due, and makes no payout due
whose submission and job have not passed. -/
def KeepsVerdicts : Step → Glob World Unit → Prop
  | .event _ (.stmt (.submission (.update i new)) _), g =>
      new.finalVerdict = some .pass ∨
        ∀ p row, g.world.payouts p = some row → row.isDue = true → row.submissionId ≠ i
  | .event _ (.stmt (.job (.update j new)) _), g =>
      new.finalVerdict = some .pass ∨
        ∀ p row sub, g.world.payouts p = some row → row.isDue = true →
          g.world.submissions row.submissionId = some sub → sub.jobId ≠ j
  | .event _ (.stmt (.payout (.upsert i new)) _), g =>
      (g.world.payouts (PayoutStmt.target i new g.world)).isSome ∨
        Passed new.submissionId g.world
  | .event _ (.stmt (.payout (.setStatus p .pending _ _)) _), g =>
      ∀ row, g.world.payouts p = some row → row.blockedReason = none →
        Passed row.submissionId g.world
  | .event _ (.commit (.cancelDispute d)), g | .event _ (.commit (.resolveDispute d false)), g =>
      ∀ dispute p row, g.world.disputes d = some dispute → dispute.status = .opened →
        dispute.payoutId = some p → g.world.payouts p = some row → row.status = .pending →
        Passed row.submissionId g.world
  | .event _ (.commit (.unblockPayouts i)), g =>
      ∀ p row, g.world.payouts p = some row → PayoutStmt.waitsFor i row = true →
        Passed row.submissionId g.world
  | _, _ => True

section Steps

variable {w w' : World} {s : Nat}

/-- Verdicts that stay. -/
theorem Passed.kept (h : Passed s w)
    (hsubmissions : Persists (fun r : Submission => (r.jobId, r.finalVerdict)) w.submissions
      w'.submissions)
    (hjobs : Persists Job.finalVerdict w.jobs w'.jobs) : Passed s w' := by
  obtain ⟨sub, job, hsub, hpass, hjob, hjobPass⟩ := h
  obtain ⟨sub', hsub', hsame⟩ := hsubmissions s sub hsub
  obtain ⟨job', hjob', hjobSame⟩ := hjobs _ job hjob
  simp only [Prod.mk.injEq] at hsame
  refine ⟨sub', job', hsub', hsame.2.trans hpass, ?_, hjobSame.trans hjobPass⟩
  rw [hsame.1, hjob']

/-- A step that rewrites no verdict and makes no payout due. -/
theorem Coherent.kept (h : Coherent w)
    (hsubmissions : Persists (fun r : Submission => (r.jobId, r.finalVerdict)) w.submissions
      w'.submissions)
    (hjobs : Persists Job.finalVerdict w.jobs w'.jobs)
    (hpayouts : ∀ p row', w'.payouts p = some row' → row'.isDue = true →
      Passed row'.submissionId w ∨
        ∃ row, w.payouts p = some row ∧ row.isDue = true ∧ row.submissionId = row'.submissionId) :
    Coherent w' := by
  intro p row' hrow' hdue
  obtain hpassed | ⟨row, hrow, hrowDue, hsame⟩ := hpayouts p row' hrow' hdue
  · exact hpassed.kept hsubmissions hjobs
  · exact hsame ▸ (h p row hrow hrowDue).kept hsubmissions hjobs

/-- Only an update rewrites the verdict of a submission. -/
theorem SubmissionStmt.persists_verdict (st : SubmissionStmt) (hst : ∀ i new, st ≠ .update i new) :
    Persists (fun r : Submission => (r.jobId, r.finalVerdict)) w.submissions
      (st.write w w.submissions) := by
  cases st with
  | insert i row =>
      refine Persists.ite fun hfree => .insert ?_
      simp only [SubmissionStmt.free, Bool.and_eq_true] at hfree
      exact Option.isNone_iff_eq_none.mp hfree.1
  | update i new => exact absurd rfl (hst i new)
  | setPayoutStatus i status => exact .modify fun _ => rfl

/-- Only an update rewrites the verdict of a job. -/
theorem JobStmt.persists_verdict (st : JobStmt) (hst : ∀ j new, st ≠ .update j new) :
    Persists Job.finalVerdict w.jobs (st.write w w.jobs) := by
  cases st with
  | lease j i e n t => exact Persists.ite fun _ => .modify fun _ => rfl
  | release j i n => exact Persists.ite fun _ => .modify fun _ => rfl
  | reap t => exact .modifyAll fun _ => rfl
  | update j new => exact absurd rfl (hst j new)
  | insert j row =>
      exact Persists.ite fun hfree => .insert (Option.isNone_iff_eq_none.mp hfree)

/-- Commits rewrite no verdict. -/
theorem Tag.Effect.verdicts {cfg : Config} {hold : Lock → World → World → Prop} {pid : Nat}
    {t : Tag} {L : List Lock} (h : t.Effect cfg hold pid L w w') :
    Persists (fun r : Submission => (r.jobId, r.finalVerdict)) w.submissions w'.submissions ∧
      Persists Job.finalVerdict w.jobs w'.jobs := by
  refine ⟨h.submissions.1.persists fun _ _ => rfl, ?_⟩
  cases h.jobsCommit with
  | same _ hsame => exact hsame ▸ .refl
  | leased j i _ hleased =>
      obtain ⟨e, n, t, w₀, -, -, -, -, -, rfl⟩ := hleased
      exact .modify fun _ => rfl
  | published b bounty _ _ hjobs =>
      obtain ⟨-, hsame⟩ | ⟨w₀, -, -, hadds⟩ := hjobs
      · exact hsame ▸ .refl
      · exact fun k r hr => ⟨r, hadds.kept hr, rfl⟩

/-- A payout that is due after a statement was due before, or has passed. -/
theorem PayoutStmt.due_after {q : Request} {st : PayoutStmt} {r : st.Val} {a : Actor Request}
    {hist : List (Nat × Unit)} (hexec : q.Executes (.payout st))
    (hok : KeepsVerdicts (.event a (.stmt (.payout st) r)) ⟨hist, w⟩) :
    ∀ p row', st.write w w.payouts p = some row' → row'.isDue = true →
      Passed row'.submissionId w ∨
        ∃ row, w.payouts p = some row ∧ row.isDue = true ∧ row.submissionId = row'.submissionId := by
  intro p row' hrow' hdue
  obtain ⟨id, new, rfl, -⟩ | ⟨i, fees, rfl⟩ | ⟨i, status, pr, ref, rfl⟩ | ⟨i, rfl⟩ :=
    Request.executes_payout hexec
  · simp only [PayoutStmt.write] at hrow'
    split_ifs at hrow' with hclash
    · exact Or.inr ⟨row', hrow', hdue, rfl⟩
    by_cases hp : p = PayoutStmt.target id new w
    · subst hp
      cases hold : w.payouts (PayoutStmt.target id new w) with
      | some old =>
          rw [hold, Function.update_self, Option.some.injEq] at hrow'
          subst hrow'
          exact Or.inr ⟨old, rfl, hdue, rfl⟩
      | none =>
          rw [hold, Function.update_self, Option.some.injEq] at hrow'
          subst hrow'
          simp only [KeepsVerdicts, hold, Option.isSome_none, Bool.false_eq_true, false_or] at hok
          exact Or.inl hok
    · exact Or.inr ⟨row', by simpa [hp] using hrow', hdue, rfl⟩
  · obtain ⟨row, hrow⟩ := exists_of_modify hrow'
    obtain rfl := Option.some.inj ((modify_eq_some hrow).symm.trans hrow')
    refine Or.inr ⟨row, hrow, ?_, by split_ifs <;> rfl⟩
    split_ifs at hdue <;> exact hdue
  · obtain ⟨row, hrow⟩ := exists_of_modify hrow'
    obtain rfl := Option.some.inj ((modify_eq_some hrow).symm.trans hrow')
    split_ifs at hdue ⊢ with hp
    · subst hp
      have hdue' : status = .pending ∧ row.blockedReason = none := of_decide_eq_true hdue
      obtain ⟨rfl, hblocked⟩ := hdue'
      exact Or.inl (hok row hrow hblocked)
    · exact Or.inr ⟨row, hrow, hdue, rfl⟩
  · obtain ⟨row, hrow⟩ := exists_of_modify hrow'
    obtain rfl := Option.some.inj ((modify_eq_some hrow).symm.trans hrow')
    refine Or.inr ⟨row, hrow, ?_, by split_ifs <;> rfl⟩
    split_ifs at hdue with hp hpending
    · simp [Payout.isDue] at hdue
    · exact hdue
    · exact hdue

/-- A verdict on a submission that keeps what is due. -/
theorem Coherent.judgeSubmission (h : Coherent w) {i : Nat} {new : Submission}
    (hok : new.finalVerdict = some .pass ∨
      ∀ p row, w.payouts p = some row → row.isDue = true → row.submissionId ≠ i)
    (hpayouts : w'.payouts = w.payouts) (hjobs : w'.jobs = w.jobs)
    (hsubmissions : w'.submissions = modify w.submissions i (SubmissionStmt.assign new)) :
    Coherent w' := by
  intro p row hrow hdue
  rw [hpayouts] at hrow
  obtain ⟨sub, job, hsub, hpass, hjob, hjobPass⟩ := h p row hrow hdue
  refine ⟨_, job, hsubmissions ▸ modify_eq_some hsub, ?_, ?_, hjobPass⟩
  · split_ifs with hi
    · obtain hnew | hnone := hok
      · exact hnew
      · exact absurd hi (hnone p row hrow hdue)
    · exact hpass
  · rw [hjobs]
    split_ifs <;> exact hjob

/-- A verdict on a job that keeps what is due. -/
theorem Coherent.judgeJob (h : Coherent w) {j : Nat} {new : Job}
    (hok : new.finalVerdict = some .pass ∨
      ∀ p row sub, w.payouts p = some row → row.isDue = true →
        w.submissions row.submissionId = some sub → sub.jobId ≠ j)
    (hpayouts : w'.payouts = w.payouts) (hsubmissions : w'.submissions = w.submissions)
    (hjobs : w'.jobs = modify w.jobs j (JobStmt.assign new)) : Coherent w' := by
  intro p row hrow hdue
  rw [hpayouts] at hrow
  obtain ⟨sub, job, hsub, hpass, hjob, hjobPass⟩ := h p row hrow hdue
  refine ⟨sub, _, hsubmissions ▸ hsub, hpass, hjobs ▸ modify_eq_some hjob, ?_⟩
  split_ifs with hj
  · obtain hnew | hnone := hok
    · exact hnew
    · exact absurd hj (hnone p row sub hrow hdue hsub)
  · exact hjobPass

/-- A statement outside transactions that keeps verdicts. -/
theorem Coherent.stmt {q : Request} {st : Stmt} {busy : Lock → Bool} {r : st.Val}
    {a : Actor Request} {hist : List (Nat × Unit)} (h : Coherent w) (hexec : q.Executes st)
    (hok : KeepsVerdicts (.event a (.stmt st r)) ⟨hist, w⟩) : Coherent (st.apply busy w) := by
  have hsubmissions := st.apply_submissions busy w
  have hjobs := st.apply_jobs busy w
  have hpayouts := st.apply_payouts busy w
  have hsame : w.payouts = (st.apply busy w).payouts → ∀ p row',
      (st.apply busy w).payouts p = some row' → row'.isDue = true → Passed row'.submissionId w ∨
        ∃ row, w.payouts p = some row ∧ row.isDue = true ∧ row.submissionId = row'.submissionId :=
    fun hsame p row' hrow' hdue => Or.inr ⟨row', hsame ▸ hrow', hdue, rfl⟩
  cases st with
  | submission st =>
      cases st with
      | update i new => exact h.judgeSubmission hok hpayouts hjobs hsubmissions
      | insert i row =>
          exact h.kept (hsubmissions ▸ SubmissionStmt.persists_verdict _ (by simp))
            (hjobs ▸ .refl) (hsame hpayouts.symm)
      | setPayoutStatus i status =>
          exact h.kept (hsubmissions ▸ SubmissionStmt.persists_verdict _ (by simp))
            (hjobs ▸ .refl) (hsame hpayouts.symm)
  | job st =>
      by_cases hupdate : ∃ j new, st = .update j new
      · obtain ⟨j, new, rfl⟩ := hupdate
        exact h.judgeJob hok hpayouts hsubmissions hjobs
      · refine h.kept (hsubmissions ▸ .refl) ?_ (hsame hpayouts.symm)
        exact hjobs ▸ JobStmt.persists_verdict st fun j new heq => hupdate ⟨j, new, heq⟩
  | payout st =>
      refine h.kept (hsubmissions ▸ .refl) (hjobs ▸ .refl) ?_
      rw [hpayouts]
      exact PayoutStmt.due_after hexec hok
  | _ => exact h.kept (hsubmissions ▸ .refl) (hjobs ▸ .refl) (hsame hpayouts.symm)

/-- A commit that keeps verdicts. -/
theorem Coherent.commit {cfg : Config} {hold : Lock → World → World → Prop} {pid : Nat}
    {t : Tag} {L : List Lock} {a : Actor Request} {hist : List (Nat × Unit)} (h : Coherent w)
    (heffect : t.Effect cfg hold pid L w w')
    (hok : KeepsVerdicts (.event a (.commit t)) ⟨hist, w⟩) : Coherent w' := by
  obtain ⟨hsubmissions, hjobs⟩ := heffect.verdicts
  refine h.kept hsubmissions hjobs fun p row' hrow' hdue => ?_
  obtain ⟨row, hrow, hcommit⟩ := heffect.payout_of hrow'
  cases hcommit with
  | same => exact Or.inr ⟨row', hrow, hdue, rfl⟩
  | disputed d => simp [Payout.isDue] at hdue
  | cancelled d dispute hd hopened hpayout =>
      have hpending : row.status = .pending := by simpa [Payout.isDue] using hdue
      exact Or.inl (hok dispute p row hd hopened hpayout hrow hpending)
  | upheld d dispute hd hopened hpayout =>
      have hpending : row.status = .pending := by simpa [Payout.isDue] using hdue
      exact Or.inl (hok dispute p row hd hopened hpayout hrow hpending)
  | refunded => simp [Payout.isDue] at hdue
  | unblocked worker hwaits => exact Or.inl (hok p row hrow hwaits)
  | sent hash fees hsplit => exact Or.inr ⟨row, hrow, hdue, rfl⟩

end Steps

section Plan

variable {cfg : Config} {ok : Step → Glob World Unit → Bool}

/-- The plan for a check of the steps. -/
def verdictPlan (cfg : Config) (ok : Step → Glob World Unit → Bool) : Plan (system cfg noNotes) :=
  systemPlan cfg noNotes ok (fun _ => True) (fun g => Coherent g.world) (fun _ _ _ => True)
    fun _ _ _ => True

theorem verdictPlan_valid (hok : ∀ l g, ok l g = true → KeepsVerdicts l g) :
    (verdictPlan cfg ok).Valid := by
  refine systemPlan_valid (fun _ _ _ => trivial) ?_ (fun _ _ _ _ _ _ => trivial)
    fun _ _ _ _ _ _ _ => trivial
  rintro l L g g' ⟨hinv, hl, hstep⟩
  have hkeeps := hok l g hl
  cases hstep with
  | stmt a s busy _ _ _ hout => exact Coherent.stmt hinv hout.1 hkeeps
  | inner a s busy v _ _ _ =>
      have hpayouts := Stmt.effect_payouts s busy (v g.world) g.world
      refine Coherent.kept hinv ?_ ?_ fun p row' hrow' hdue => Or.inr ⟨row', ?_, hdue, rfl⟩
      · exact (Stmt.effect_submissions s busy (v g.world) g.world).symm ▸ .refl
      · exact (Stmt.effect_jobs s busy (v g.world) g.world).symm ▸ .refl
      · exact (congrFun hpayouts p).symm.trans hrow'
  | commit a t L v _ _ hcom => exact Coherent.commit hinv hcom.2 hkeeps
  | reply a x _ _ => exact hinv
  | env e _ => cases e <;> exact hinv

end Plan

/-- A computation of `Passed`. -/
def World.hasPassed (w : World) (submissionId : Nat) : Bool :=
  (w.submissions submissionId).any fun sub => decide (sub.finalVerdict = some .pass) &&
    (w.jobs sub.jobId).any fun job => decide (job.finalVerdict = some .pass)

theorem World.passed_of_hasPassed {w : World} {i : Nat} (h : w.hasPassed i = true) :
    Passed i w := by
  obtain ⟨sub, hsub, h⟩ := (Option.any_eq_true _ _).mp h
  rw [Bool.and_eq_true, decide_eq_true_eq] at h
  obtain ⟨job, hjob, hpass⟩ := (Option.any_eq_true _ _).mp h.2
  exact ⟨sub, job, hsub, h.1, hjob, of_decide_eq_true hpass⟩

/-- Every verdict is a pass, and payouts are only created. -/
def onlyPasses : Step → Glob World Unit → Bool
  | .event _ (.stmt (.submission (.update _ new)) _), _ => decide (new.finalVerdict = some .pass)
  | .event _ (.stmt (.job (.update _ new)) _), _ => decide (new.finalVerdict = some .pass)
  | .event _ (.stmt (.payout (.upsert _ new)) _), g => g.world.hasPassed new.submissionId
  | .event _ (.stmt (.payout (.setStatus _ _ _ _)) _), _ => false
  | .event _ (.commit (.cancelDispute _)), _ => false
  | .event _ (.commit (.resolveDispute _ _)), _ => false
  | .event _ (.commit (.unblockPayouts _)), _ => false
  | _, _ => true

theorem onlyPasses_keeps (l : Step) (g : Glob World Unit) (h : onlyPasses l g = true) :
    KeepsVerdicts l g := by
  cases l with
  | event a x =>
      cases x with
      | stmt st r =>
          cases st with
          | submission st =>
              cases st with
              | update i new => exact Or.inl (of_decide_eq_true h)
              | _ => trivial
          | job st =>
              cases st with
              | update j new => exact Or.inl (of_decide_eq_true h)
              | _ => trivial
          | payout st =>
              cases st with
              | upsert i new => exact Or.inr (World.passed_of_hasPassed h)
              | setStatus p status pr ref => exact absurd h (by simp [onlyPasses])
              | _ => trivial
          | _ => trivial
      | commit t =>
          cases t with
          | cancelDispute d | resolveDispute d refund | unblockPayouts i =>
              exact absurd h (by simp [onlyPasses])
          | _ => trivial
      | reply x => trivial
  | _ => trivial

/-- A submission whose verification is in progress. -/
def verifyingWorld : World :=
  { World.empty with
    nextId := 5
    orgs := Function.update World.empty.orgs 1 (some ⟨none, none, none, 0, none⟩)
    bounties := Function.update World.empty.bounties 1
      (some ⟨1, .published, [], [0], 1000, 0, 0, some 0⟩)
    jobs := Function.update World.empty.jobs 1 (some (.fresh 1 0 0 0))
    submissions := Function.update World.empty.submissions 1
      (some ⟨1, 1, none, none, ⟨1, 0, .absent, 0⟩, .submitted, none, none, none, none, none, 0⟩)
    verifications := Function.update World.empty.verifications (1, 1)
      (some { Verification.queued 2 with status := .inProgress, claimToken := some 7 })
    verificationKeys := [(1, 1)] }

theorem verifyingWorld_coherent : Coherent verifyingWorld :=
  fun _ _ h => absurd h (by simp [verifyingWorld, World.empty])

/-- The verifier's verdict is a pass. -/
def passVerdict : List Pick :=
  .spawn (.verifierVerdict ⟨1, 1, 7, .pass, "", 90⟩) :: List.replicate 20 (.run 0)

/-- An admin then overrides the verdict. -/
def overriddenPass : List Pick :=
  passVerdict ++ .spawn (.overrideVerdict 1 (some .fail) none) :: @List.replicate Pick 5 (.run 1)

end OpenUnion
