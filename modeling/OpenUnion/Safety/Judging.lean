import OpenUnion.Code.JobRows
import OpenUnion.Code.Rounds
import OpenUnion.Safety.Basic

/-!
# Verdicts and the jobs they end in

A verdict finishes its verification first and writes its job last.  `unwritten` are the
submissions whose verdict is between the two.

* `cuts`: the steps at which a verdict is cut off in between.
* `Request.code_judges`: a verdict that is not cut off there writes the job of the submission
  whose verification it has finished.
-/

namespace OpenUnion

open Interleave

/-- What a process that posts verdicts has found and written. -/
inductive JudgeNote where
  | about (submissionId jobId : Nat)
  | finishing (submissionId : Nat)
  | written

/-- The request posts verdicts. -/
def Request.judges : Request → Bool
  | .verifierVerdict _ | .verificationRunner => true
  | _ => false

/-- The note of an event. -/
def JudgeNote.of : Happening → List JudgeNote
  | .stmt (.read (.submission s)) r => (Option.toList r).map fun sub => .about s sub.jobId
  | .stmt (.verification (.update k v)) _ => if v.status = .finished then [.finishing k.1] else []
  | .stmt (.job (.update _ _)) _ => [.written]
  | _ => []

/-- Note the submissions a verdict finds, and what it finishes and writes. -/
def judgeNotes (a : Actor Request) (x : Happening) (_ : World) : List JudgeNote :=
  if a.req.judges then JudgeNote.of x else []

/-- The submissions of which a verification is finished and the job is still to be written. -/
def unwritten : List JudgeNote → List Nat
  | [] => []
  | .about _ _ :: earlier => unwritten earlier
  | .finishing s :: earlier => s :: unwritten earlier
  | .written :: _ => []

/-- A verdict is between its verification and its job. -/
abbrev Applying (ns : List JudgeNote) : Prop := unwritten ns ≠ []

/-- The statement finds the row it asks for, and a new verification is free. -/
def Stmt.succeeds : (s : Stmt) → s.Val → Bool
  | .read (.submission _), r => Option.isSome r
  | .read (.job _), r => Option.isSome r
  | .read (.bounty _), r => Option.isSome r
  | .verification (.insert _ _), inserted => inserted
  | _, _ => true

/-- A verdict is cut off before it has written its job: it is killed, a statement of it
fails or conflicts, or it misses a row. -/
def cuts : Step → Glob World JudgeNote → Bool
  | .fault a, g | .crash a, g => ! (unwritten (own a.pid g.hist)).isEmpty
  | .event a (.stmt s r), g => ! (unwritten (own a.pid g.hist)).isEmpty && ! s.succeeds r
  | _, _ => false

/-- The job that is written is one of the submission that has been finished. -/
def WriteOut (ns : List JudgeNote) : Stmt → Prop
  | .job (.update j _) => ∀ s ∈ unwritten ns, .about s j ∈ ns
  | _ => True

/-- What is asked of the programs. -/
def judgeDebts (a : Actor Request) : Debts Stmt Stmt.Val JudgeNote where
  Out ns s := a.req.judges = true → WriteOut ns s
  Gets ns s r := Applying ns → s.succeeds r = true

section Rules

variable {cfg : Config} {a : Actor Request} {ns : List JudgeNote} {α : Type}
  {F : α → List JudgeNote → Prop} {G : Err → List JudgeNote → Prop}

/-- A program that writes the job of what it finishes. -/
abbrev Judges (cfg : Config) (a : Actor Request) (p : Code α) (F : α → List JudgeNote → Prop)
    (G : Err → List JudgeNote → Prop) (ns : List JudgeNote) : Prop :=
  p.Settles (system cfg judgeNotes) a Applying (judgeDebts a) F G ns

/-- No verdict is half applied. -/
abbrev Whole {α : Type} : α → List JudgeNote → Prop := fun _ ns => ¬ Applying ns

/-- A statement that finishes no verification. -/
def Unfinishing (s : Stmt) : Prop := ∀ k v, s = .verification (.update k v) → v.status ≠ .finished

/-- The statement writes a verification. -/
def Stmt.verifies : Stmt → Bool
  | .verification _ => true
  | _ => false

theorem unfinishing_of_other {s : Stmt} (h : s.verifies = false) : Unfinishing s := by
  rintro k v rfl
  cases h

/-- A statement that finishes nothing leaves nothing half applied. -/
theorem Unfinishing.whole {s : Stmt} (h : Unfinishing s) (hwhole : ¬ Applying ns) (r : s.Val)
    (w : World) : ¬ Applying (judgeNotes a (.stmt s r) w ++ ns) := by
  rw [not_not] at hwhole ⊢
  unfold judgeNotes
  split_ifs
  · cases s with
    | read q =>
        cases q with
        | submission s =>
            cases hr : (r : Option Submission) with
            | none => simpa [JudgeNote.of, hr] using hwhole
            | some sub => simpa [JudgeNote.of, hr, unwritten] using hwhole
        | _ => exact hwhole
    | verification s =>
        cases s with
        | insert k v => exact hwhole
        | update k v =>
            have hstatus : v.status ≠ .finished := h k v rfl
            simpa [JudgeNote.of, hstatus] using hwhole
    | job s =>
        cases s with
        | update j row => rfl
        | _ => exact hwhole
    | _ => exact hwhole
  · exact hwhole

/-- A piece without transactions that finishes nothing. -/
theorem judges_of_every {p : Code α} (h : p.Every Unfinishing) (hwhole : ¬ Applying ns) :
    Judges cfg a p Whole Whole ns := by
  induction p generalizing ns with
  | ret x => exact hwhole
  | fail e => exact hwhole
  | op s next err ihn ihe =>
      refine ⟨fun _ => ?_, fun busy seen w _ => ?_, fun _ => ihe h.2.2 hwhole⟩
      · cases s with
        | job s =>
            cases s with
            | update j row =>
                intro s hs
                rw [not_not] at hwhole
                exact absurd hs (by simp [hwhole])
            | _ => trivial
        | _ => trivial
      · exact ihn _ (h.2.1 _) (h.1.whole hwhole _ w)
  | begin next ih => exact h.elim
  | commit t next err ihn ihe => exact h.elim
  | rollback next ih => exact h.elim

/-- A statement that is not noted. -/
def Unjudged : Stmt → Prop
  | .read (.submission _) | .verification (.update _ _) | .job (.update _ _) => False
  | _ => True

theorem Unjudged.note {s : Stmt} (h : Unjudged s) (r : s.Val) (w : World) :
    judgeNotes a (.stmt s r) w = [] := by
  have hof : JudgeNote.of (.stmt s r) = [] := by
    unfold JudgeNote.of
    split
    · rename_i heq
      obtain ⟨rfl, -⟩ := Event.stmt.inj heq
      exact h.elim
    · rename_i heq
      obtain ⟨rfl, -⟩ := Event.stmt.inj heq
      exact h.elim
    · rename_i heq
      obtain ⟨rfl, -⟩ := Event.stmt.inj heq
      exact h.elim
    · rfl
  simp [judgeNotes, hof]

theorem Unjudged.out {s : Stmt} (h : Unjudged s) : WriteOut ns s := by
  unfold WriteOut
  split
  · exact h.elim
  · trivial

/-- A statement of a verdict that is half applied: it succeeds. -/
theorem judges_quiet {s : Stmt} {f : s.Val → Code α} (hs : Unjudged s) (happlying : Applying ns)
    (hf : ∀ r, s.succeeds r = true → Judges cfg a (f r) F G ns) :
    Judges cfg a ((run s).bind f) F G ns := by
  refine ⟨fun _ => hs.out, fun busy seen w hgets => ?_, fun hwhole => absurd happlying hwhole⟩
  have hempty : (system cfg judgeNotes).note a
      (.stmt s ((system cfg judgeNotes).engine.result s busy seen)) w = [] := hs.note _ w
  rw [hempty]
  exact hf _ (hgets happlying)

/-- Looking for a submission while a verdict is half applied. -/
theorem judges_getSubmission {s : Nat} {f : Option Submission → Code α} (hreq : a.req.judges = true)
    (happlying : Applying ns)
    (hf : ∀ sub : Submission, Judges cfg a (f (some sub)) F G (.about s sub.jobId :: ns)) :
    Judges cfg a ((getSubmission s).bind f) F G ns := by
  refine ⟨fun _ => trivial, fun busy seen w hgets => ?_, fun hwhole => absurd happlying hwhole⟩
  have hsome : Option.isSome (seen.submissions s) = true := hgets happlying
  obtain ⟨sub, hsub⟩ := Option.isSome_iff_exists.mp hsome
  change Judges cfg a (f (seen.submissions s)) F G
    (judgeNotes a (.stmt (.read (.submission s)) (seen.submissions s)) w ++ ns)
  rw [hsub]
  simpa [judgeNotes, JudgeNote.of, hreq] using hf sub

/-- A verdict writes its job. -/
theorem judges_updateJob {j : Nat} {row : Job} {f : Unit → Code α} (hreq : a.req.judges = true)
    (happlying : Applying ns) (hout : ∀ s ∈ unwritten ns, .about s j ∈ ns)
    (hf : ∀ ns, ¬ Applying ns → Judges cfg a (f ()) F G ns) :
    Judges cfg a ((updateJob j row).bind f) F G ns := by
  refine ⟨fun _ => hout, fun busy seen w _ => ?_, fun hwhole => absurd happlying hwhole⟩
  change Judges cfg a (f ()) F G (judgeNotes a (.stmt (.job (.update j row)) ()) w ++ ns)
  refine hf _ ?_
  simp [judgeNotes, JudgeNote.of, hreq, unwritten]

end Rules

section Verdicts

variable {cfg : Config} {a : Actor Request} {ns : List JudgeNote} {body : VerdictBody}
  {submission : Submission} {row : Job} {verificationId : Nat}

theorem CompletesDoes.unfinishing {s : Stmt} (h : CompletesDoes s) : Unfinishing s := by
  rintro k v rfl
  exact h.elim

theorem ClaimDoes.unfinishing {s : Stmt} {i n : Nat} (h : ClaimDoes i n s) : Unfinishing s := by
  rintro k v rfl hfinished
  exact absurd (h.2.symm.trans hfinished) (by simp)

variable (hreq : a.req.judges = true)

include hreq

/-- The end of a verdict that completes the job. -/
theorem completeJob_judges (happlying : Applying ns)
    (hout : ∀ s ∈ unwritten ns, .about s submission.jobId ∈ ns) :
    Judges cfg a (completeJob cfg body verificationId submission row) Whole Whole ns := by
  refine judges_quiet trivial happlying fun doneAt _ => ?_
  refine judges_updateJob hreq happlying hout fun ns hwhole => ?_
  refine settles_bind.mpr ((judges_of_every ?_ hwhole).mono (fun _ _ h => h) fun _ _ h => h)
  refine every_onlyIf.mpr fun _ => ?_
  refine Prog.Every.bind (getBountyOrThrow_every (unfinishing_of_other rfl)) fun bounty => ?_
  refine Prog.Every.bind ?_ fun _ => Prog.every_perform.mpr (unfinishing_of_other rfl)
  apply createPayout_every
  · exact unfinishing_of_other rfl
  · exact unfinishing_of_other rfl
  · exact unfinishing_of_other rfl
  · intro id payout
    exact unfinishing_of_other rfl
  · intro key topic row
    exact unfinishing_of_other rfl

/-- Another attempt, or the end of the job. -/
theorem requeueOrComplete_judges (happlying : Applying ns)
    (hout : ∀ s ∈ unwritten ns, .about s submission.jobId ∈ ns) :
    Judges cfg a (requeueOrComplete cfg body verificationId submission row) Whole Whole ns := by
  simp only [requeueOrComplete]
  split_ifs
  · refine judges_quiet trivial happlying fun attempts _ => ?_
    split_ifs
    · refine judges_quiet trivial happlying fun id _ => ?_
      refine judges_quiet trivial happlying fun inserted hinserted => ?_
      obtain rfl : inserted = true := hinserted
      refine judges_quiet trivial happlying fun now _ => ?_
      refine judges_quiet trivial happlying fun _ _ => ?_
      exact judges_updateJob hreq happlying hout fun ns hwhole => hwhole
    · exact completeJob_judges hreq happlying hout
  · exact completeJob_judges hreq happlying hout

omit hreq in
/-- The registry is updated by statements that are not noted. -/
theorem registerOnPass_judges {verdict : Verdict} {G : Err → List JudgeNote → Prop}
    (happlying : Applying ns) :
    Judges cfg a (registerOnPass submission verdict) (fun _ ns' => ns' = ns) G ns := by
  simp only [registerOnPass]
  cases submission.dedupeKey with
  | none => exact rfl
  | some key =>
      simp only [onlyIf]
      split_ifs
      · refine judges_quiet trivial happlying fun job hjob => ?_
        cases job with
        | none => exact absurd hjob Bool.false_ne_true
        | some job =>
            simp only [getBountyOrThrow, bind_eq_bind, Prog.bind_assoc]
            refine judges_quiet trivial happlying fun bounty hbounty => ?_
            cases bounty with
            | none => exact absurd hbounty Bool.false_ne_true
            | some bounty => exact judges_quiet trivial happlying fun _ _ => rfl
      · exact rfl

/-- What a verdict does once the verification is finished. -/
theorem applyVerdict_judges (hns : unwritten ns = [body.submissionId]) :
    Judges cfg a (applyVerdict cfg body verificationId) Whole Whole ns := by
  refine judges_getSubmission hreq (by simp [hns]) fun submission => ?_
  have hout : ∀ s ∈ unwritten (.about body.submissionId submission.jobId :: ns),
      .about s submission.jobId ∈ JudgeNote.about body.submissionId submission.jobId :: ns := by
    intro s hs
    obtain rfl : s = body.submissionId := by simpa [unwritten, hns] using hs
    exact List.mem_cons_self
  have happlying : Applying (.about body.submissionId submission.jobId :: ns) := by
    simp [unwritten, hns]
  refine judges_quiet trivial happlying fun _ _ => ?_
  simp only [recordReputation, bind_eq_bind, Prog.bind_assoc]
  refine judges_quiet trivial happlying fun reputation _ => ?_
  refine judges_quiet trivial happlying fun _ _ => ?_
  refine settles_bind.mpr ((registerOnPass_judges happlying).mono ?_ fun _ _ h => h)
  rintro _ _ rfl
  refine judges_quiet trivial happlying fun job hjob => ?_
  cases job with
  | none => exact absurd hjob Bool.false_ne_true
  | some job => exact requeueOrComplete_judges hreq happlying hout

/-- `POST /api/verifier/verdict`. -/
theorem verifierVerdict_judges (hwhole : ¬ Applying ns) :
    Judges cfg a (verifierVerdict cfg body) Whole Whole ns := by
  have hquiet : ∀ {s : Stmt} {β : Type} {f : s.Val → Code β} {F : β → List JudgeNote → Prop},
      Unjudged s → (∀ r, Judges cfg a (f r) F Whole ns) →
      Judges cfg a ((run s).bind f) F Whole ns := by
    intro s β f F hs hf
    refine ⟨fun _ => hs.out, fun busy seen w _ => ?_, fun h => h⟩
    have hempty : (system cfg judgeNotes).note a
        (.stmt s ((system cfg judgeNotes).engine.result s busy seen)) w = [] := hs.note _ w
    rw [hempty]
    exact hf _
  refine hquiet trivial fun verification => ?_
  cases verification with
  | none => exact hwhole
  | some verification =>
      dsimp only
      split_ifs
      · exact hwhole
      · refine judges_of_every ?_ hwhole
        refine Prog.every_perform_bind.mpr ⟨unfinishing_of_other rfl, fun submission => ?_⟩
        cases submission with
        | none => trivial
        | some submission =>
            exact Prog.every_perform_bind.mpr ⟨unfinishing_of_other rfl, fun _ => trivial⟩
      · refine hquiet trivial fun now => ?_
        split_ifs
        · exact hwhole
        · refine ⟨fun _ => trivial, fun busy seen w _ => ?_, fun h => h⟩
          refine applyVerdict_judges hreq ?_
          rw [not_not] at hwhole
          change unwritten (judgeNotes a (.stmt (.verification (.update _ _)) ()) w ++ ns) = _
          simp [judgeNotes, JudgeNote.of, hreq, unwritten, hwhole]

/-- The handler of a verification event. -/
theorem handleVerificationRequested_judges {i s n : Nat} (hwhole : ¬ Applying ns) :
    Judges cfg a (handleVerificationRequested cfg i s n) Whole Whole ns := by
  have hclaim : Judges cfg a (verifierClaim ⟨s, n, i, 600⟩) Whole Whole ns :=
    judges_of_every ((verifierClaim_every _).mono fun _ hs => hs.unfinishing) hwhole
  refine settles_bind.mpr (hclaim.mono (fun r ns h => ?_) fun _ _ h => h)
  cases r with
  | error status code message => exact h
  | ok claim =>
      have hask : Judges cfg a (ask .gatewayVerdict) Whole Whole ns :=
        judges_of_every (p := ask .gatewayVerdict)
          (Prog.every_perform.mpr (unfinishing_of_other rfl)) h
      refine settles_bind.mpr (hask.mono (fun answer ns h => ?_) fun _ _ h => h)
      refine settles_bind.mpr ((verifierVerdict_judges hreq h).mono (fun r ns h => ?_) fun _ _ h => h)
      cases r with
      | error status code message => exact h
      | ok posted => exact h

end Verdicts

/-- Every program writes the job of what it finishes. -/
theorem Request.code_judges (cfg : Config) (i : Nat) (q : Request) :
    (q.code cfg i).Settles (system cfg judgeNotes) ⟨i, q⟩ Applying (judgeDebts ⟨i, q⟩) Whole Whole
      [] := by
  have hwhole : ¬ Applying [] := fun h => h rfl
  cases hjudges : q.judges with
  | false =>
      refine Prog.settles_silent _ (fun x w => ?_) (fun s h => ?_) (fun _ => hwhole) fun _ => hwhole
      · simp [system, judgeNotes, hjudges]
      · exact absurd (hjudges.symm.trans h) (by simp)
  | true =>
      cases q with
      | verifierVerdict body =>
          exact settles_bind.mpr ((verifierVerdict_judges (a := ⟨i, _⟩) rfl hwhole).mono
            (fun _ _ h => h) fun _ _ h => h)
      | verificationRunner =>
          have hunjudged : ∀ {s : Stmt}, RoundStmt s → Unjudged s := by
            intro s hs
            unfold Unjudged
            split <;> first | exact hs | trivial
          have hround : Unwatched judgeNotes ⟨i, .verificationRunner⟩
              (judgeDebts ⟨i, .verificationRunner⟩) :=
            ⟨fun s r w hs => (hunjudged hs).note r w, fun t w => by simp [judgeNotes, JudgeNote.of],
              fun ns s hs _ => (hunjudged hs).out⟩
          refine settles_bind.mpr ((runOutboxLoop_settles hround hwhole fun key ns htopic h => ?_).mono
            (fun _ _ h => h) fun _ _ h => h)
          cases key with
          | verification s k => exact handleVerificationRequested_judges rfl h
          | _ => exact absurd htopic (by simp [verificationTopics, OutboxKey.topic])
      | _ => exact absurd hjudges (by simp [Request.judges])

end OpenUnion
