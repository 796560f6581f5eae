import OpenUnion.Interleave.Traces
import OpenUnion.Safety.Basic

/-!
# The rows a handler writes are made from rows it has read

A handler reads the job it is about once and writes the whole row at its end.
`RowNote` records what a process has read and stored, and `JobRow` lists the rows it
can write, each made from the job it has read last.

* `Request.rows_does`: every request writes such rows only.
-/

namespace OpenUnion

open Interleave

/-- What a process has read of jobs, submissions and verifications, and what it has
stored. -/
inductive RowNote where
  | job (jobId : Nat) (row : Job)
  | submission (submissionId jobId : Nat)
  | verified (submissionId : Nat)
  | duplicate

/-- Note the rows found in the database, and those that are inserted. -/
def rowNotes : Actor Request → Happening → World → List RowNote
  | _, .stmt (.read (.job j)) _, w => (w.jobs j).toList.map (.job j)
  | _, .stmt (.read (.submission s)) _, w =>
      (w.submissions s).toList.map fun row => .submission s row.jobId
  | _, .stmt (.read (.submissionByKey j i k)) _, w =>
      (w.submissionByKey j i k).toList.map fun found => .submission found.1 j
  | _, .stmt (.read (.verification s n)) _, w => (w.verifications (s, n)).toList.map fun _ => .verified s
  | _, .stmt (.read (.isAcceptedDuplicate b k)) _, w => if w.acceptedDedupe (b, k) then [.duplicate] else []
  | _, .stmt (.submission (.insert s row)) inserted, _ => if inserted then [.submission s row.jobId] else []
  | _, .stmt (.verification (.insert k _)) inserted, _ => if inserted then [.verified k.1] else []
  | _, _, _ => []

/-- The job a process has read last. -/
def lastJob : List RowNote → Option (Nat × Job)
  | [] => none
  | .job j row :: _ => some (j, row)
  | _ :: ns => lastJob ns

def RowNote.isDuplicate : RowNote → Bool
  | .duplicate => true
  | _ => false

/-- The rows a request writes for job `j`, having read `row`. -/
inductive JobRow (ns : List RowNote) : Request → Nat → Job → Job → Prop where
  | verifying (i j : Nat) (key : Option Nat) (body : SubmitBody) (row : Job) (s : Nat) :
      .submission s j ∈ ns → .verified s ∈ ns →
      JobRow ns (.submit i j key body) j row (row.verifyingAs s)
  | healed (i j : Nat) (key : Option Nat) (body : SubmitBody) (row : Job) (s : Nat) :
      row.leaseWorkerId = some i → row.currentSubmissionId = none →
      row.status ≠ .claimed → row.status ≠ .opened → .submission s j ∈ ns → .verified s ∈ ns →
      JobRow ns (.submit i j key body) j row (row.healed s)
  | duplicate (i j : Nat) (key : Option Nat) (body : SubmitBody) (row : Job) (s : Nat) :
      .duplicate ∈ ns → .submission s j ∈ ns →
      JobRow ns (.submit i j key body) j row (row.duplicateAs s)
  | requeued (q : Request) (body : VerdictBody) (j : Nat) (row : Job) :
      (q = .verifierVerdict body ∨ q = .verificationRunner) →
      JobRow ns q j row (row.judged body).requeued
  | completed (q : Request) (body : VerdictBody) (j : Nat) (row : Job) (doneAt : Nat) :
      JobRow ns q j row ((row.judged body).completed doneAt)
  | markedDuplicate (s j : Nat) (row : Job) : JobRow ns (.markDuplicate s) j row row.markedDuplicate
  | overridden (s : Nat) (v : Option Verdict) (score : Option Nat) (j : Nat) (row : Job)
      (verdict : Verdict) (sub : Submission) :
      JobRow ns (.overrideVerdict s v score) j row (row.overridden verdict sub)

/-- A whole-row write of a job is made from the job read last. -/
def RowOut (q : Request) (ns : List RowNote) : Stmt → Prop
  | .job (.update j new) => ∃ row, lastJob ns = some (j, row) ∧ JobRow ns q j row new
  | _ => True

section Rules

variable {cfg : Config} {a : Actor Request} {ns : List RowNote} {α : Type} {Out : List RowNote → Stmt → Prop}
  {F : α → List RowNote → Prop} {G : Err → List RowNote → Prop}

/-- A program told about with these notes. -/
abbrev Tells (cfg : Config) (a : Actor Request) (Out : List RowNote → Stmt → Prop) (p : Code α)
    (F : α → List RowNote → Prop) (G : Err → List RowNote → Prop) (ns : List RowNote) : Prop :=
  p.Tells (system cfg rowNotes) a Out F G ns

/-- A statement that is not noted. -/
theorem tells_quiet {s : Stmt} {f : s.Val → Code α} (hs : Out ns s) (herr : G default ns)
    (hnote : ∀ r w, rowNotes a (.stmt s r) w = [])
    (hf : ∀ r, Tells cfg a Out (f r) F G ns) : Tells cfg a Out ((run s).bind f) F G ns := by
  refine ⟨hs, fun busy w => ?_, herr⟩
  have hempty : (system cfg rowNotes).note a
      (.stmt s ((system cfg rowNotes).engine.result s busy w)) w = [] := hnote _ w
  rw [hempty]
  exact hf _

theorem tells_getJob {j : Nat} {f : Option Job → Code α} (hread : Out ns (.read (.job j)))
    (herr : G default ns) (hnone : Tells cfg a Out (f none) F G ns)
    (hsome : ∀ row, Tells cfg a Out (f (some row)) F G (.job j row :: ns)) :
    Tells cfg a Out ((getJob j).bind f) F G ns := by
  refine ⟨hread, fun busy w => ?_, herr⟩
  change Tells cfg a Out (f (w.jobs j)) F G ((w.jobs j).toList.map (RowNote.job j) ++ ns)
  cases w.jobs j with
  | none => exact hnone
  | some row => exact hsome row

theorem tells_getSubmission {s : Nat} {f : Option Submission → Code α}
    (hread : Out ns (.read (.submission s))) (herr : G default ns)
    (hnone : Tells cfg a Out (f none) F G ns)
    (hsome : ∀ row : Submission, Tells cfg a Out (f (some row)) F G (.submission s row.jobId :: ns)) :
    Tells cfg a Out ((getSubmission s).bind f) F G ns := by
  refine ⟨hread, fun busy w => ?_, herr⟩
  change Tells cfg a Out (f (w.submissions s)) F G
    ((w.submissions s).toList.map (fun row => RowNote.submission s row.jobId) ++ ns)
  cases w.submissions s with
  | none => exact hnone
  | some row => exact hsome row

theorem tells_submissionByKey {j i k : Nat} {f : Option (Nat × Submission) → Code α}
    (hread : Out ns (.read (.submissionByKey j i k))) (herr : G default ns)
    (hnone : Tells cfg a Out (f none) F G ns)
    (hsome : ∀ s row, Tells cfg a Out (f (some (s, row))) F G (.submission s j :: ns)) :
    Tells cfg a Out ((ask (.submissionByKey j i k)).bind f) F G ns := by
  refine ⟨hread, fun busy w => ?_, herr⟩
  change Tells cfg a Out (f (w.submissionByKey j i k)) F G
    ((w.submissionByKey j i k).toList.map (fun found => RowNote.submission found.1 j) ++ ns)
  cases w.submissionByKey j i k with
  | none => exact hnone
  | some found => exact hsome found.1 found.2

theorem tells_verification {s n : Nat} {f : Option Verification → Code α}
    (hread : Out ns (.read (.verification s n))) (herr : G default ns)
    (hnone : Tells cfg a Out (f none) F G ns)
    (hsome : ∀ row, Tells cfg a Out (f (some row)) F G (.verified s :: ns)) :
    Tells cfg a Out ((findVerificationBySubmission s n).bind f) F G ns := by
  refine ⟨hread, fun busy w => ?_, herr⟩
  change Tells cfg a Out (f (w.verifications (s, n))) F G
    ((w.verifications (s, n)).toList.map (fun _ => RowNote.verified s) ++ ns)
  cases w.verifications (s, n) with
  | none => exact hnone
  | some row => exact hsome row

theorem tells_isAcceptedDuplicate {b k : Nat} {f : Bool → Code α}
    (hread : Out ns (.read (.isAcceptedDuplicate b k))) (herr : G default ns)
    (hfalse : Tells cfg a Out (f false) F G ns)
    (htrue : Tells cfg a Out (f true) F G (.duplicate :: ns)) :
    Tells cfg a Out ((ask (.isAcceptedDuplicate b k)).bind f) F G ns := by
  refine ⟨hread, fun busy w => ?_, herr⟩
  change Tells cfg a Out (f (w.acceptedDedupe (b, k))) F G
    ((if w.acceptedDedupe (b, k) then [RowNote.duplicate] else []) ++ ns)
  cases w.acceptedDedupe (b, k) with
  | false => exact hfalse
  | true => exact htrue

/-- An insert that may meet a taken key. -/
theorem tells_addSubmission {s : Nat} {row : Submission} {f : Unit → Code α}
    (hinsert : Out ns (.submission (.insert s row))) (hfail : ∀ e, G e ns)
    (hnext : Tells cfg a Out (f ()) F G (.submission s row.jobId :: ns)) :
    Tells cfg a Out ((addSubmission s row).bind f) F G ns := by
  refine ⟨hinsert, fun busy w => ?_, hfail _⟩
  change Tells cfg a Out ((orUniqueViolation (SubmissionStmt.free s row w)).bind f) F G
    ((if SubmissionStmt.free s row w then [RowNote.submission s row.jobId] else []) ++ ns)
  cases SubmissionStmt.free s row w with
  | false => exact hfail _
  | true => exact hnext

theorem tells_addVerification {s n : Nat} {v : Verification} {f : Unit → Code α}
    (hinsert : Out ns (.verification (.insert (s, n) v))) (hfail : ∀ e, G e ns)
    (hnext : Tells cfg a Out (f ()) F G (.verified s :: ns)) :
    Tells cfg a Out ((addVerification s n v).bind f) F G ns := by
  refine ⟨hinsert, fun busy w => ?_, hfail _⟩
  change Tells cfg a Out ((orUniqueViolation (w.verifications (s, n)).isNone).bind f) F G
    ((if (w.verifications (s, n)).isNone then [RowNote.verified s] else []) ++ ns)
  cases (w.verifications (s, n)).isNone with
  | false => exact hfail _
  | true => exact hnext

end Rules

section Submit

variable {cfg : Config} {a : Actor Request} {ns : List RowNote} {i j : Nat} {key : Option Nat}
  {body : SubmitBody} {row : Job}

/-- What is asked of the ends of a piece that reads and stores nothing noted. -/
abbrev Unnoted (ns : List RowNote) {α : Type} : α → List RowNote → Prop := fun _ ns' => ns' = ns

theorem attach_tells {s : Nat} {refs : List ArtifactRef} :
    Tells cfg a (RowOut a.req) (attachOrReject s j i refs) (Unnoted ns) (Unnoted ns) ns := by
  refine tells_orElse.mpr (tells_bind.mpr ?_)
  refine (Prog.tells_forEach (I := fun ns' => ns' = ns) (fun id _ ns' hns => ?_) rfl).mono
    (fun _ _ h => h) fun _ _ h => h
  subst hns
  refine tells_quiet trivial rfl (fun _ _ => rfl) fun r => ?_
  cases r with
  | none => exact rfl
  | some art =>
      dsimp only
      split_ifs <;> first | exact rfl | exact ⟨trivial, fun _ _ => rfl, rfl⟩

theorem enqueue_tells {k : OutboxKey} {t : Option Nat} :
    Tells cfg a (RowOut a.req) (enqueueOutbox k t) (Unnoted ns) (fun _ _ => True) ns :=
  ⟨trivial, fun _ _ => ⟨trivial, fun _ _ => rfl, trivial⟩, trivial⟩

theorem requestVerification_tells {s : Nat} :
    Tells cfg a (RowOut a.req) (requestVerification s) (Unnoted (.verified s :: ns)) (fun _ _ => True)
      ns := by
  refine tells_quiet trivial trivial (fun _ _ => rfl) fun id => ?_
  refine tells_addVerification trivial (fun _ => trivial) ?_
  exact tells_bind.mpr (enqueue_tells.mono (fun _ _ h => h) fun _ _ h => h)

/-- An answer after the last write. -/
theorem respond_tells {s : Nat} {current : Job}
    (hheal : current.currentSubmissionId = none →
      ∃ row, lastJob ns = some (j, row) ∧ JobRow ns a.req j row (current.healed s)) :
    Tells cfg a (RowOut a.req) (respondWithExistingSubmission j current s) (fun _ _ => True)
      (fun _ _ => True) ns := by
  refine tells_bind.mpr ?_
  simp only [onlyIf]
  split_ifs with hnone
  · refine ⟨hheal hnone, fun _ _ => ?_, trivial⟩
    exact tells_quiet trivial trivial (fun _ _ => rfl) fun _ => trivial
  · exact tells_quiet trivial trivial (fun _ _ => rfl) fun _ => trivial

variable (hreq : a.req = .submit i j key body)

include hreq

theorem resume_tells {s : Nat} {refs : List ArtifactRef} (hjob : lastJob ns = some (j, row))
    (hworker : row.leaseWorkerId = some i) (hstored : .submission s j ∈ ns) :
    Tells cfg a (RowOut a.req) (resumeSubmission j i row s refs) (fun _ _ => True) (fun _ _ => True)
      ns := by
  have hheal : ∀ ns', lastJob ns' = some (j, row) → .submission s j ∈ ns' → .verified s ∈ ns' →
      Tells cfg a (RowOut a.req) (resumeSubmission.heal j row s) (fun _ _ => True) (fun _ _ => True)
        ns' := by
    intro ns' hjob hstored hverified
    simp only [resumeSubmission.heal]
    by_cases hopen : row.status = .claimed ∨ row.status = .opened
    · rw [if_pos hopen]
      refine ⟨⟨row, hjob, ?_⟩, fun _ _ => ?_, trivial⟩
      · rw [hreq]
        exact .verifying i j key body row s hstored hverified
      · exact respond_tells fun hnone => absurd hnone (by simp [Job.verifyingAs])
    · rw [if_neg hopen]
      refine respond_tells fun hnone => ⟨row, hjob, ?_⟩
      rw [hreq]
      exact .healed i j key body row s hworker hnone (fun h => hopen (Or.inl h))
        (fun h => hopen (Or.inr h)) hstored hverified
  refine tells_bind.mpr (attach_tells.mono ?_ fun _ _ _ => trivial)
  rintro r _ rfl
  cases r with
  | some message => trivial
  | none =>
      refine tells_verification trivial trivial ?_ fun ver => ?_
      · refine tells_bind.mpr (requestVerification_tells.mono ?_ fun _ _ _ => trivial)
        rintro id _ rfl
        exact hheal _ hjob (by simp [hstored]) (by simp)
      · refine tells_bind.mpr ?_
        simp only [onlyIf]
        split_ifs
        · refine enqueue_tells.mono ?_ fun _ _ _ => trivial
          rintro _ _ rfl
          exact hheal _ hjob (by simp [hstored]) (by simp)
        · exact hheal _ hjob (by simp [hstored]) (by simp)

/-- A new submission, given whether it is a duplicate. -/
theorem create_tells (hjob : lastJob ns = some (j, row)) :
    Tells cfg a (RowOut a.req) (createSubmission cfg j i row key body) (fun _ _ => True)
      (fun _ _ => True) ns := by
  have hduplicate : ∀ (ns' : List RowNote) (sid : Nat) (F : Unit → List RowNote → Prop),
      lastJob ns' = some (j, row) → .duplicate ∈ ns' → .submission sid j ∈ ns' →
      F () ns' → Tells cfg a (RowOut a.req) (updateJob j (row.duplicateAs sid)) F (fun _ _ => True)
        ns' := by
    intro ns' sid F hjob hdup hstored hF
    refine ⟨⟨row, hjob, ?_⟩, fun _ _ => hF, trivial⟩
    rw [hreq]
    exact .duplicate i j key body row sid hdup hstored
  have hverifying : ∀ (ns' : List RowNote) (sid : Nat) (F : Unit → List RowNote → Prop),
      lastJob ns' = some (j, row) → .submission sid j ∈ ns' → .verified sid ∈ ns' →
      F () ns' → Tells cfg a (RowOut a.req) (updateJob j (row.verifyingAs sid)) F (fun _ _ => True)
        ns' := by
    intro ns' sid F hjob hstored hverified hF
    refine ⟨⟨row, hjob, ?_⟩, fun _ _ => hF, trivial⟩
    rw [hreq]
    exact .verifying i j key body row sid hstored hverified
  refine tells_isAcceptedDuplicate trivial trivial ?_ ?_
  · refine tells_quiet trivial trivial (fun _ _ => rfl) fun sid => ?_
    refine tells_quiet trivial trivial (fun _ _ => rfl) fun now => ?_
    refine tells_addSubmission trivial (fun _ => trivial) ?_
    refine tells_bind.mpr (attach_tells.mono ?_ fun _ _ _ => trivial)
    rintro r _ rfl
    cases r with
    | some message => trivial
    | none =>
        refine tells_bind.mpr (requestVerification_tells.mono ?_ fun _ _ _ => trivial)
        rintro vid _ rfl
        refine tells_bind.mpr (hverifying _ sid _ hjob ?_ ?_ trivial)
        · exact List.mem_cons_of_mem _ List.mem_cons_self
        · exact List.mem_cons_self
  · refine tells_quiet trivial trivial (fun _ _ => rfl) fun sid => ?_
    refine tells_quiet trivial trivial (fun _ _ => rfl) fun now => ?_
    refine tells_addSubmission trivial (fun _ => trivial) ?_
    refine tells_bind.mpr (attach_tells.mono ?_ fun _ _ _ => trivial)
    rintro r _ rfl
    cases r with
    | some message => trivial
    | none =>
        refine tells_bind.mpr (hduplicate _ sid _ hjob ?_ ?_ trivial)
        · exact List.mem_cons_of_mem _ List.mem_cons_self
        · exact List.mem_cons_self

theorem checkAndCreate_tells (hjob : lastJob ns = some (j, row)) :
    Tells cfg a (RowOut a.req) (checkAndCreate cfg j i row key body) (fun _ _ => True)
      (fun _ _ => True) ns := by
  refine tells_quiet trivial trivial (fun _ _ => rfl) fun now => ?_
  split_ifs
  · trivial
  · simp only [getBountyOrThrow, bind_eq_bind, Prog.bind_assoc]
    refine tells_quiet trivial trivial (fun _ _ => rfl) fun bounty => ?_
    cases bounty with
    | none => trivial
    | some bounty =>
        simp only [pure_eq_ret, Prog.ret_bind]
        cases body.manifest.finalUrl with
        | malformed => trivial
        | absent => exact create_tells hreq hjob
        | origin o =>
            dsimp only
            split_ifs
            · exact create_tells hreq hjob
            · trivial

theorem submitByKey_tells (hjob : lastJob ns = some (j, row)) (hworker : row.leaseWorkerId = some i) :
    Tells cfg a (RowOut a.req) (submitByKey cfg j i row key body) (fun _ _ => True)
      (fun _ _ => True) ns := by
  cases key with
  | none => exact checkAndCreate_tells hreq hjob
  | some k =>
      refine tells_submissionByKey trivial trivial (checkAndCreate_tells hreq hjob) fun s existing => ?_
      dsimp only
      split_ifs
      · trivial
      · exact resume_tells hreq hjob hworker (by simp)

/-- The submit route. -/
theorem submitRoute_tells :
    Tells cfg a (RowOut a.req) (submitRoute cfg i j key body) (fun _ _ => True)
      (fun _ _ => True) ns := by
  refine tells_getJob trivial trivial trivial fun row => ?_
  change Tells cfg a (RowOut a.req) (submitJob cfg i j key body row) (fun _ _ => True)
    (fun _ _ => True) (.job j row :: ns)
  simp only [submitJob]
  by_cases hworker : row.leaseWorkerId = some i
  · rw [if_neg (not_not_intro hworker)]
    refine tells_quiet trivial trivial (fun _ _ => rfl) fun now => ?_
    split_ifs
    · trivial
    · cases hcurrent : row.currentSubmissionId with
      | none => exact submitByKey_tells hreq rfl hworker
      | some current =>
          refine tells_getSubmission trivial trivial (submitByKey_tells hreq rfl hworker) fun existing => ?_
          dsimp only
          split_ifs
          · exact respond_tells fun hnone => absurd (hcurrent.symm.trans hnone) (by simp)
          · exact submitByKey_tells hreq rfl hworker
  · rw [if_pos hworker]
    trivial

end Submit

section Verdicts

variable {cfg : Config} {a : Actor Request} {ns : List RowNote} {body : VerdictBody}
  {submission : Submission} {row : Job} {verificationId : Nat}

/-- Any statement but the write of a job. -/
def NoJobUpdate (s : Stmt) : Prop := ∀ j new, s ≠ .job (.update j new)

theorem NoJobUpdate.out {s : Stmt} {q : Request} (h : NoJobUpdate s) : RowOut q ns s := by
  cases s with
  | job s =>
      cases s with
      | update j new => exact absurd rfl (h j new)
      | _ => trivial
  | _ => trivial

/-- A piece that writes no job. -/
theorem tells_of_every {α : Type} {p : Code α} (h : p.Every NoJobUpdate) :
    Tells cfg a (RowOut a.req) p (fun _ _ => True) (fun _ _ => True) ns :=
  h.tells fun _ _ hs => hs.out

theorem createPayout_noJobUpdate {submissionId workerId : Nat} {bounty : Bounty} :
    (createPayout cfg submissionId workerId bounty).Every NoJobUpdate :=
  createPayout_every (by simp [NoJobUpdate]) (by simp [NoJobUpdate]) (by simp [NoJobUpdate])
    (by simp [NoJobUpdate]) (by simp [NoJobUpdate])

theorem completeJob_tells (hjob : lastJob ns = some (submission.jobId, row)) :
    Tells cfg a (RowOut a.req) (completeJob cfg body verificationId submission (row.judged body))
      (fun _ _ => True) (fun _ _ => True) ns := by
  refine tells_quiet trivial trivial (fun _ _ => rfl) fun doneAt => ?_
  refine tells_quiet ⟨row, hjob, .completed _ body _ row doneAt⟩ trivial (fun _ _ => rfl) fun _ => ?_
  refine tells_of_every (Prog.Every.bind ?_ fun _ => trivial)
  refine every_onlyIf.mpr fun _ => Prog.Every.bind ?_ fun bounty => ?_
  · exact getBountyOrThrow_every (by simp [NoJobUpdate])
  · exact createPayout_noJobUpdate.bind fun _ => by simp [NoJobUpdate]

variable (hreq : a.req = .verifierVerdict body ∨ a.req = .verificationRunner)

include hreq

theorem requeueOrComplete_tells (hjob : lastJob ns = some (submission.jobId, row)) :
    Tells cfg a (RowOut a.req) (requeueOrComplete cfg body verificationId submission (row.judged body))
      (fun _ _ => True) (fun _ _ => True) ns := by
  have hcomplete : Tells cfg a (RowOut a.req)
      (completeJob cfg body verificationId submission (row.judged body)) (fun _ _ => True)
      (fun _ _ => True) ns := completeJob_tells hjob
  simp only [requeueOrComplete]
  split_ifs
  · refine tells_quiet trivial trivial (fun _ _ => rfl) fun attempts => ?_
    split_ifs
    · refine tells_quiet trivial trivial (fun _ _ => rfl) fun id => ?_
      refine tells_addVerification trivial (fun _ => trivial) ?_
      refine tells_bind.mpr (enqueue_tells.mono ?_ fun _ _ _ => trivial)
      rintro _ _ rfl
      exact ⟨⟨row, hjob, .requeued _ body _ row hreq⟩, fun _ _ => trivial, trivial⟩
    · exact hcomplete
  · exact hcomplete

theorem applyVerdict_tells :
    Tells cfg a (RowOut a.req) (applyVerdict cfg body verificationId) (fun _ _ => True)
      (fun _ _ => True) ns := by
  refine tells_getSubmission trivial trivial trivial fun submission => ?_
  refine tells_quiet trivial trivial (fun _ _ => rfl) fun _ => ?_
  have hregister : (recordReputation submission.workerId (body.verdict = .pass)).Every NoJobUpdate ∧
      (registerOnPass submission body.verdict).Every NoJobUpdate := by
    refine ⟨by simp [recordReputation, NoJobUpdate], ?_⟩
    simp only [registerOnPass]
    cases submission.dedupeKey with
    | none => trivial
    | some dedupeKey =>
        refine every_onlyIf.mpr fun _ => ?_
        refine Prog.every_perform_bind.mpr ⟨by simp [NoJobUpdate], fun job => ?_⟩
        cases job with
        | none => trivial
        | some job =>
            exact (getBountyOrThrow_every (by simp [NoJobUpdate])).bind fun _ => by simp [NoJobUpdate]
  refine tells_bind.mpr ((tells_of_every hregister.1).mono (fun _ _ _ => ?_) fun _ _ h => h)
  refine tells_bind.mpr ((tells_of_every hregister.2).mono (fun _ _ _ => ?_) fun _ _ h => h)
  refine tells_getJob trivial trivial trivial fun job => ?_
  exact requeueOrComplete_tells hreq rfl

/-- The verdict route. -/
theorem verifierVerdict_tells :
    Tells cfg a (RowOut a.req) (verifierVerdict cfg body) (fun _ _ => True) (fun _ _ => True) ns := by
  refine tells_verification trivial trivial trivial fun v => ?_
  dsimp only
  split_ifs
  · trivial
  · refine tells_getSubmission trivial trivial trivial fun submission => ?_
    exact tells_getJob trivial trivial trivial fun job => trivial
  · refine tells_quiet trivial trivial (fun _ _ => rfl) fun now => ?_
    split_ifs
    · trivial
    · exact tells_quiet trivial trivial (fun _ _ => rfl) fun _ => applyVerdict_tells hreq

end Verdicts

section Routes

variable {cfg : Config} {a : Actor Request} {ns : List RowNote}

theorem verifierClaim_noJobUpdate (c : ClaimBody) : (verifierClaim c).Every NoJobUpdate := by
  refine (verifierClaim_every c).mono fun s hs => ?_
  rintro j new rfl
  exact hs.elim

/-- The delivery of a verification. -/
theorem handleVerificationRequested_tells {i s n : Nat} (hreq : a.req = .verificationRunner) :
    Tells cfg a (RowOut a.req) (handleVerificationRequested cfg i s n) (fun _ _ => True)
      (fun _ _ => True) ns := by
  refine tells_bind.mpr ((tells_of_every (verifierClaim_noJobUpdate _)).mono (fun r _ _ => ?_)
    fun _ _ h => h)
  cases r with
  | error status code message => trivial
  | ok claim =>
      refine tells_quiet trivial trivial (fun _ _ => rfl) fun answer => ?_
      refine tells_bind.mpr ((verifierVerdict_tells (Or.inr hreq)).mono (fun r _ _ => ?_)
        fun _ _ h => h)
      cases r <;> trivial

theorem markDuplicateRoute_tells {s : Nat} (hreq : a.req = .markDuplicate s) :
    Tells cfg a (RowOut a.req) (markDuplicateRoute s) (fun _ _ => True) (fun _ _ => True) ns := by
  refine tells_getSubmission trivial trivial trivial fun sub => ?_
  refine tells_quiet trivial trivial (fun _ _ => rfl) fun _ => ?_
  refine tells_getJob trivial trivial trivial fun row => ?_
  refine ⟨⟨row, rfl, ?_⟩, fun _ _ => trivial, trivial⟩
  rw [hreq]
  exact .markedDuplicate s _ row

theorem overrideVerdictRoute_tells {s : Nat} {v : Option Verdict} {score : Option Nat}
    (hreq : a.req = .overrideVerdict s v score) :
    Tells cfg a (RowOut a.req) (overrideVerdictRoute cfg s v score) (fun _ _ => True)
      (fun _ _ => True) ns := by
  refine tells_getSubmission trivial trivial trivial fun sub => ?_
  cases v with
  | none => trivial
  | some verdict =>
      refine tells_quiet trivial trivial (fun _ _ => rfl) fun _ => ?_
      refine tells_getJob trivial trivial ?_ fun row => ?_
      · dsimp only
        split_ifs <;> trivial
      · refine tells_quiet ⟨row, rfl, ?_⟩ trivial (fun _ _ => rfl) fun _ => ?_
        · rw [hreq]
          exact .overridden s _ score _ row verdict _
        · refine tells_of_every (Prog.Every.bind ?_ fun _ => trivial)
          refine every_onlyIf.mpr fun _ => Prog.Every.bind ?_ fun bounty => createPayout_noJobUpdate.bind ?_
          · exact getBountyOrThrow_every (by simp [NoJobUpdate])
          · intro _
            cases (sub.overridden verdict score).dedupeKey <;> simp [NoJobUpdate]

end Routes

/-- What a request writes of jobs, by what it has noted. -/
def rowConduct (a : Actor Request) : Conduct Stmt Tag World Lock RowNote where
  out g s _ := RowOut a.req (own a.pid g.hist) s
  inside _ _ _ _ := True
  commit _ _ _ _ := True

/-- Requests that write no whole job. -/
theorem Request.updates_job {q : Request} {j : Nat} {new : Job}
    (h : q.Executes (.job (.update j new))) :
    (∃ i j key body, q = .submit i j key body) ∨ (∃ body, q = .verifierVerdict body) ∨
      (∃ s, q = .markDuplicate s) ∨ (∃ s v score, q = .overrideVerdict s v score) ∨
      q = .verificationRunner := by
  cases q with
  | submit i j key body => exact Or.inl ⟨i, j, key, body, rfl⟩
  | verifierVerdict body => exact Or.inr (Or.inl ⟨body, rfl⟩)
  | markDuplicate s => exact Or.inr (Or.inr (Or.inl ⟨s, rfl⟩))
  | overrideVerdict s v score => exact Or.inr (Or.inr (Or.inr (Or.inl ⟨s, v, score, rfl⟩)))
  | verificationRunner => exact Or.inr (Or.inr (Or.inr (Or.inr rfl)))
  | payoutRunner =>
      obtain h | ⟨key, htopic, hhandler | hfinal⟩ := h
      · exact h.elim
      · cases key with
        | verification i n => exact absurd htopic (by simp [payoutTopics, OutboxKey.topic])
        | _ => exact hhandler.elim
      · exact hfinal.elim
  | release i j n | reapLeases | payoutAddress i x | stripeWebhook e =>
      obtain h | h := h
      · exact h.elim
      · first | exact absurd h (by simp) | exact h.elim
  | _ => exact h.elim

/-- Every request writes jobs made from those it has read. -/
theorem Request.rows_does {cfg : Config} {τ : Terms World Lock RowNote} {pid : Nat} (q : Request)
    (hgrow : ∀ w w', τ.grow w w' → w.Grows w') :
    (q.code cfg pid).Does (system cfg rowNotes) τ ⟨pid, q⟩ (rowConduct ⟨pid, q⟩)
      (fun _ _ => True) (fun _ _ => True) .start := by
  have hD : Lenient cfg τ pid (rowConduct ⟨pid, q⟩) fun _ => True :=
    { grow := hgrow
      read := fun _ _ _ => trivial
      nanoid := fun _ _ => trivial
      inside := fun _ _ _ _ _ => trivial
      commit := fun _ _ _ _ _ _ => trivial }
  have htold : ∀ {α : Type} {p : Code α},
      (∀ ns, Tells cfg ⟨pid, q⟩ (RowOut q) p (fun _ _ => True) (fun _ _ => True) ns) →
      p.Keeps (system cfg rowNotes) τ ⟨pid, q⟩ (rowConduct ⟨pid, q⟩) fun _ => True :=
    fun hp => Prog.Follows.keeps (fun ns => (hp ns).follows) fun _ _ _ h => h
  have hkeeps : (q.code cfg pid).Keeps (system cfg rowNotes) τ ⟨pid, q⟩ (rowConduct ⟨pid, q⟩)
      fun _ => True := by
    cases q with
    | submit i j key body =>
        exact (htold fun _ => submitRoute_tells (a := ⟨pid, _⟩) rfl).bind fun _ => Prog.keeps_ret
    | verifierVerdict body =>
        exact (htold fun _ => verifierVerdict_tells (a := ⟨pid, _⟩) (Or.inl rfl)).bind
          fun _ => Prog.keeps_ret
    | markDuplicate s =>
        exact (htold fun _ => markDuplicateRoute_tells (a := ⟨pid, _⟩) rfl).bind fun _ => Prog.keeps_ret
    | overrideVerdict s v score =>
        exact (htold fun _ => overrideVerdictRoute_tells (a := ⟨pid, _⟩) rfl).bind
          fun _ => Prog.keeps_ret
    | verificationRunner =>
        refine Prog.Keeps.bind ?_ fun _ => Prog.keeps_ret
        refine runOutboxLoop_keeps_of (a := ⟨pid, .verificationRunner⟩) hD trivial fun evt htopic => ?_
        refine deliver_keeps_of (a := ⟨pid, .verificationRunner⟩) ?_ fun s _ _ _ => trivial
        obtain ⟨key, n⟩ := evt
        cases key with
        | verification s n =>
            exact htold fun _ => handleVerificationRequested_tells (a := ⟨pid, _⟩) rfl
        | _ => exact absurd htopic (by simp [verificationTopics, OutboxKey.topic])
    | _ =>
        refine Request.code_keeps (a := ⟨pid, _⟩) { hD with commit := fun _ _ _ _ _ _ => trivial }
          fun g s busy h _ => ?_
        cases s with
        | job s =>
            cases s with
            | update j new => exact absurd (Request.updates_job h) (by simp)
            | _ => trivial
        | _ => trivial
  exact (hkeeps .start ⟨⟨rfl, rfl⟩, fun _ _ _ => trivial⟩).mono (fun _ _ _ => trivial)
    (fun _ _ _ => trivial) (fun _ _ _ h => h) (fun _ _ _ _ h => h) fun _ _ _ _ h => h

end OpenUnion
