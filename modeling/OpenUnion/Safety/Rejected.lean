import OpenUnion.Code.Bounties
import OpenUnion.Code.Submit
import OpenUnion.Interleave.Solo

/-!
# Rejected submits

The submit route stores the submission, and attaches its artifacts one by one, before the
check that can still answer 400.  A submit on its own is `World.submit`.

* `rejected_submit_iff`: a rejected submit leaves every table as it was, and the retry with
  the same key behaves as a first submit, exactly when the artifact references cannot be the
  reason: the request is refused before them, or each of them can be attached, or those before
  the first bad one say of an existing submission what its artifacts already say.
* `rejected_submit_kept`: a submit with one good and one missing artifact is answered 400, its
  submission stays with the good artifact attached, and the corrected retry is a conflict.
-/

namespace OpenUnion

open Interleave

/-- The answer is a 4xx. -/
def Http.rejected {α : Type} : Http α → Bool
  | .ok _ => false
  | .error status _ _ => decide (400 ≤ status ∧ status < 500)

/-- The artifact passes the checks of `attachSubmissionArtifacts`. -/
def Artifact.attachable (jobId workerId : Nat) (a : Artifact) : Bool :=
  !a.deleted && a.workerId.all (fun i => decide (i = workerId)) &&
    a.jobId.all (fun j => decide (j = jobId)) && decide (a.status = .scanned ∨ a.status = .accepted)

/-- The reference is to an artifact that can be attached. -/
def World.attachable (w : World) (jobId workerId : Nat) (ref : ArtifactRef) : Bool :=
  (w.artifacts ref.artifactId).any (Artifact.attachable jobId workerId)

/-- The artifacts once the one of a reference is attached. -/
def attachedTo (submissionId : Nat) (t : Nat → Option Artifact) (ref : ArtifactRef) :
    Nat → Option Artifact :=
  modify t ref.artifactId fun a => a.attached submissionId (ref.info a)

/-- The world once the artifacts of some references are attached. -/
def World.withAttached (w : World) (submissionId : Nat) (refs : List ArtifactRef) : World :=
  { w with artifacts := refs.foldl (attachedTo submissionId) w.artifacts }

/-- The submission to which the submit route attaches artifacts. -/
inductive SubmitTarget where
  | existing (submissionId : Nat)
  | new

/-- A new submission passes its checks and can be stored. -/
def World.admitsNew (w : World) (job : Job) (body : SubmitBody) : Bool :=
  !job.isStale w.now && (w.submissions w.nextId).isNone &&
    (w.bounties job.bountyId).any fun bounty =>
      match body.manifest.finalUrl with
      | .malformed => false
      | .absent => true
      | .origin o => decide (o ∈ bounty.allowedOrigins)

/-- The submission found by the idempotency key. -/
def World.byKey (w : World) (workerId jobId : Nat) (key : Option Nat) :
    Option (Nat × Submission) :=
  key.bind (w.submissionByKey jobId workerId)

/-- The submission to which the submit route attaches artifacts, for the job it has read. -/
def World.targetOf (w : World) (cfg : Config) (workerId jobId : Nat) (key : Option Nat)
    (body : SubmitBody) (job : Job) : Option SubmitTarget :=
  if job.leaseWorkerId ≠ some workerId ∨ isLeaseExpired job.leaseExpiresAt w.now = true then none
  else if (job.currentSubmissionId.bind w.submissions).any fun s => decide (s.workerId = workerId) then
    none
  else
    match w.byKey workerId jobId key with
    | some (existingId, existing) =>
        if existing.requestHash.any fun h => decide (h ≠ body.requestHash cfg) then none
        else some (.existing existingId)
    | none => if w.admitsNew job body then some .new else none

/-- The submission to which the submit route attaches artifacts, if it gets so far. -/
def World.submitTarget (w : World) (cfg : Config) (workerId jobId : Nat) (key : Option Nat)
    (body : SubmitBody) : Option SubmitTarget :=
  (w.jobs jobId).bind (w.targetOf cfg workerId jobId key body)

/-- No artifact reference can be the reason of a rejection, or what precedes the bad one has no
effect. -/
def World.RefsHarmless (w : World) (cfg : Config) (workerId jobId : Nat) (key : Option Nat)
    (body : SubmitBody) : Prop :=
  match w.submitTarget cfg workerId jobId key body with
  | none => True
  | some .new => body.artifactIndex.all (w.attachable jobId workerId) = true
  | some (.existing submissionId) =>
      body.artifactIndex.all (w.attachable jobId workerId) = true ∨
        (w.withAttached submissionId
          (body.artifactIndex.takeWhile (w.attachable jobId workerId))).artifacts = w.artifacts

/-- `POST /api/jobs/:jobId/submit` on its own. -/
def World.submit (w : World) (cfg : Config) (workerId jobId : Nat) (key : Option Nat)
    (body : SubmitBody) : Except Err (Http Submitted) × World :=
  (submitRoute cfg workerId jobId key body).solo engine none w

/-- Two worlds with the same submissions, artifacts, verifications, jobs and outbox. -/
structure World.SameWork (w w' : World) : Prop where
  submissions : w.submissions = w'.submissions
  artifacts : w.artifacts = w'.artifacts
  verifications : w.verifications = w'.verifications
  jobs : w.jobs = w'.jobs
  outbox : w.outbox = w'.outbox

/-- If the submit is rejected it changes nothing, and a retry with the same key behaves as a
first submit. -/
def World.RejectsCleanly (w : World) (cfg : Config) (workerId jobId : Nat) (key : Option Nat)
    (body : SubmitBody) : Prop :=
  ∀ answer w', w.submit cfg workerId jobId key body = (.ok answer, w') → answer.rejected = true →
    w.SameWork w' ∧
      ∀ retry, w'.submit cfg workerId jobId key retry = w.submit cfg workerId jobId key retry

/-- Ask a question, alone. -/
theorem solo_ask {β : Type} {q : Query} {f : q.Val → Code β} {w : World} :
    ((ask q).bind f).solo engine none w = (f (q.eval w)).solo engine none w := rfl

section Attaching

variable {w : World} {submissionId jobId workerId : Nat} {ref : ArtifactRef}
  {refs : List ArtifactRef}

/-- Attaching an artifact changes nothing that is checked. -/
theorem attachable_withAttached (ref' : ArtifactRef) :
    (w.withAttached submissionId [ref]).attachable jobId workerId ref' =
      w.attachable jobId workerId ref' := by
  by_cases hid : ref'.artifactId = ref.artifactId
  · simp only [World.attachable, World.withAttached, attachedTo, List.foldl_cons, List.foldl_nil, hid,
      modify_self]
    cases w.artifacts ref.artifactId with
    | none => rfl
    | some a => rfl
  · simp [World.attachable, World.withAttached, attachedTo, hid]

theorem attach_missing (hrow : w.artifacts ref.artifactId = none) :
    (attachSubmissionArtifacts.attach submissionId jobId workerId ref).solo engine none w =
      (.error .artifactNotFound, w) := by
  have hread : Query.eval (.artifact ref.artifactId) w = none := hrow
  rw [attachSubmissionArtifacts.attach, bind_eq_bind, solo_ask, hread]
  rfl

/-- The checks on one artifact, once its row has been read. -/
theorem attach_read {art : Artifact} (hrow : w.artifacts ref.artifactId = some art) :
    (attachSubmissionArtifacts.attach submissionId jobId workerId ref).solo engine none w =
      (if art.deleted = true then (.fail .artifactDeleted : Code Unit)
        else if (art.workerId.any fun w => decide (w ≠ workerId)) = true then
          .fail .artifactForbidden
        else if (art.jobId.any fun j => decide (j ≠ jobId)) = true then .fail .artifactWrongJob
        else if art.status = .blocked then .fail .artifactBlocked
        else if art.status ≠ .scanned ∧ art.status ≠ .accepted then .fail .artifactNotScanned
        else run (.attachArtifact ref.artifactId submissionId (ref.info art))).solo
          engine none w := by
  have hread : Query.eval (.artifact ref.artifactId) w = some art := hrow
  rw [attachSubmissionArtifacts.attach, bind_eq_bind, solo_ask, hread]
  rfl

theorem attach_attachable (h : w.attachable jobId workerId ref = true) :
    (attachSubmissionArtifacts.attach submissionId jobId workerId ref).solo engine none w =
      (.ok (), w.withAttached submissionId [ref]) := by
  obtain ⟨art, hrow, hart⟩ := (Option.any_eq_true _ _).mp h
  simp only [Artifact.attachable, Bool.and_eq_true, Bool.not_eq_true', decide_eq_true_eq] at hart
  obtain ⟨⟨⟨hdeleted, hworker⟩, hjob⟩, hstatus⟩ := hart
  have hworker' : (art.workerId.any fun i => decide (i ≠ workerId)) = false := by
    cases hi : art.workerId <;> simp_all
  have hjob' : (art.jobId.any fun j => decide (j ≠ jobId)) = false := by
    cases hj : art.jobId <;> simp_all
  have hblocked : art.status ≠ .blocked := by
    rcases hstatus with h | h <;> simp [h]
  have hscanned : ¬ (art.status ≠ .scanned ∧ art.status ≠ .accepted) := by
    rcases hstatus with h | h <;> simp [h]
  have hwritten : modify w.artifacts ref.artifactId (Artifact.attached submissionId (ref.info art)) =
      attachedTo submissionId w.artifacts ref := by
    simp [attachedTo, modify, hrow]
  rw [attach_read hrow]
  simp only [hdeleted, hworker', hjob', Bool.false_eq_true, if_false, if_neg hblocked,
    if_neg hscanned]
  exact congrArg (fun t => (Except.ok (), { w with artifacts := t })) hwritten

theorem attach_refused (h : w.attachable jobId workerId ref = false) :
    ∃ err, (attachSubmissionArtifacts.attach submissionId jobId workerId ref).solo engine none w =
      (.error err, w) := by
  cases hrow : w.artifacts ref.artifactId with
  | none => exact ⟨_, attach_missing hrow⟩
  | some art =>
      rw [attach_read hrow]
      have hart : art.attachable jobId workerId = false := by
        simpa [World.attachable, hrow] using h
      split_ifs with hdeleted hworker hjob hblocked hscanned <;> first | exact ⟨_, rfl⟩ | skip
      refine absurd hart ?_
      have hi : art.workerId.all (fun i => decide (i = workerId)) = true := by
        cases hi : art.workerId <;> simp_all
      have hj : art.jobId.all (fun j => decide (j = jobId)) = true := by
        cases hj : art.jobId <;> simp_all
      have hstatus : art.status = .scanned ∨ art.status = .accepted := by
        by_contra hnot
        exact hscanned (not_or.mp hnot)
      simp [Artifact.attachable, hdeleted, hi, hj, hstatus]

theorem attach_flat (submissionId jobId workerId : Nat) (ref : ArtifactRef) :
    (attachSubmissionArtifacts.attach submissionId jobId workerId ref).Flat := by
  intro r
  cases r with
  | none => trivial
  | some art =>
      change Prog.Flat (if _ then _ else _)
      split_ifs <;> first | trivial | exact Prog.flat_perform _

/-- References that can all be attached are. -/
theorem attachAll_attachable (h : refs.all (w.attachable jobId workerId) = true) :
    (attachSubmissionArtifacts submissionId jobId workerId refs).solo engine none w =
      (.ok (), w.withAttached submissionId refs) := by
  induction refs generalizing w with
  | nil => rfl
  | cons ref refs ih =>
      obtain ⟨href, hrefs⟩ : w.attachable jobId workerId ref = true ∧
          refs.all (w.attachable jobId workerId) = true := by simpa using h
      have hrest : refs.all ((w.withAttached submissionId [ref]).attachable jobId workerId) = true := by
        rw [funext attachable_withAttached]
        exact hrefs
      exact ((attach_flat submissionId jobId workerId ref).solo_bind_ok
        (attach_attachable href)).trans (ih hrest)

/-- Otherwise those before the first that cannot are. -/
theorem attachAll_refused (h : refs.all (w.attachable jobId workerId) = false) :
    ∃ err, (attachSubmissionArtifacts submissionId jobId workerId refs).solo engine none w =
      (.error err, w.withAttached submissionId (refs.takeWhile (w.attachable jobId workerId))) := by
  induction refs generalizing w with
  | nil => simp at h
  | cons ref refs ih =>
      have hflat := attach_flat submissionId jobId workerId ref
      by_cases href : w.attachable jobId workerId ref = true
      · have hrest : refs.all ((w.withAttached submissionId [ref]).attachable jobId workerId) =
            false := by
          rw [funext attachable_withAttached]
          simpa [href] using h
        obtain ⟨err, herr⟩ := ih hrest
        rw [funext attachable_withAttached] at herr
        rw [List.takeWhile_cons_of_pos href]
        exact ⟨err, (hflat.solo_bind_ok (attach_attachable href)).trans herr⟩
      · have hfail : ∃ err, (attachSubmissionArtifacts.attach submissionId jobId workerId ref).solo
            engine none w = (.error err, w) := attach_refused (Bool.eq_false_iff.mpr href)
        obtain ⟨err, herr⟩ := hfail
        rw [List.takeWhile_cons_of_neg href]
        exact ⟨err, hflat.solo_bind_error herr⟩

theorem attachAll_flat : (attachSubmissionArtifacts submissionId jobId workerId refs).Flat :=
  Prog.flat_forEach (attach_flat submissionId jobId workerId) refs

theorem attachThenNone_flat : ((attachSubmissionArtifacts submissionId jobId workerId refs).bind
    fun _ => (.ret none : Code (Option String))).Flat :=
  attachAll_flat.bind fun _ => trivial

theorem attachOrReject_flat : (attachOrReject submissionId jobId workerId refs).Flat :=
  attachThenNone_flat.orElse fun _ => trivial

theorem attachOrReject_attachable (h : refs.all (w.attachable jobId workerId) = true) :
    (attachOrReject submissionId jobId workerId refs).solo engine none w =
      (.ok none, w.withAttached submissionId refs) :=
  attachThenNone_flat.solo_orElse_ok (attachAll_flat.solo_bind_ok (attachAll_attachable h))

theorem attachOrReject_refused (h : refs.all (w.attachable jobId workerId) = false) :
    ∃ message, (attachOrReject submissionId jobId workerId refs).solo engine none w =
      (.ok (some message),
        w.withAttached submissionId (refs.takeWhile (w.attachable jobId workerId))) := by
  have hfail : ∃ err, (attachSubmissionArtifacts submissionId jobId workerId refs).solo engine none
      w = (.error err, w.withAttached submissionId (refs.takeWhile (w.attachable jobId workerId))) :=
    attachAll_refused h
  obtain ⟨err, herr⟩ := hfail
  exact ⟨err.message,
    attachThenNone_flat.solo_orElse_error (attachAll_flat.solo_bind_error herr)⟩

end Attaching

section Answers

variable {cfg : Config} {w : World} {submissionId jobId workerId : Nat} {key : Option Nat}
  {body : SubmitBody} {job : Job} {refs : List ArtifactRef}

/-- No end of the program is a rejection. -/
abbrev NeverRejects (p : Code (Http Submitted)) : Prop :=
  p.Leaves (fun answer => answer.rejected = false) fun _ => True

theorem respond_never : NeverRejects (respondWithExistingSubmission jobId job submissionId) := by
  refine Prog.Leaves.bind ((Prog.leaves_true _).mono (fun _ _ => ?_) fun _ _ => trivial)
  exact ⟨fun _ => rfl, trivial⟩

theorem heal_never : NeverRejects (resumeSubmission.heal jobId job submissionId) := by
  simp only [resumeSubmission.heal]
  split_ifs
  · exact ⟨fun _ => respond_never, trivial⟩
  · exact respond_never

/-- Once the artifacts are attached a resumed submission is not rejected. -/
theorem resume_attachable (h : refs.all (w.attachable jobId workerId) = true)
    {answer : Http Submitted} {w' : World}
    (hout : (resumeSubmission jobId workerId job submissionId refs).solo engine none w =
      (.ok answer, w')) : answer.rejected = false := by
  rw [resumeSubmission, bind_eq_bind,
    attachOrReject_flat.solo_bind_ok (attachOrReject_attachable h)] at hout
  refine Prog.Leaves.solo (F := fun answer => answer.rejected = false) (G := fun _ => True) ?_ hout
  refine ⟨fun existing => ?_, trivial⟩
  cases existing with
  | none => exact ((Prog.leaves_true _).mono (fun _ _ => heal_never) fun _ _ => trivial).bind
  | some existing =>
      exact ((Prog.leaves_true _).mono (fun _ _ => heal_never) fun _ _ => trivial).bind

/-- With a bad reference it is, and the references before it are attached. -/
theorem resume_refused (h : refs.all (w.attachable jobId workerId) = false) :
    ∃ message, (resumeSubmission jobId workerId job submissionId refs).solo engine none w =
      (.ok (.error 400 "invalid_artifact" message),
        w.withAttached submissionId (refs.takeWhile (w.attachable jobId workerId))) := by
  have hattach : ∃ message, (attachOrReject submissionId jobId workerId refs).solo engine none w =
      (.ok (some message),
        w.withAttached submissionId (refs.takeWhile (w.attachable jobId workerId))) :=
    attachOrReject_refused h
  obtain ⟨message, hmessage⟩ := hattach
  refine ⟨message, ?_⟩
  rw [resumeSubmission, bind_eq_bind, attachOrReject_flat.solo_bind_ok hmessage]
  rfl

/-- The world once a new submission is stored. -/
def World.withSubmission (w : World) (submission : Submission) : World :=
  { w with
    nextId := w.nextId + 1
    submissions := Function.update w.submissions w.nextId (some submission) }

/-- Drawing an id finds no other submission by its key. -/
theorem submissionByKey_drawn {k : Nat} (hfresh : w.submissions w.nextId = none)
    (hkey : w.submissionByKey jobId workerId k = none) :
    World.submissionByKey { w with nextId := w.nextId + 1 } jobId workerId k = none := by
  simp only [World.submissionByKey, World.ids, List.findSome?_eq_none_iff, List.mem_range] at hkey ⊢
  intro i hi
  rcases Nat.lt_or_eq_of_le (Nat.lt_succ_iff.mp hi) with hlt | rfl
  · exact hkey i hlt
  · simp [hfresh]

/-- What follows the storing of a new submission. -/
def afterStored (jobId workerId : Nat) (job : Job) (submissionId : Nat) (duplicate : Bool)
    (refs : List ArtifactRef) : Code (Http Submitted) :=
  (attachOrReject submissionId jobId workerId refs).bind fun
    | some message => return .error 400 "invalid_artifact" message
    | none =>
        if duplicate then do
          updateJob jobId (job.duplicateAs submissionId)
          return .ok ⟨true, job.duplicateAs submissionId, submissionId, none⟩
        else do
          let verificationId ← requestVerification submissionId
          updateJob jobId (job.verifyingAs submissionId)
          return .ok ⟨false, job.verifyingAs submissionId, submissionId, some verificationId⟩

theorem addSubmission_solo {submission : Submission}
    (hfree : SubmissionStmt.free submissionId submission w = true) :
    (addSubmission submissionId submission).solo engine none w =
      (.ok (), { w with
        submissions := Function.update w.submissions submissionId (some submission) }) := by
  have hresult : engine.result (.submission (.insert submissionId submission)) free w = true := hfree
  have hwrite : SubmissionStmt.write (.insert submissionId submission) w w.submissions =
      Function.update w.submissions submissionId (some submission) := if_pos hfree
  rw [addSubmission, Prog.solo_perform_bind, hresult]
  exact congrArg (fun t => (Except.ok (), { w with submissions := t })) hwrite

theorem addSubmission_flat {submission : Submission} :
    (addSubmission submissionId submission).Flat := by
  intro r
  cases r <;> trivial

theorem addSubmission_taken {submission : Submission}
    (htaken : SubmissionStmt.free submissionId submission w = false) :
    (addSubmission submissionId submission).solo engine none w = (.error .uniqueViolation, w) := by
  have hresult : engine.result (.submission (.insert submissionId submission)) free w = false :=
    htaken
  have hwrite : SubmissionStmt.write (.insert submissionId submission) w w.submissions =
      w.submissions := if_neg (Bool.eq_false_iff.mp htaken)
  rw [addSubmission, Prog.solo_perform_bind, hresult]
  exact congrArg (fun t => (Except.error Err.uniqueViolation, { w with submissions := t })) hwrite

/-- A new submission is stored before its artifacts are attached. -/
theorem create_solo (hfresh : w.submissions w.nextId = none)
    (hkey : w.byKey workerId jobId key = none) :
    ∃ submission duplicate, (createSubmission cfg jobId workerId job key body).solo engine none w =
      (afterStored jobId workerId job w.nextId duplicate body.artifactIndex).solo engine none
        (w.withSubmission submission) := by
  let duplicate : Bool :=
    Query.eval (.isAcceptedDuplicate job.bountyId (body.manifest.dedupeKey cfg)) w
  let submission : Submission := .new cfg jobId workerId key body duplicate w.now
  have hfree : SubmissionStmt.free w.nextId submission { w with nextId := w.nextId + 1 } = true := by
    simp only [submission, SubmissionStmt.free, hfresh, Option.isNone_none, Bool.true_and,
      Submission.new]
    cases key with
    | none => rfl
    | some k => simp [submissionByKey_drawn hfresh hkey]
  exact ⟨submission, duplicate, addSubmission_flat.solo_bind_ok (addSubmission_solo hfree)⟩

/-- A new submission whose id is taken is not stored. -/
theorem create_taken (htaken : (w.submissions w.nextId).isNone = false) :
    (createSubmission cfg jobId workerId job key body).solo engine none w =
      (.error .uniqueViolation, { w with nextId := w.nextId + 1 }) := by
  let duplicate : Bool :=
    Query.eval (.isAcceptedDuplicate job.bountyId (body.manifest.dedupeKey cfg)) w
  let submission : Submission := .new cfg jobId workerId key body duplicate w.now
  have hfree : SubmissionStmt.free w.nextId submission { w with nextId := w.nextId + 1 } =
      false := by
    rw [SubmissionStmt.free, htaken, Bool.false_and]
  exact addSubmission_flat.solo_bind_error (addSubmission_taken hfree)

/-- Once the artifacts are attached a new submission is not rejected. -/
theorem stored_attachable {duplicate : Bool} (h : refs.all (w.attachable jobId workerId) = true)
    {answer : Http Submitted} {w' : World}
    (hout : (afterStored jobId workerId job submissionId duplicate refs).solo engine none w =
      (.ok answer, w')) : answer.rejected = false := by
  rw [afterStored, attachOrReject_flat.solo_bind_ok (attachOrReject_attachable h)] at hout
  refine Prog.Leaves.solo (F := fun answer => answer.rejected = false) (G := fun _ => True) ?_ hout
  cases duplicate with
  | true => exact ⟨fun _ => rfl, trivial⟩
  | false =>
      exact ((Prog.leaves_true _).mono (fun _ _ => ⟨fun _ => rfl, trivial⟩) fun _ _ => trivial).bind

/-- With a bad reference it is, and stays stored. -/
theorem stored_refused {duplicate : Bool} (h : refs.all (w.attachable jobId workerId) = false) :
    ∃ message, (afterStored jobId workerId job submissionId duplicate refs).solo engine none w =
      (.ok (.error 400 "invalid_artifact" message),
        w.withAttached submissionId (refs.takeWhile (w.attachable jobId workerId))) := by
  have hattach : ∃ message, (attachOrReject submissionId jobId workerId refs).solo engine none w =
      (.ok (some message),
        w.withAttached submissionId (refs.takeWhile (w.attachable jobId workerId))) :=
    attachOrReject_refused h
  obtain ⟨message, hmessage⟩ := hattach
  refine ⟨message, ?_⟩
  rw [afterStored, attachOrReject_flat.solo_bind_ok hmessage]
  rfl

end Answers

section Routes

variable {cfg : Config} {w : World} {jobId workerId : Nat} {key : Option Nat} {body : SubmitBody}
  {job : Job}

/-- What the route does, told by the submission to which it attaches artifacts. -/
def SubmitOutcome (w : World) (cfg : Config) (workerId jobId : Nat) (key : Option Nat)
    (body : SubmitBody) (out : Except Err (Http Submitted) × World) : Option SubmitTarget → Prop
  | none => ∀ answer w', out = (.ok answer, w') → answer.rejected = true → w' = w
  | some (.existing submissionId) => ∃ job, out =
      (resumeSubmission jobId workerId job submissionId body.artifactIndex).solo engine none w
  | some .new => w.submissions w.nextId = none ∧ w.byKey workerId jobId key = none ∧
      ∃ job, out = (createSubmission cfg jobId workerId job key body).solo engine none w

/-- Nothing has been written yet. -/
theorem outcome_refused (status : Nat) (code message : String) :
    SubmitOutcome w cfg workerId jobId key body (.ok (.error status code message), w) none := by
  intro answer w' h _
  exact (Prod.mk.inj h).2.symm

theorem outcome_thrown (err : Err) (w' : World) :
    SubmitOutcome w cfg workerId jobId key body (.error err, w') none := by
  intro answer w'' h _
  cases h

theorem outcome_never {p : Code (Http Submitted)} (hp : NeverRejects p) :
    SubmitOutcome w cfg workerId jobId key body (p.solo engine none w) none := by
  intro answer w' h hrejected
  have hnot : answer.rejected = false := hp.solo h
  rw [hnot] at hrejected
  cases hrejected

theorem create_outcome (hkey : w.byKey workerId jobId key = none) :
    SubmitOutcome w cfg workerId jobId key body
      ((createSubmission cfg jobId workerId job key body).solo engine none w)
      (if (w.submissions w.nextId).isNone then some .new else none) := by
  by_cases hfresh : (w.submissions w.nextId).isNone = true
  · rw [if_pos hfresh]
    exact ⟨Option.isNone_iff_eq_none.mp hfresh, hkey, job, rfl⟩
  · rw [if_neg hfresh]
    rw [create_taken (Bool.eq_false_iff.mpr hfresh)]
    exact outcome_thrown _ _

theorem getBountyOrThrow_flat {bountyId : Nat} : (getBountyOrThrow bountyId).Flat := by
  intro r
  cases r <;> trivial

/-- The checks on a new submission, for the bounty of its job. -/
theorem checkUrl_outcome (hkey : w.byKey workerId jobId key = none) (bounty : Bounty) :
    SubmitOutcome w cfg workerId jobId key body
      ((match body.manifest.finalUrl with
        | .malformed => return .error 400 "invalid" "finalUrl must be a valid URL"
        | .absent => createSubmission cfg jobId workerId job key body
        | .origin o =>
            if o ∉ bounty.allowedOrigins then
              return .error 400 "origin_violation" "finalUrl outside allowedOrigins"
            else createSubmission cfg jobId workerId job key body :
        Code (Http Submitted)).solo engine none w)
      (if (w.submissions w.nextId).isNone && (match body.manifest.finalUrl with
        | .malformed => false
        | .absent => true
        | .origin o => decide (o ∈ bounty.allowedOrigins)) then some .new else none) := by
  cases body.manifest.finalUrl with
  | malformed =>
      rw [Bool.and_false, if_neg Bool.false_ne_true]
      exact outcome_refused _ _ _
  | absent =>
      rw [Bool.and_true]
      exact create_outcome hkey
  | origin o =>
      dsimp only
      by_cases hmem : o ∈ bounty.allowedOrigins
      · rw [if_neg (not_not.mpr hmem)]
        simp only [hmem, decide_true, Bool.and_true]
        exact create_outcome hkey
      · rw [if_pos hmem]
        simp only [hmem, decide_false, Bool.and_false, Bool.false_eq_true, if_false]
        exact outcome_refused _ _ _

theorem checkAndCreate_outcome (hkey : w.byKey workerId jobId key = none) :
    SubmitOutcome w cfg workerId jobId key body
      ((checkAndCreate cfg jobId workerId job key body).solo engine none w)
      (if w.admitsNew job body then some .new else none) := by
  have hnow : Query.eval .now w = w.now := rfl
  rw [checkAndCreate, bind_eq_bind, solo_ask, hnow, World.admitsNew]
  by_cases hstale : job.isStale w.now = true
  · rw [if_pos hstale, hstale]
    exact outcome_refused _ _ _
  · rw [if_neg hstale, Bool.eq_false_iff.mpr hstale]
    cases hbounty : w.bounties job.bountyId with
    | none =>
        have hthrow : (getBountyOrThrow job.bountyId).solo engine none w =
            (.error .bountyNotFound, w) := by
          have hread : Query.eval (.bounty job.bountyId) w = none := hbounty
          rw [getBountyOrThrow, bind_eq_bind, solo_ask, hread]
          rfl
        rw [bind_eq_bind, getBountyOrThrow_flat.solo_bind_error hthrow, Option.any_none,
          Bool.and_false]
        exact outcome_thrown _ _
    | some bounty =>
        have hfound : (getBountyOrThrow job.bountyId).solo engine none w = (.ok bounty, w) := by
          have hread : Query.eval (.bounty job.bountyId) w = some bounty := hbounty
          rw [getBountyOrThrow, bind_eq_bind, solo_ask, hread]
          rfl
        rw [bind_eq_bind, getBountyOrThrow_flat.solo_bind_ok hfound, Option.any_some,
          Bool.not_false, Bool.true_and]
        exact checkUrl_outcome hkey bounty

theorem submitByKey_outcome :
    SubmitOutcome w cfg workerId jobId key body
      ((submitByKey cfg jobId workerId job key body).solo engine none w)
      (match w.byKey workerId jobId key with
        | some (existingId, existing) =>
            if existing.requestHash.any fun h => decide (h ≠ body.requestHash cfg) then none
            else some (.existing existingId)
        | none => if w.admitsNew job body then some .new else none) := by
  cases hkey : w.byKey workerId jobId key with
  | none =>
      have hnew : SubmitOutcome w cfg workerId jobId key body
          ((checkAndCreate cfg jobId workerId job key body).solo engine none w)
          (if w.admitsNew job body then some .new else none) := checkAndCreate_outcome hkey
      cases key with
      | none => exact hnew
      | some k =>
          have hread : Query.eval (.submissionByKey jobId workerId k) w = none := hkey
          rw [submitByKey, bind_eq_bind, solo_ask, hread]
          exact hnew
  | some found =>
      obtain ⟨existingId, existing⟩ := found
      cases key with
      | none => cases hkey
      | some k =>
          have hread : Query.eval (.submissionByKey jobId workerId k) w =
            some (existingId, existing) := hkey
          rw [submitByKey, bind_eq_bind, solo_ask, hread]
          dsimp only
          split_ifs with hconflict
          · exact outcome_refused _ _ _
          · exact ⟨job, rfl⟩

theorem submitJob_outcome :
    SubmitOutcome w cfg workerId jobId key body
      ((submitJob cfg workerId jobId key body job).solo engine none w)
      (w.targetOf cfg workerId jobId key body job) := by
  rw [submitJob, World.targetOf]
  by_cases howner : job.leaseWorkerId ≠ some workerId
  · rw [if_pos howner, if_pos (Or.inl howner)]
    exact outcome_refused _ _ _
  · have hnow : Query.eval .now w = w.now := rfl
    rw [if_neg howner, bind_eq_bind, solo_ask, hnow]
    by_cases hexpired : isLeaseExpired job.leaseExpiresAt w.now = true
    · rw [if_pos hexpired, if_pos (Or.inr hexpired)]
      exact outcome_refused _ _ _
    · rw [if_neg hexpired, if_neg (not_or.mpr ⟨howner, hexpired⟩)]
      cases hcurrent : job.currentSubmissionId with
      | none => exact submitByKey_outcome
      | some current =>
          dsimp only
          rw [bind_eq_bind, solo_ask, Option.bind_some]
          cases hsubmission : w.submissions current with
          | none =>
              have hread : Query.eval (.submission current) w = none := hsubmission
              rw [hread]
              exact submitByKey_outcome
          | some existing =>
              have hread : Query.eval (.submission current) w = some existing := hsubmission
              rw [hread, Option.any_some]
              by_cases hworker : existing.workerId = workerId
              · rw [if_pos (decide_eq_true hworker)]
                dsimp only
                rw [if_pos hworker]
                exact outcome_never respond_never
              · rw [if_neg (by simpa using hworker)]
                dsimp only
                rw [if_neg hworker]
                exact submitByKey_outcome

theorem submit_outcome :
    SubmitOutcome w cfg workerId jobId key body (w.submit cfg workerId jobId key body)
      (w.submitTarget cfg workerId jobId key body) := by
  rw [World.submit, submitRoute, bind_eq_bind, solo_ask, World.submitTarget]
  cases hjob : w.jobs jobId with
  | none =>
      have hread : Query.eval (.job jobId) w = none := hjob
      rw [hread]
      exact outcome_refused _ _ _
  | some job =>
      have hread : Query.eval (.job jobId) w = some job := hjob
      rw [hread]
      exact submitJob_outcome

/-- A rejected submit that leaves the world as it was has changed nothing. -/
theorem rejectsCleanly_of_eq (h : ∀ answer w', w.submit cfg workerId jobId key body =
    (.ok answer, w') → answer.rejected = true → w' = w) :
    w.RejectsCleanly cfg workerId jobId key body := by
  intro answer w' hout hrejected
  obtain rfl := h answer w' hout hrejected
  exact ⟨⟨rfl, rfl, rfl, rfl, rfl⟩, fun _ => rfl⟩

/-- A submit that is answered otherwise has nothing to leave as it was. -/
theorem rejectsCleanly_of_not (h : ∀ answer w', w.submit cfg workerId jobId key body =
    (.ok answer, w') → answer.rejected = false) : w.RejectsCleanly cfg workerId jobId key body := by
  intro answer w' hout hrejected
  rw [h answer w' hout] at hrejected
  cases hrejected

theorem existing_iff {submissionId : Nat} (hjob : w.submit cfg workerId jobId key body =
    (resumeSubmission jobId workerId job submissionId body.artifactIndex).solo engine none w) :
    w.RejectsCleanly cfg workerId jobId key body ↔
      body.artifactIndex.all (w.attachable jobId workerId) = true ∨
        (w.withAttached submissionId
          (body.artifactIndex.takeWhile (w.attachable jobId workerId))).artifacts = w.artifacts := by
  by_cases hall : body.artifactIndex.all (w.attachable jobId workerId) = true
  · refine iff_of_true (rejectsCleanly_of_not fun answer w' hout => ?_) (Or.inl hall)
    exact resume_attachable hall (hjob.symm.trans hout)
  · have hbad : ∃ message, (resumeSubmission jobId workerId job submissionId
        body.artifactIndex).solo engine none w = (.ok (.error 400 "invalid_artifact" message),
          w.withAttached submissionId (body.artifactIndex.takeWhile (w.attachable jobId workerId))) :=
      resume_refused (Bool.eq_false_iff.mpr hall)
    obtain ⟨message, hmessage⟩ := hbad
    have hout := hjob.trans hmessage
    constructor
    · intro hclean
      exact Or.inr (hclean _ _ hout rfl).1.artifacts.symm
    · intro hor
      have hsame : (w.withAttached submissionId (body.artifactIndex.takeWhile
          (w.attachable jobId workerId))).artifacts = w.artifacts := hor.resolve_left hall
      refine rejectsCleanly_of_eq fun answer w' hout' _ => ?_
      have hw' : w' = w.withAttached submissionId
          (body.artifactIndex.takeWhile (w.attachable jobId workerId)) :=
        (Prod.mk.inj (hout'.symm.trans hout)).2
      rw [hw', World.withAttached]
      exact congrArg (fun t => { w with artifacts := t }) hsame

theorem new_iff (hfresh : w.submissions w.nextId = none)
    (hkey : w.byKey workerId jobId key = none) (hjob : w.submit cfg workerId jobId key body =
      (createSubmission cfg jobId workerId job key body).solo engine none w) :
    w.RejectsCleanly cfg workerId jobId key body ↔
      body.artifactIndex.all (w.attachable jobId workerId) = true := by
  have hcreate : ∃ submission duplicate,
      (createSubmission cfg jobId workerId job key body).solo engine none w =
        (afterStored jobId workerId job w.nextId duplicate body.artifactIndex).solo engine none
          (w.withSubmission submission) := create_solo hfresh hkey
  obtain ⟨submission, duplicate, hstored⟩ := hcreate
  have hout := hjob.trans hstored
  have hsame : (w.withSubmission submission).attachable jobId workerId =
      w.attachable jobId workerId := rfl
  by_cases hall : body.artifactIndex.all (w.attachable jobId workerId) = true
  · refine iff_of_true (rejectsCleanly_of_not fun answer w' hout' => ?_) hall
    exact stored_attachable (w := w.withSubmission submission) hall (hout.symm.trans hout')
  · refine iff_of_false (fun hclean => ?_) hall
    have hbad : ∃ message, (afterStored jobId workerId job w.nextId duplicate
        body.artifactIndex).solo engine none (w.withSubmission submission) =
          (.ok (.error 400 "invalid_artifact" message), (w.withSubmission submission).withAttached
            w.nextId (body.artifactIndex.takeWhile (w.attachable jobId workerId))) :=
      stored_refused (Bool.eq_false_iff.mpr hall)
    obtain ⟨message, hmessage⟩ := hbad
    have hrows := (hclean _ _ (hout.trans hmessage) rfl).1.submissions
    have hrow : w.submissions w.nextId = some submission := by
      rw [hrows]
      simp [World.withAttached, World.withSubmission]
    rw [hfresh] at hrow
    cases hrow

/-- A rejected submit leaves no trace exactly when no artifact reference can be the reason, or
those before the bad one have no effect. -/
theorem rejected_submit_iff (cfg : Config) (w : World) (workerId jobId : Nat) (key : Option Nat)
    (body : SubmitBody) :
    w.RejectsCleanly cfg workerId jobId key body ↔ w.RefsHarmless cfg workerId jobId key body := by
  have hout : SubmitOutcome w cfg workerId jobId key body (w.submit cfg workerId jobId key body)
      (w.submitTarget cfg workerId jobId key body) := submit_outcome
  rw [World.RefsHarmless]
  cases htarget : w.submitTarget cfg workerId jobId key body with
  | none =>
      rw [htarget] at hout
      exact iff_of_true (rejectsCleanly_of_eq hout) trivial
  | some target =>
      rw [htarget] at hout
      cases target with
      | existing submissionId =>
          obtain ⟨job, hjob⟩ := hout
          exact existing_iff hjob
      | new =>
          obtain ⟨hfresh, hkey, job, hjob⟩ := hout
          exact new_iff hfresh hkey hjob

end Routes

section Example

/-- Job 2 of bounty 1 is held by worker 3, whose artifact 7 has been scanned. -/
def oneScanned : World :=
  { World.empty with
    nextId := 20
    bounties := Function.update World.empty.bounties 1
      (some ⟨9, .published, [], [7, 8], 100, 0, 0, some 0⟩)
    jobs := Function.update World.empty.jobs 2 (some { Job.fresh 1 7 0 0 with
      status := .claimed
      leaseWorkerId := some 3
      leaseExpiresAt := some 100
      leaseNonce := some 4 })
    artifacts := Function.update World.empty.artifacts 7
      (some ⟨⟨1, 1, none, none, none⟩, some 3, some 2, none, .scanned, false⟩) }

/-- A submit of the artifacts with these ids. -/
def submitOf (ids : List Nat) : SubmitBody where
  manifest := ⟨1, 6, .absent, 0⟩
  artifactIndex := ids.map fun id => ⟨id, 1, 1, 5, none, none⟩
  notes := none

/-- How a submit of worker 3 on job 2 with key 77 is refused. -/
def World.refusal (w : World) (ids : List Nat) : Option (Nat × String × String) :=
  match (w.submit Config.default 3 2 (some 77) (submitOf ids)).1 with
  | .ok (.error status code message) => some (status, code, message)
  | _ => none

/-- The state such a submit leaves. -/
def World.afterSubmit (w : World) (ids : List Nat) : World :=
  (w.submit Config.default 3 2 (some 77) (submitOf ids)).2

/-- Artifact 8 does not exist.  The submit is refused, but its submission stays and artifact 7
with it, and the retry without artifact 8 is no longer accepted. -/
theorem rejected_submit_kept :
    oneScanned.refusal [7, 8] = some (400, "invalid_artifact", "artifact_not_found") ∧
      (oneScanned.submissions 20).isNone = true ∧
      ((oneScanned.afterSubmit [7, 8]).submissions 20).isSome = true ∧
      (((oneScanned.afterSubmit [7, 8]).artifacts 7).any
        fun a => decide (a.submissionId = some 20)) = true ∧
      oneScanned.refusal [7] = none ∧
      (oneScanned.afterSubmit [7, 8]).refusal [7] =
        some (409, "idempotency_conflict", "Idempotency-Key reuse with different payload") ∧
      ¬ oneScanned.RejectsCleanly Config.default 3 2 (some 77) (submitOf [7, 8]) := by
  have hrefusal : oneScanned.refusal [7, 8] =
      some (400, "invalid_artifact", "artifact_not_found") := by decide
  have hnone : (oneScanned.submissions 20).isNone = true := by decide
  have hsome : ((oneScanned.afterSubmit [7, 8]).submissions 20).isSome = true := by decide
  refine ⟨hrefusal, hnone, hsome, by decide, by decide, by decide, ?_⟩
  intro hclean
  cases hanswer : (oneScanned.submit Config.default 3 2 (some 77) (submitOf [7, 8])).1 with
  | error err => simp [World.refusal, hanswer] at hrefusal
  | ok answer =>
      cases answer with
      | ok value => simp [World.refusal, hanswer] at hrefusal
      | error status code message =>
          obtain ⟨rfl, -, -⟩ : status = 400 ∧ code = "invalid_artifact" ∧
              message = "artifact_not_found" := by
            simpa [World.refusal, hanswer] using hrefusal
          have hsame := (hclean _ (oneScanned.afterSubmit [7, 8])
            (Prod.ext hanswer rfl) rfl).1.submissions
          rw [← hsame, Option.isSome_iff_ne_none] at hsome
          exact hsome (Option.isNone_iff_eq_none.mp hnone)

end Example

end OpenUnion
