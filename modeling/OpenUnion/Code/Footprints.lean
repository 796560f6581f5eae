import OpenUnion.Code.Requests
import OpenUnion.Interleave.Conduct

/-!
# Which statements a request executes

For each function that is a sequence of statements of its own, the writes it can
make (`...Does`) and the proof that it makes no others (`..._every`).  A proof
about a request then looks at the listed statements only.

A whole-row `updateJob` always writes a row made from one that was read before:
`Job.Rewrites` says which columns it keeps, and the lists carry a predicate `K`
that holds of the row read.
-/

namespace OpenUnion

open Interleave

/-- `new` is `old` with another status, submission or verdict: the lease columns
and the bounty are those of `old`, and the job does not become open again. -/
structure Job.Rewrites (new old : Job) : Prop where
  bountyId : new.bountyId = old.bountyId
  leaseWorkerId : new.leaseWorkerId = old.leaseWorkerId
  leaseExpiresAt : new.leaseExpiresAt = old.leaseExpiresAt
  leaseNonce : new.leaseNonce = old.leaseNonce
  status : new.status ≠ .opened

section Rewrites

variable {job : Job}

theorem JobStatus.orVerifying_ne_opened (st : JobStatus) : st.orVerifying ≠ .opened := by
  cases st <;> simp [JobStatus.orVerifying]

theorem Job.healed_rewrites {submissionId : Nat} (h : job.currentSubmissionId = none) :
    (job.healed submissionId).Rewrites job := by
  simp only [Job.healed, h]
  exact ⟨rfl, rfl, rfl, rfl, JobStatus.orVerifying_ne_opened _⟩

theorem Job.verifyingAs_rewrites (submissionId : Nat) :
    (job.verifyingAs submissionId).Rewrites job :=
  ⟨rfl, rfl, rfl, rfl, by simp [Job.verifyingAs]⟩

theorem Job.duplicateAs_rewrites (submissionId : Nat) :
    (job.duplicateAs submissionId).Rewrites job :=
  ⟨rfl, rfl, rfl, rfl, by simp [Job.duplicateAs]⟩

theorem Job.requeued_rewrites (body : VerdictBody) :
    (job.judged body).requeued.Rewrites job :=
  ⟨rfl, rfl, rfl, rfl, by simp [Job.requeued]⟩

theorem Job.completed_rewrites (body : VerdictBody) (doneAt : Nat) :
    ((job.judged body).completed doneAt).Rewrites job :=
  ⟨rfl, rfl, rfl, rfl, by simp [Job.completed]⟩

theorem Job.markedDuplicate_rewrites : job.markedDuplicate.Rewrites job :=
  ⟨rfl, rfl, rfl, rfl, by simp [Job.markedDuplicate]⟩

theorem Job.overridden_rewrites (v : Verdict) (sub : Submission) :
    (job.overridden v sub).Rewrites job :=
  ⟨rfl, rfl, rfl, rfl, by simp [Job.overridden]⟩

end Rewrites

section Helpers

variable {Out : Stmt → Prop} {α : Type}

@[simp] theorem every_onlyIf {c : Prop} [Decidable c] {body : Code Unit} :
    (onlyIf c body).Every Out ↔ (c → body.Every Out) := by
  by_cases hc : c <;> simp [onlyIf, hc]

@[simp] theorem every_orThrow {e : Except Err α} : (orThrow e).Every Out := by
  cases e <;> simp [orThrow]

@[simp] theorem every_orUniqueViolation {b : Bool} :
    (orUniqueViolation b).Every Out := by
  cases b <;> simp [orUniqueViolation]

end Helpers

/-- The statements of the submit route; `K` holds of the job row it has read. -/
def SubmitDoes (jobId workerId : Nat) (K : Job → Prop) : Stmt → Prop
  | .read _ | .nanoid | .attachArtifact _ _ _ => True
  | .submission (.insert _ s) => s.jobId = jobId ∧ s.workerId = workerId ∧ s.status ≠ .accepted
  | .verification (.insert _ v) => v.status = .queued
  | .outbox (.insertOrIgnore (.verification _ _) _ _) => True
  | .job (.update j row) => j = jobId ∧ ∃ job, K job ∧ row.Rewrites job
  | _ => False

/-- The statements of the submit route with the submission it stores. -/
def SubmitWrites (cfg : Config) (jobId workerId : Nat) (key : Option Nat) (body : SubmitBody)
    (K : Job → Prop) : Stmt → Prop
  | .submission (.insert _ s) =>
      ∃ duplicate now, s = Submission.new cfg jobId workerId key body duplicate now
  | s => SubmitDoes jobId workerId K s

section Submit

variable {cfg : Config} {jobId workerId submissionId : Nat} {key : Option Nat} {body : SubmitBody}
  {K : Job → Prop} {job : Job} {artifactIndex : List ArtifactRef}

theorem addVerification_every {n : Nat} {v : Verification} (hv : v.status = .queued) :
    (addVerification submissionId n v).Every (SubmitWrites cfg jobId workerId key body K) := by
  simp [addVerification, SubmitWrites, SubmitDoes, hv]

theorem attach_every :
    (attachOrReject submissionId jobId workerId artifactIndex).Every
      (SubmitWrites cfg jobId workerId key body K) := by
  refine Prog.Every.orElse (Prog.Every.bind (Prog.every_forEach fun a => ?_) ?_) ?_
  · simp only [attachSubmissionArtifacts.attach, bind_eq_bind, Prog.every_perform_bind]
    refine ⟨trivial, fun r => ?_⟩
    cases r with
    | none => simp
    | some art =>
        dsimp only
        split_ifs <;> simp [SubmitWrites, SubmitDoes]
  · simp
  · simp

theorem respond_every (hrewrites : job.currentSubmissionId = none →
    ∃ old, K old ∧ (job.healed submissionId).Rewrites old) :
    (respondWithExistingSubmission jobId job submissionId).Every
      (SubmitWrites cfg jobId workerId key body K) := by
  refine Prog.Every.bind ?_ fun _ => ?_
  · simpa [SubmitWrites, SubmitDoes] using hrewrites
  · simp [SubmitWrites, SubmitDoes]

theorem requestVerification_every :
    (requestVerification submissionId).Every (SubmitWrites cfg jobId workerId key body K) := by
  simp only [requestVerification, bind_eq_bind, Prog.every_perform_bind]
  refine ⟨trivial, fun id => (addVerification_every rfl).bind fun _ => ?_⟩
  refine Prog.Every.bind ?_ fun _ => by simp
  simp [enqueueOutbox, SubmitWrites, SubmitDoes]

theorem resume_every (hK : K job) :
    (resumeSubmission jobId workerId job submissionId artifactIndex).Every
      (SubmitWrites cfg jobId workerId key body K) := by
  have hheal : (resumeSubmission.heal jobId job submissionId).Every
      (SubmitWrites cfg jobId workerId key body K) := by
    simp only [resumeSubmission.heal]
    split_ifs
    · simp only [bind_eq_bind, Prog.every_perform_bind]
      refine ⟨⟨rfl, job, hK, Job.verifyingAs_rewrites submissionId⟩, fun _ => respond_every ?_⟩
      intro hnone
      simp [Job.verifyingAs] at hnone
    · exact respond_every fun hnone => ⟨job, hK, Job.healed_rewrites hnone⟩
  refine attach_every.bind fun r => ?_
  cases r with
  | some message => simp
  | none =>
      simp only [bind_eq_bind, Prog.every_perform_bind]
      refine ⟨trivial, fun v => ?_⟩
      cases v with
      | none => exact requestVerification_every.bind fun _ => hheal
      | some existingVer =>
          refine Prog.Every.bind ?_ fun _ => hheal
          simp [enqueueOutbox, SubmitWrites, SubmitDoes]

theorem create_every (hK : K job) :
    (createSubmission cfg jobId workerId job key body).Every
      (SubmitWrites cfg jobId workerId key body K) := by
  simp only [createSubmission, bind_eq_bind, Prog.every_perform_bind]
  refine ⟨trivial, fun duplicate => ⟨trivial, fun sid => ⟨trivial, fun now => ?_⟩⟩⟩
  refine Prog.Every.bind ?_ fun _ => attach_every.bind fun r => ?_
  · simp only [addSubmission, Prog.every_perform_bind]
    exact ⟨⟨duplicate, now, rfl⟩, by simp⟩
  · cases r with
    | some message => simp
    | none =>
        cases duplicate with
        | true =>
            simp only [if_true, Prog.every_perform_bind]
            exact ⟨⟨rfl, job, hK, Job.duplicateAs_rewrites sid⟩, by simp⟩
        | false =>
            refine requestVerification_every.bind fun vid => ?_
            simp only [Prog.every_perform_bind]
            exact ⟨⟨rfl, job, hK, Job.verifyingAs_rewrites sid⟩, by simp⟩

theorem checkAndCreate_every (hK : K job) :
    (checkAndCreate cfg jobId workerId job key body).Every
      (SubmitWrites cfg jobId workerId key body K) := by
  simp only [checkAndCreate, bind_eq_bind, Prog.every_perform_bind]
  refine ⟨trivial, fun now => ?_⟩
  split_ifs
  · simp
  · refine Prog.Every.bind ?_ fun bounty => ?_
    · simp only [getBountyOrThrow, bind_eq_bind, Prog.every_perform_bind]
      exact ⟨trivial, fun r => by cases r <;> simp⟩
    · split
      · simp
      · exact create_every hK
      · split_ifs
        · exact create_every hK
        · simp

theorem submitByKey_every (hK : K job) :
    (submitByKey cfg jobId workerId job key body).Every (SubmitWrites cfg jobId workerId key body K) := by
  cases key with
  | none => exact checkAndCreate_every hK
  | some k =>
      simp only [submitByKey, bind_eq_bind, Prog.every_perform_bind]
      refine ⟨trivial, fun r => ?_⟩
      cases r with
      | none => exact checkAndCreate_every hK
      | some found =>
          dsimp only
          split_ifs
          · simp
          · exact resume_every hK

/-- The row the submit route writes comes from one that was leased to the worker, and the
submission it stores is the one of its request. -/
theorem submitRoute_writes :
    (submitRoute cfg workerId jobId key body).Every
      (SubmitWrites cfg jobId workerId key body fun job => job.leaseWorkerId = some workerId) := by
  simp only [submitRoute, bind_eq_bind, Prog.every_perform_bind]
  refine ⟨trivial, fun r => ?_⟩
  cases r with
  | none => simp
  | some job =>
      dsimp only [submitJob]
      by_cases hleased : job.leaseWorkerId = some workerId
      · simp only [hleased, ne_eq, not_true, if_false, bind_eq_bind, Prog.every_perform_bind]
        refine ⟨trivial, fun now => ?_⟩
        split_ifs
        · simp
        · split
          · exact submitByKey_every hleased
          · simp only [Prog.every_perform_bind]
            refine ⟨trivial, fun r => ?_⟩
            cases r with
            | none => exact submitByKey_every hleased
            | some existing =>
                dsimp only
                split_ifs
                · exact respond_every fun hnone => ⟨job, hleased, Job.healed_rewrites hnone⟩
                · exact submitByKey_every hleased
      · simp [hleased]

theorem SubmitWrites.does {s : Stmt} (h : SubmitWrites cfg jobId workerId key body K s) :
    SubmitDoes jobId workerId K s := by
  unfold SubmitWrites at h
  split at h
  · obtain ⟨duplicate, now, rfl⟩ := h
    refine ⟨rfl, rfl, ?_⟩
    cases duplicate <;> simp [Submission.new]
  · exact h

/-- What the submit route does. -/
theorem submitRoute_every :
    (submitRoute cfg workerId jobId key body).Every
      (SubmitDoes jobId workerId fun job => job.leaseWorkerId = some workerId) :=
  submitRoute_writes.mono fun _ h => h.does

end Submit

/-- The statements of the verifier's claim route. -/
def ClaimDoes (submissionId attemptNo : Nat) : Stmt → Prop
  | .read _ | .nanoid => True
  | .verification (.insert k v) => k = (submissionId, attemptNo) ∧ v.status = .queued
  | .verification (.update k v) => k = (submissionId, attemptNo) ∧ v.status = .inProgress
  | _ => False

/-- The statements of the verdict route. -/
def VerdictDoes (body : VerdictBody) : Stmt → Prop
  | .read _ | .nanoid | .reputation _ _ => True
  | .verification (.insert k v) => k.1 = body.submissionId ∧ v.status = .queued
  | .verification (.update k v) =>
      k = (body.submissionId, body.attemptNo) ∧ v.status = .finished ∧ v.verdict = some body.verdict
  | .submission (.update i s) => i = body.submissionId ∧ ∃ old, s = Submission.judged old body
  | .acceptedDedupe _ _ | .acceptArtifacts _ => body.verdict = .pass
  | .outbox (.insertOrIgnore (.verification i _) _ _) => i = body.submissionId
  | .outbox (.insertOrIgnore (.payout _) _ _) => body.verdict = .pass
  | .job (.update _ row) =>
      (∃ job : Job, row.Rewrites job) ∧ (row.status = .done ∨ row.status = .verifying)
  | .payout (.upsert _ p) =>
      body.verdict = .pass ∧ p.submissionId = body.submissionId ∧ p.status = .pending
  | _ => False

/-- The statements of the override route. -/
def OverrideDoes (submissionId : Nat) : Stmt → Prop
  | .read _ | .nanoid | .acceptedDedupe _ _ => True
  | .submission (.update i s) =>
      i = submissionId ∧ ∃ old v score, s = Submission.overridden old v score
  | .job (.update _ row) => (∃ job : Job, row.Rewrites job) ∧ row.status = .done
  | .outbox (.insertOrIgnore (.payout _) _ _) => True
  | .payout (.upsert _ p) => p.submissionId = submissionId ∧ p.status = .pending
  | _ => False

/-- The statements of the requeue route. -/
def RequeueDoes (submissionId attemptNo : Nat) : Stmt → Prop
  | .read _ | .nanoid => True
  | .verification (.update k v) => k = (submissionId, attemptNo) ∧ v.status = .queued
  | _ => False

section Verify

theorem verifierClaim_every (c : ClaimBody) :
    (verifierClaim c).Every (ClaimDoes c.submissionId c.attemptNo) := by
  simp only [verifierClaim, bind_eq_bind, Prog.every_perform_bind]
  refine ⟨trivial, fun r => ?_⟩
  cases r with
  | none => simp
  | some submission =>
      refine Prog.Every.bind ?_ fun verification => ?_
      · simp only [findOrAddVerification, bind_eq_bind, Prog.every_perform_bind]
        refine ⟨trivial, fun v => ?_⟩
        cases v with
        | some v => simp
        | none =>
            simp only [Prog.every_perform_bind]
            refine ⟨trivial, fun id => Prog.Every.bind ?_ fun _ => by simp⟩
            simp [addVerification, ClaimDoes, Verification.queued]
      · simp only [Prog.every_perform_bind]
        refine ⟨trivial, fun now => ?_⟩
        split_ifs
        · simp
        · simp only [Prog.every_perform_bind]
          refine ⟨trivial, fun token => ⟨trivial, fun t => ⟨⟨rfl, rfl⟩, fun _ => ⟨trivial, ?_⟩⟩⟩⟩
          intro r
          cases r with
          | none => simp
          | some job =>
              refine Prog.Every.bind ?_ fun _ => by simp
              simp only [getBountyOrThrow, bind_eq_bind, Prog.every_perform_bind]
              exact ⟨trivial, fun r => by cases r <;> simp⟩

theorem getBountyOrThrow_every {Out : Stmt → Prop} {b : Nat} (hread : Out (.read (.bounty b))) :
    (getBountyOrThrow b).Every Out := by
  simp only [getBountyOrThrow, bind_eq_bind, Prog.every_perform_bind]
  exact ⟨hread, fun r => by cases r <;> simp⟩

/-- The statements that complete a job: everything after the update of the submission but
the verification of another attempt. -/
def CompletesDoes : Stmt → Prop
  | .read (.verification _ _) => False
  | .read _ | .nanoid | .reputation _ _ | .acceptedDedupe _ _ | .acceptArtifacts _ => True
  | .outbox (.insertOrIgnore (.payout _) _ _) | .job (.update _ _) | .payout (.upsert _ _) => True
  | _ => False

/-- The statements of a verdict after the update of its submission. -/
def JudgedDoes : Stmt → Prop
  | .verification (.insert _ _) | .outbox (.insertOrIgnore _ _ _) => True
  | s => CompletesDoes s

theorem CompletesDoes.judged {s : Stmt} (h : CompletesDoes s) : JudgedDoes s := by
  unfold JudgedDoes
  split <;> trivial

theorem recordReputation_every {i : Nat} {passed : Bool} :
    (recordReputation i passed).Every CompletesDoes := by
  simp [recordReputation, CompletesDoes]

theorem registerOnPass_every {submission : Submission} {verdict : Verdict} :
    (registerOnPass submission verdict).Every CompletesDoes := by
  simp only [registerOnPass]
  cases submission.dedupeKey with
  | none => trivial
  | some dedupeKey =>
      refine every_onlyIf.mpr fun _ => ?_
      refine Prog.every_perform_bind.mpr ⟨trivial, fun job => ?_⟩
      cases job with
      | none => trivial
      | some job => exact (getBountyOrThrow_every trivial).bind fun _ => by simp [CompletesDoes]

/-- Creating a payout asks, draws an identifier, and writes the payout and its event. -/
theorem createPayout_every {Out : Stmt → Prop} {cfg : Config} {submissionId workerId : Nat}
    {bounty : Bounty} (hcontext : Out (.read (.payoutContext submissionId)))
    (hnow : Out (.read .now)) (hnanoid : Out .nanoid)
    (hupsert : ∀ i p, Out (.payout (.upsert i p)))
    (henqueue : ∀ p t now, Out (.outbox (.insertOrIgnore (.payout p) t now))) :
    (createPayout cfg submissionId workerId bounty).Every Out := by
  simp only [createPayout, addPayout, bind_eq_bind, Prog.bind_assoc]
  refine Prog.every_perform_bind.mpr ⟨hnanoid, fun id => ?_⟩
  refine Prog.every_perform_bind.mpr ⟨hcontext, fun ctx => ?_⟩
  refine Prog.every_perform_bind.mpr ⟨hnow, fun now => ?_⟩
  cases splitFees cfg bounty.payoutCents ((ctx.map PayoutContext.platformFeeBps).getD 0)
      (ctx.bind PayoutContext.platformFeeWalletAddress) with
  | error e => trivial
  | ok fees =>
      refine Prog.every_perform_bind.mpr ⟨hupsert _ _, fun payout => ?_⟩
      cases payout with
      | none => trivial
      | some payout => simp [hnow, henqueue, enqueueOutbox]

theorem completeJob_every {cfg : Config} {body : VerdictBody} {verificationId : Nat}
    {submission : Submission} {job : Job} :
    (completeJob cfg body verificationId submission job).Every CompletesDoes := by
  refine Prog.every_perform_bind.mpr ⟨trivial, fun doneAt => ?_⟩
  refine Prog.every_perform_bind.mpr ⟨trivial, fun _ => Prog.Every.bind ?_ fun _ => trivial⟩
  refine every_onlyIf.mpr fun _ => (getBountyOrThrow_every trivial).bind fun bounty => ?_
  refine (createPayout_every trivial trivial trivial (fun _ _ => trivial)
    fun _ _ _ => trivial).bind fun _ => by simp [CompletesDoes]

theorem requeueOrComplete_every {cfg : Config} {body : VerdictBody} {verificationId : Nat}
    {submission : Submission} {job : Job} :
    (requeueOrComplete cfg body verificationId submission job).Every JudgedDoes := by
  simp only [requeueOrComplete]
  split_ifs
  · refine Prog.every_perform_bind.mpr ⟨trivial, fun attempts => ?_⟩
    split_ifs
    · refine Prog.every_perform_bind.mpr ⟨trivial, fun id => Prog.Every.bind ?_ fun _ => ?_⟩
      · simp [addVerification, JudgedDoes]
      · refine Prog.Every.bind ?_ fun _ => by simp [JudgedDoes, CompletesDoes]
        simp [enqueueOutbox, JudgedDoes, CompletesDoes]
    · exact completeJob_every.mono fun _ hs => hs.judged
  · exact completeJob_every.mono fun _ hs => hs.judged

end Verify

end OpenUnion
