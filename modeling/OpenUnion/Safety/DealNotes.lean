import OpenUnion.Interleave.Relabel
import OpenUnion.Safety.JobNotes

/-!
# What leads to a payment

Money leaves the system for a payout, by a transaction sent to the chain or by a call of a
payment provider.  `DealNote` records what leads to one: the publication of the bounty, the
claims of its jobs, the submissions, their acceptance by a verdict or by an admin, and the
payouts.  It records the rows a process reads as well, since a process acts on these.

* `DealOut`: what a process has noted itself before it writes.
* `Request.deals_does`: every request keeps to that.
-/

namespace OpenUnion

open Interleave

/-- What has happened on the way to a payment. -/
inductive DealNote where
  | read (n : RowNote)
  | published (bountyId : Nat)
  /-- A claim of the worker was committed while the job could be leased. -/
  | claimed (workerId jobId : Nat)
  | submitted (workerId jobId submissionId : Nat)
  /-- A verification of the submission was finished with a pass. -/
  | passed (submissionId : Nat)
  /-- An admin has overridden the verdict with a pass. -/
  | overridden (submissionId : Nat)
  | owed (payoutId submissionId : Nat)

/-- What has been read, if the note is of a read. -/
def DealNote.row? : DealNote → Option RowNote
  | .read n => some n
  | _ => none

/-- The steps of a deal an event makes. -/
def dealSteps (q : Request) : Happening → World → List DealNote
  | .commit (.publishBounty b), _ => [.published b]
  | .commit (.leaseJob j i), w =>
      if (w.jobs j).any (JobStmt.leasable w.now) then [.claimed i j] else []
  | .stmt (.submission (.insert s _)) inserted, _ =>
      match q with
      | .submit i j _ _ => cond inserted [.submitted i j s] []
      | _ => []
  | .stmt (.verification (.update k v)) _, _ =>
      if v.status = .finished ∧ v.verdict = some .pass then [.passed k.1] else []
  | .stmt (.job (.update _ _)) _, _ =>
      match q with
      | .overrideVerdict s (some .pass) _ => [.overridden s]
      | _ => []
  | .stmt (.payout (.upsert _ p)) (some (k, _)), _ => [.owed k p.submissionId]
  | _, _ => []

/-- Note the rows that are read and the steps. -/
def dealNotes (a : Actor Request) (x : Happening) (w : World) : List DealNote :=
  dealSteps a.req x w ++ (rowNotes a x w).map .read

/-- The rows a process has read. -/
def rowsRead (ns : List DealNote) : List RowNote := ns.filterMap DealNote.row?

/-- What a process has read before a statement: the lease before it submits, the submission
before it verifies or overrides it, and the verification before it finishes it. -/
def ReadOut (q : Request) (ns : List RowNote) : Stmt → Prop
  | .submission (.insert _ _) => ∀ i j key body, q = .submit i j key body →
      ∃ row, .job j row ∈ ns ∧ row.leaseWorkerId = some i
  | .verification (.insert k _) => ∃ j, .submission k.1 j ∈ ns
  | .verification (.update k v) => v.status = .finished → .verified k.1 ∈ ns
  | .job (.update _ _) => ∀ s v score, q = .overrideVerdict s v score → ∃ j, .submission s j ∈ ns
  | _ => True

/-- A payout is created by the process that has accepted its submission. -/
def PassOut (ns : List DealNote) : Stmt → Prop
  | .payout (.upsert _ p) => .passed p.submissionId ∈ ns ∨ .overridden p.submissionId ∈ ns
  | _ => True

/-- What a process has noted before a statement. -/
structure DealOut (q : Request) (ns : List DealNote) (s : Stmt) : Prop where
  rows : RowOut q (rowsRead ns) s
  reads : ReadOut q (rowsRead ns) s
  passes : PassOut ns s

section Notes

variable {a : Actor Request} {x : Happening} {w : World} {n : DealNote}

theorem dealSteps_row {q : Request} : ∀ n ∈ dealSteps q x w, n.row? = none := by
  intro n hn
  unfold dealSteps at hn
  split at hn
  · obtain rfl := List.mem_singleton.mp hn
    rfl
  · split_ifs at hn
    · obtain rfl := List.mem_singleton.mp hn
      rfl
    · exact absurd hn (by simp)
  · rename_i inserted
    split at hn
    · cases inserted with
      | true =>
          obtain rfl := List.mem_singleton.mp hn
          rfl
      | false => exact absurd hn (by simp)
    · exact absurd hn (by simp)
  · split_ifs at hn
    · obtain rfl := List.mem_singleton.mp hn
      rfl
    · exact absurd hn (by simp)
  · split at hn
    · obtain rfl := List.mem_singleton.mp hn
      rfl
    · exact absurd hn (by simp)
  · obtain rfl := List.mem_singleton.mp hn
    rfl
  · exact absurd hn (by simp)

/-- The rows read are noted as they are without the steps. -/
theorem rowsRead_dealNotes : rowsRead (dealNotes a x w) = rowNotes a x w := by
  have hsteps : (dealSteps a.req x w).filterMap DealNote.row? = [] :=
    List.filterMap_eq_nil_iff.mpr dealSteps_row
  have hread : DealNote.row? ∘ DealNote.read = some := rfl
  rw [rowsRead, dealNotes, List.filterMap_append, hsteps, List.filterMap_map, hread,
    List.filterMap_some, List.nil_append]

theorem mem_rowsRead {ns : List DealNote} {n : RowNote} :
    n ∈ rowsRead ns ↔ .read n ∈ ns := by
  constructor
  · intro h
    obtain ⟨n', hn', hrow⟩ := List.mem_filterMap.mp h
    cases n' with
    | read m =>
        obtain rfl : m = n := Option.some.inj hrow
        exact hn'
    | _ => exact absurd hrow (by simp [DealNote.row?])
  · exact fun h => List.mem_filterMap.mpr ⟨.read n, h, rfl⟩

end Notes

section Reads

variable {cfg : Config} {a : Actor Request} {ns : List RowNote} {α : Type} {i j s : Nat}
  {row job : Job} {key : Option Nat} {body : SubmitBody} {refs : List ArtifactRef}
  {verdict : VerdictBody} {submission : Submission} {verificationId : Nat} {passes : Prop}

/-- A program told about with the rows read. -/
abbrev ReadTells (cfg : Config) (a : Actor Request) (p : Code α) (ns : List RowNote) : Prop :=
  Tells cfg a (ReadOut a.req) p (fun _ _ => True) (fun _ _ => True) ns

/-- What follows a read of submission `s`: it alone is verified, and is paid for only if
`passes` holds. -/
def About (passes : Prop) (s : Nat) : Stmt → Prop
  | .submission (.insert _ _) => False
  | .verification (.insert k _) => k.1 = s
  | .verification (.update _ _) => False
  | .payout (.upsert _ p) => passes ∧ p.submissionId = s
  | _ => True

/-- A piece about a submission that has been read. -/
theorem about_reads {p : Code α} (h : p.Every (About passes s)) (hread : .submission s j ∈ ns)
    (hreq : ∀ i v score, a.req = .overrideVerdict i v score → i = s) : ReadTells cfg a p ns := by
  refine (h.tells_kept (I := fun ns => .submission s j ∈ ns) hread
    (fun new ns h => List.mem_append_right new h) ?_).mono (fun _ _ _ => trivial)
    fun _ _ _ => trivial
  intro ns st hst hread
  cases st with
  | submission st =>
      cases st with
      | insert k new => exact hst.elim
      | _ => trivial
  | verification st =>
      cases st with
      | insert k v =>
          have hk : k.1 = s := hst
          exact ⟨j, hk ▸ hread⟩
      | update k v => exact hst.elim
  | job st =>
      cases st with
      | update k new =>
          intro i v score hi
          exact ⟨j, hreq i v score hi ▸ hread⟩
      | _ => trivial
  | _ => trivial

/-! ## The submit route -/

theorem attach_about {k : Nat} : (attachOrReject k j i refs).Every (About passes s) := by
  refine Prog.Every.orElse (Prog.Every.bind (Prog.every_forEach fun ref => ?_) ?_) ?_
  · simp only [attachSubmissionArtifacts.attach, bind_eq_bind, Prog.every_perform_bind]
    refine ⟨trivial, fun art => ?_⟩
    cases art with
    | none => simp
    | some art =>
        dsimp only
        split_ifs <;> simp [About]
  · simp
  · simp

theorem requestVerification_about : (requestVerification s).Every (About passes s) := by
  refine Prog.every_perform_bind.mpr ⟨trivial, fun id => Prog.Every.bind ?_ fun _ => ?_⟩
  · simp [addVerification, About]
  · simp [enqueueOutbox, About]

theorem respond_about {k : Nat} :
    (respondWithExistingSubmission j job k).Every (About passes s) := by
  refine Prog.Every.bind ?_ fun _ => ?_
  · exact every_onlyIf.mpr fun _ => by simp [About]
  · simp [About]

theorem resume_about : (resumeSubmission j i job s refs).Every (About passes s) := by
  have hheal : (resumeSubmission.heal j job s).Every (About passes s) := by
    simp only [resumeSubmission.heal]
    split_ifs
    · exact Prog.every_perform_bind.mpr ⟨trivial, fun _ => respond_about⟩
    · exact respond_about
  refine attach_about.bind fun r => ?_
  cases r with
  | some message => trivial
  | none =>
      refine Prog.every_perform_bind.mpr ⟨trivial, fun found => ?_⟩
      cases found with
      | none => exact requestVerification_about.bind fun _ => hheal
      | some found =>
          refine Prog.Every.bind (every_onlyIf.mpr fun _ => ?_) fun _ => hheal
          simp [enqueueOutbox, About]

variable (hreq : a.req = .submit i j key body)

include hreq

/-- A new submission is stored under the lease, and verified then. -/
theorem stored_reads {sid : Nat} {new : Submission} {f : Unit → Code α} (hjob : .job j row ∈ ns)
    (hworker : row.leaseWorkerId = some i) (hf : (f ()).Every (About False sid)) :
    ReadTells cfg a ((addSubmission sid new).bind f) ns := by
  refine tells_addSubmission ?_ (fun _ => trivial) ?_
  · intro i' j' key' body' h
    obtain ⟨rfl, rfl, -⟩ : i = i' ∧ j = j' ∧ _ := by simpa [hreq] using h
    exact ⟨row, hjob, hworker⟩
  · exact about_reads hf List.mem_cons_self (by simp [hreq])

theorem create_reads (hjob : .job j row ∈ ns) (hworker : row.leaseWorkerId = some i)
    {k : Option Nat} : ReadTells cfg a (createSubmission cfg j i row k body) ns := by
  refine tells_isAcceptedDuplicate trivial trivial ?_ ?_
  · refine tells_quiet trivial trivial (fun _ _ => rfl) fun sid => ?_
    refine tells_quiet trivial trivial (fun _ _ => rfl) fun now => ?_
    refine stored_reads hreq hjob hworker (attach_about.bind fun r => ?_)
    cases r with
    | some message => trivial
    | none => exact requestVerification_about.bind fun _ => by simp [About]
  · refine tells_quiet trivial trivial (fun _ _ => rfl) fun sid => ?_
    refine tells_quiet trivial trivial (fun _ _ => rfl) fun now => ?_
    refine stored_reads hreq (List.mem_cons_of_mem _ hjob) hworker (attach_about.bind fun r => ?_)
    cases r with
    | some message => trivial
    | none => simp [About]

theorem checkAndCreate_reads (hjob : .job j row ∈ ns) (hworker : row.leaseWorkerId = some i)
    {k : Option Nat} : ReadTells cfg a (checkAndCreate cfg j i row k body) ns := by
  refine tells_quiet trivial trivial (fun _ _ => rfl) fun now => ?_
  split_ifs
  · trivial
  · simp only [getBountyOrThrow, bind_eq_bind, Prog.bind_assoc]
    refine tells_quiet trivial trivial (fun _ _ => rfl) fun bounty => ?_
    cases bounty with
    | none => trivial
    | some bounty =>
        simp only [pure_eq_ret, Prog.ret_bind]
        cases body.manifest.finalUrl with
        | malformed => trivial
        | absent => exact create_reads hreq hjob hworker
        | origin o =>
            dsimp only
            split_ifs
            · exact create_reads hreq hjob hworker
            · trivial

theorem submitByKey_reads (hjob : .job j row ∈ ns) (hworker : row.leaseWorkerId = some i)
    {k : Option Nat} : ReadTells cfg a (submitByKey cfg j i row k body) ns := by
  cases k with
  | none => exact checkAndCreate_reads hreq hjob hworker
  | some k =>
      refine tells_submissionByKey trivial trivial (checkAndCreate_reads hreq hjob hworker)
        fun s existing => ?_
      dsimp only
      split_ifs
      · trivial
      · have hresume : (resumeSubmission j i row s body.artifactIndex).Every (About False s) :=
          resume_about
        exact about_reads hresume List.mem_cons_self (by simp [hreq])

theorem submitRoute_reads : ReadTells cfg a (submitRoute cfg i j key body) ns := by
  refine tells_getJob trivial trivial trivial fun row => ?_
  change ReadTells cfg a (submitJob cfg i j key body row) (.job j row :: ns)
  simp only [submitJob]
  by_cases hworker : row.leaseWorkerId = some i
  · rw [if_neg (not_not_intro hworker)]
    refine tells_quiet trivial trivial (fun _ _ => rfl) fun now => ?_
    split_ifs
    · trivial
    · cases row.currentSubmissionId with
      | none => exact submitByKey_reads hreq List.mem_cons_self hworker
      | some current =>
          refine tells_getSubmission trivial trivial
            (submitByKey_reads hreq List.mem_cons_self hworker) fun existing => ?_
          dsimp only
          split_ifs
          · have hrespond : (respondWithExistingSubmission j row current).Every
                (About False current) := respond_about
            exact about_reads hrespond List.mem_cons_self (by simp [hreq])
          · exact submitByKey_reads hreq (List.mem_cons_of_mem _ List.mem_cons_self) hworker
  · rw [if_pos hworker]
    trivial

omit hreq

/-! ## Verdicts -/

theorem verifierClaim_reads {c : ClaimBody} :
    ReadTells cfg a (OpenUnion.verifierClaim c) ns := by
  refine tells_getSubmission trivial trivial trivial fun submission => ?_
  have hrest := (Prog.every_perform_bind.mp (verifierClaim_every c)).2 (some submission)
  refine (hrest.tells_kept (I := fun ns => .submission c.submissionId submission.jobId ∈ ns)
    List.mem_cons_self (fun new ns h => List.mem_append_right new h) ?_).mono
    (fun _ _ _ => trivial) fun _ _ _ => trivial
  intro ns st hst hread
  cases st with
  | submission st => exact hst.elim
  | job st => exact hst.elim
  | verification st =>
      cases st with
      | insert k v =>
          obtain ⟨rfl, -⟩ := hst
          exact ⟨_, hread⟩
      | update k v =>
          obtain ⟨-, hv⟩ := hst
          intro hfinished
          exact absurd (hv.symm.trans hfinished) (by simp)
  | _ => trivial

theorem createPayout_about {bounty : Bounty} (hpasses : passes) :
    (createPayout cfg s i bounty).Every (About passes s) := by
  simp only [createPayout, addPayout, bind_eq_bind, Prog.bind_assoc]
  refine Prog.every_perform_bind.mpr ⟨trivial, fun id => ?_⟩
  refine Prog.every_perform_bind.mpr ⟨trivial, fun ctx => ?_⟩
  refine Prog.every_perform_bind.mpr ⟨trivial, fun now => ?_⟩
  cases splitFees cfg bounty.payoutCents ((ctx.map PayoutContext.platformFeeBps).getD 0)
      (ctx.bind PayoutContext.platformFeeWalletAddress) with
  | error e => trivial
  | ok fees =>
      refine Prog.every_perform_bind.mpr ⟨⟨hpasses, rfl⟩, fun payout => ?_⟩
      cases payout with
      | none => trivial
      | some payout => simp [About, enqueueOutbox]

theorem registerOnPass_about {v : Verdict} :
    (registerOnPass submission v).Every (About passes s) := by
  simp only [registerOnPass]
  cases submission.dedupeKey with
  | none => trivial
  | some dedupeKey =>
      refine every_onlyIf.mpr fun _ => ?_
      refine Prog.every_perform_bind.mpr ⟨trivial, fun job => ?_⟩
      cases job with
      | none => trivial
      | some job => exact (getBountyOrThrow_every trivial).bind fun _ => by simp [About]

theorem completeJob_about :
    (completeJob cfg verdict verificationId submission job).Every
      (About (verdict.verdict = .pass) verdict.submissionId) := by
  refine Prog.every_perform_bind.mpr ⟨trivial, fun doneAt => ?_⟩
  refine Prog.every_perform_bind.mpr ⟨trivial, fun _ => Prog.Every.bind ?_ fun _ => trivial⟩
  refine every_onlyIf.mpr fun hpass => (getBountyOrThrow_every trivial).bind fun bounty => ?_
  exact (createPayout_about hpass).bind fun _ => by simp [About]

theorem requeueOrComplete_about :
    (requeueOrComplete cfg verdict verificationId submission job).Every
      (About (verdict.verdict = .pass) verdict.submissionId) := by
  simp only [requeueOrComplete]
  split_ifs
  · refine Prog.every_perform_bind.mpr ⟨trivial, fun attempts => ?_⟩
    split_ifs
    · refine Prog.every_perform_bind.mpr ⟨trivial, fun id => Prog.Every.bind ?_ fun _ => ?_⟩
      · simp [addVerification, About]
      · refine Prog.Every.bind ?_ fun _ => by simp [About]
        simp [enqueueOutbox, About]
    · exact completeJob_about
  · exact completeJob_about

theorem applyVerdict_about :
    (applyVerdict cfg verdict verificationId).Every
      (About (verdict.verdict = .pass) verdict.submissionId) := by
  refine Prog.every_perform_bind.mpr ⟨trivial, fun submission => ?_⟩
  cases submission with
  | none => trivial
  | some submission =>
      refine Prog.every_perform_bind.mpr ⟨trivial, fun _ => ?_⟩
      refine Prog.Every.bind (by simp [recordReputation, About]) fun _ => ?_
      refine registerOnPass_about.bind fun _ => ?_
      refine Prog.every_perform_bind.mpr ⟨trivial, fun job => ?_⟩
      cases job with
      | none => trivial
      | some job => exact requeueOrComplete_about

theorem applyVerdict_reads (hreq : ∀ s v score, a.req ≠ .overrideVerdict s v score) :
    ReadTells cfg a (applyVerdict cfg verdict verificationId) ns := by
  refine tells_getSubmission trivial trivial trivial fun submission => ?_
  exact about_reads ((Prog.every_perform_bind.mp applyVerdict_about).2 (some submission))
    List.mem_cons_self fun s v score h => absurd h (hreq s v score)

theorem verifierVerdict_reads (hreq : ∀ s v score, a.req ≠ .overrideVerdict s v score) :
    ReadTells cfg a (verifierVerdict cfg verdict) ns := by
  refine tells_verification trivial trivial trivial fun v => ?_
  dsimp only
  split_ifs
  · trivial
  · refine tells_getSubmission trivial trivial trivial fun submission => ?_
    exact tells_getJob trivial trivial trivial fun job => trivial
  · refine tells_quiet trivial trivial (fun _ _ => rfl) fun now => ?_
    split_ifs
    · trivial
    · exact tells_quiet (fun _ => List.mem_cons_self) trivial (fun _ _ => rfl)
        fun _ => applyVerdict_reads hreq

theorem handleVerificationRequested_reads {n : Nat}
    (hreq : ∀ s v score, a.req ≠ .overrideVerdict s v score) :
    ReadTells cfg a (handleVerificationRequested cfg i s n) ns := by
  refine tells_bind.mpr (verifierClaim_reads.mono (fun r ns _ => ?_) fun _ _ h => h)
  cases r with
  | error status code message => trivial
  | ok claim =>
      refine tells_quiet trivial trivial (fun _ _ => rfl) fun answer => ?_
      refine tells_bind.mpr ((verifierVerdict_reads hreq).mono (fun r _ _ => ?_) fun _ _ h => h)
      cases r <;> trivial

theorem overrideVerdictRoute_about {v : Option Verdict} {score : Option Nat} :
    (overrideVerdictRoute cfg s v score).Every (About (v = some .pass) s) := by
  refine Prog.every_perform_bind.mpr ⟨trivial, fun submission => ?_⟩
  cases submission with
  | none => trivial
  | some submission =>
      cases v with
      | none => trivial
      | some v =>
          refine Prog.every_perform_bind.mpr ⟨trivial, fun _ => ?_⟩
          refine Prog.every_perform_bind.mpr ⟨trivial, fun job => ?_⟩
          cases job with
          | none =>
              dsimp only
              split_ifs <;> trivial
          | some job =>
              refine Prog.every_perform_bind.mpr
                ⟨trivial, fun _ => Prog.Every.bind ?_ fun _ => trivial⟩
              refine every_onlyIf.mpr fun hpass =>
                (getBountyOrThrow_every trivial).bind fun bounty => ?_
              refine (createPayout_about (congrArg some hpass)).bind fun _ => ?_
              cases (submission.overridden v score).dedupeKey <;> simp [About]

theorem overrideVerdictRoute_reads {v : Option Verdict} {score : Option Nat}
    (hreq : a.req = .overrideVerdict s v score) :
    ReadTells cfg a (overrideVerdictRoute cfg s v score) ns := by
  refine tells_getSubmission trivial trivial trivial fun submission => ?_
  refine about_reads ((Prog.every_perform_bind.mp overrideVerdictRoute_about).2 (some submission))
    List.mem_cons_self fun i v' score' h => ?_
  obtain ⟨rfl, -⟩ : s = i ∧ _ := by simpa [hreq] using h
  rfl

end Reads

section Passes

variable {cfg : Config} {a : Actor Request} {ns : List DealNote} {α : Type} {i j s : Nat}
  {verdict : VerdictBody} {verificationId : Nat} {passes : Prop}

/-- A program told about with the steps. -/
abbrev PassTells (cfg : Config) (a : Actor Request) (p : Code α) (ns : List DealNote) : Prop :=
  p.Tells (system cfg dealNotes) a PassOut (fun _ _ => True) (fun _ _ => True) ns

/-- What is known of the rows read. -/
theorem rows_told {p : Code α} {Out : List RowNote → Stmt → Prop}
    (h : Tells cfg a Out p (fun _ _ => True) (fun _ _ => True) (rowsRead ns)) :
    p.Tells (system cfg dealNotes) a (fun ns s => Out (rowsRead ns) s) (fun _ _ => True)
      (fun _ _ => True) ns :=
  Prog.Tells.relabel (m := system cfg rowNotes) (f := DealNote.row?)
    (fun _ _ => rowsRead_dealNotes) h

/-- A piece about a submission whose acceptance has been noted. -/
theorem about_passes {p : Code α} (h : p.Every (About passes s))
    (hpassed : passes → .passed s ∈ ns ∨ .overridden s ∈ ns) : PassTells cfg a p ns := by
  refine (h.tells_kept (I := fun ns => passes → .passed s ∈ ns ∨ .overridden s ∈ ns) hpassed
    ?_ ?_).mono (fun _ _ _ => trivial) fun _ _ _ => trivial
  · exact fun new ns h hpass =>
      (h hpass).imp (List.mem_append_right new) (List.mem_append_right new)
  · intro ns st hst hnoted
    cases st with
    | payout st =>
        cases st with
        | upsert i p =>
            obtain ⟨hpass, rfl⟩ := hst
            exact hnoted hpass
        | _ => trivial
    | _ => trivial

/-- A statement and what follows it. -/
theorem pass_perform {st : Stmt} {f : st.Val → Code α} (hst : ∀ ns, PassOut ns st)
    (hf : ∀ r w, PassTells cfg a (f r) (dealNotes a (.stmt st r) w ++ ns)) :
    PassTells cfg a ((run st).bind f) ns :=
  ⟨hst ns, fun _ _ => hf _ _, trivial⟩

theorem verifierVerdict_passes : PassTells cfg a (verifierVerdict cfg verdict) ns := by
  refine pass_perform (fun _ => trivial) fun verification w => ?_
  cases verification with
  | none => trivial
  | some verification =>
      dsimp only [Prog.ret_bind]
      split_ifs
      · trivial
      · refine pass_perform (fun _ => trivial) fun submission w' => ?_
        cases submission with
        | none => trivial
        | some submission => exact pass_perform (fun _ => trivial) fun job w'' => trivial
      · refine pass_perform (fun _ => trivial) fun now w' => ?_
        split_ifs
        · trivial
        · refine pass_perform (fun _ => trivial) fun _ w'' => ?_
          refine about_passes applyVerdict_about fun hpass => Or.inl ?_
          refine List.mem_append_left _ (List.mem_append_left _ ?_)
          simp [dealSteps, hpass]

theorem handleVerificationRequested_passes {n : Nat} :
    PassTells cfg a (handleVerificationRequested cfg i s n) ns := by
  have hclaim : ∀ ns st, ClaimDoes s n st → PassOut ns st := by
    intro ns st hst
    cases st with
    | payout st => exact hst.elim
    | _ => trivial
  refine tells_bind.mpr (((verifierClaim_every ⟨s, n, i, 600⟩).tells hclaim).mono
    (fun r ns _ => ?_) fun _ _ h => h)
  cases r with
  | error status code message => trivial
  | ok claim =>
      refine pass_perform (fun _ => trivial) fun answer w => ?_
      refine tells_bind.mpr (verifierVerdict_passes.mono (fun r _ _ => ?_) fun _ _ h => h)
      cases r <;> trivial

theorem overrideVerdictRoute_passes {v : Option Verdict} {score : Option Nat}
    (hreq : a.req = .overrideVerdict s v score) :
    PassTells cfg a (overrideVerdictRoute cfg s v score) ns := by
  refine pass_perform (fun _ => trivial) fun submission w => ?_
  cases submission with
  | none => trivial
  | some submission =>
      cases v with
      | none => trivial
      | some v =>
          refine pass_perform (fun _ => trivial) fun _ w' => ?_
          refine pass_perform (fun _ => trivial) fun job w'' => ?_
          cases job with
          | none =>
              dsimp only
              split_ifs <;> trivial
          | some job =>
              refine pass_perform (fun _ => trivial) fun _ w''' => ?_
              refine @about_passes cfg a _ _ s (v = .pass) _
                (Prog.Every.bind ?_ fun _ => trivial) fun hpass => Or.inr ?_
              · refine every_onlyIf.mpr fun hpass =>
                  (getBountyOrThrow_every trivial).bind fun bounty => ?_
                refine (createPayout_about hpass).bind fun _ => ?_
                cases (submission.overridden v score).dedupeKey <;> simp [About]
              · refine List.mem_append_left _ (List.mem_append_left _ ?_)
                simp [dealSteps, hreq, hpass]

end Passes

/-! ## Requests -/

/-- What a request has noted before its statements. -/
def dealConduct (a : Actor Request) : Conduct Stmt Tag World Lock DealNote where
  out g s _ := DealOut a.req (own a.pid g.hist) s
  inside _ _ _ _ := True
  commit _ _ _ _ := True

/-- Only a verdict and an override create payouts. -/
theorem Request.upserts_payout {q : Request} {i : Nat} {p : Payout}
    (h : q.Executes (.payout (.upsert i p))) :
    (∃ body, q = .verifierVerdict body) ∨ (∃ s v score, q = .overrideVerdict s v score) ∨
      q = .verificationRunner := by
  cases q with
  | verifierVerdict body => exact Or.inl ⟨body, rfl⟩
  | overrideVerdict s v score => exact Or.inr (Or.inl ⟨s, v, score, rfl⟩)
  | verificationRunner => exact Or.inr (Or.inr rfl)
  | payoutRunner =>
      obtain h | ⟨key, htopic, hhandler | hfinal⟩ := h
      · exact h.elim
      · cases key with
        | verification i n => exact absurd htopic (by simp [payoutTopics, OutboxKey.topic])
        | _ => exact hhandler.elim
      · exact hfinal.elim
  | release i j n | reapLeases | payoutAddress i x | stripeWebhook e =>
      obtain h | h := h
      · exact h.elim
      · first | exact absurd h (by simp) | exact h.elim
  | _ => exact h.elim

/-- The requests without a submission, a verdict or an override write no verification that is
new or finished. -/
theorem Request.verifies {q : Request} {s : VerificationStmt} (h : q.Executes (.verification s)) :
    (∃ i j key body, q = .submit i j key body) ∨ (∃ body, q = .verifierClaim body) ∨
      (∃ body, q = .verifierVerdict body) ∨ (∃ k n, q = .requeueVerification k n) ∨
      q = .verificationRunner := by
  cases q with
  | submit i j key body => exact Or.inl ⟨i, j, key, body, rfl⟩
  | verifierClaim body => exact Or.inr (Or.inl ⟨body, rfl⟩)
  | verifierVerdict body => exact Or.inr (Or.inr (Or.inl ⟨body, rfl⟩))
  | requeueVerification k n => exact Or.inr (Or.inr (Or.inr (Or.inl ⟨k, n, rfl⟩)))
  | verificationRunner => exact Or.inr (Or.inr (Or.inr (Or.inr rfl)))
  | payoutRunner =>
      obtain h | ⟨key, htopic, hhandler | hfinal⟩ := h
      · exact h.elim
      · cases key with
        | verification i n => exact absurd htopic (by simp [payoutTopics, OutboxKey.topic])
        | _ => exact hhandler.elim
      · exact hfinal.elim
  | release i j n | reapLeases | payoutAddress i x | stripeWebhook e =>
      obtain h | h := h
      · exact h.elim
      · first | exact absurd h (by simp) | exact h.elim
  | _ => exact h.elim

/-- A request that neither submits, judges nor overrides has nothing to note before. -/
theorem dealOut_of_executes {q : Request} {ns : List DealNote} {s : Stmt} (h : q.Executes s)
    (hsubmit : ∀ i j key body, q ≠ .submit i j key body) (hclaim : ∀ c, q ≠ .verifierClaim c)
    (hverdict : ∀ b, q ≠ .verifierVerdict b) (hmark : ∀ i, q ≠ .markDuplicate i)
    (hoverride : ∀ i v score, q ≠ .overrideVerdict i v score) (hrunner : q ≠ .verificationRunner) :
    DealOut q ns s := by
  cases s with
  | job s =>
      cases s with
      | update j new =>
          obtain ⟨i, k, key, body, hq⟩ | ⟨b, hq⟩ | ⟨i, hq⟩ | ⟨i, v, score, hq⟩ | hq :=
            Request.updates_job h
          · exact absurd hq (hsubmit i k key body)
          · exact absurd hq (hverdict b)
          · exact absurd hq (hmark i)
          · exact absurd hq (hoverride i v score)
          · exact absurd hq hrunner
      | _ => exact ⟨trivial, trivial, trivial⟩
  | submission s =>
      cases s with
      | insert s row =>
          exact ⟨trivial, fun i j key body hq => absurd hq (hsubmit i j key body), trivial⟩
      | _ => exact ⟨trivial, trivial, trivial⟩
  | verification s =>
      obtain ⟨i, k, key, body, hq⟩ | ⟨c, hq⟩ | ⟨b, hq⟩ | ⟨k, n, rfl⟩ | hq := Request.verifies h
      · exact absurd hq (hsubmit i k key body)
      · exact absurd hq (hclaim c)
      · exact absurd hq (hverdict b)
      · cases s with
        | insert k v => exact h.elim
        | update k v =>
            refine ⟨trivial, fun hfinished => ?_, trivial⟩
            exact absurd (h.2.symm.trans hfinished) (by simp)
      · exact absurd hq hrunner
  | payout s =>
      cases s with
      | upsert i p =>
          obtain ⟨b, hq⟩ | ⟨i, v, score, hq⟩ | hq := Request.upserts_payout h
          · exact absurd hq (hverdict b)
          · exact absurd hq (hoverride i v score)
          · exact absurd hq hrunner
      | _ => exact ⟨trivial, trivial, trivial⟩
  | _ => exact ⟨trivial, trivial, trivial⟩

/-- Every request keeps to that. -/
theorem Request.deals_does {cfg : Config} {τ : Terms World Lock DealNote} {pid : Nat} (q : Request)
    (hgrow : ∀ w w', τ.grow w w' → w.Grows w') :
    (q.code cfg pid).Does (system cfg dealNotes) τ ⟨pid, q⟩ (dealConduct ⟨pid, q⟩)
      (fun _ _ => True) (fun _ _ => True) .start := by
  have hD : Lenient cfg τ pid (dealConduct ⟨pid, q⟩) fun _ => True :=
    { grow := hgrow
      read := fun _ _ _ => ⟨trivial, trivial, trivial⟩
      nanoid := fun _ _ => ⟨trivial, trivial, trivial⟩
      inside := fun _ _ _ _ _ => trivial
      commit := fun _ _ _ _ _ _ => trivial }
  have htold : ∀ {α : Type} {p : Code α},
      (∀ ns, Tells cfg ⟨pid, q⟩ (RowOut q) p (fun _ _ => True) (fun _ _ => True) ns) →
      (∀ ns, ReadTells cfg ⟨pid, q⟩ p ns) → (∀ ns, PassTells cfg ⟨pid, q⟩ p ns) →
      p.Keeps (system cfg dealNotes) τ ⟨pid, q⟩ (dealConduct ⟨pid, q⟩) fun _ => True := by
    intro α p hrows hreads hpasses
    refine Prog.Follows.keeps (fun ns => Prog.Tells.follows
      ((rows_told (hrows _)).and ((rows_told (hreads _)).and (hpasses ns)))) ?_
    rintro g s busy ⟨hrow, hread, hpass⟩
    exact ⟨hrow, hread, hpass⟩
  have hnone : ∀ {α : Type} {p : Code α} {Does : Stmt → Prop}, p.Every Does →
      (∀ i p, ¬ Does (.payout (.upsert i p))) → ∀ ns, PassTells cfg ⟨pid, q⟩ p ns := by
    intro α p Does hp hdoes ns
    refine hp.tells fun ns st hst => ?_
    cases st with
    | payout st =>
        cases st with
        | upsert i p => exact absurd hst (hdoes i p)
        | _ => trivial
    | _ => trivial
  have hkeeps : (q.code cfg pid).Keeps (system cfg dealNotes) τ ⟨pid, q⟩ (dealConduct ⟨pid, q⟩)
      fun _ => True := by
    cases q with
    | submit i j key body =>
        exact (htold (fun _ => submitRoute_tells (a := ⟨pid, _⟩) rfl)
          (fun _ => submitRoute_reads (a := ⟨pid, _⟩) rfl)
          (hnone submitRoute_every fun _ _ h => h)).bind fun _ => Prog.keeps_ret
    | verifierClaim c =>
        exact (htold (fun _ => tells_of_every (verifierClaim_noJobUpdate c))
          (fun _ => verifierClaim_reads) (hnone (verifierClaim_every c) fun _ _ h => h)).bind
          fun _ => Prog.keeps_ret
    | verifierVerdict body =>
        exact (htold (fun _ => verifierVerdict_tells (a := ⟨pid, _⟩) (Or.inl rfl))
          (fun _ => verifierVerdict_reads (by simp)) fun _ => verifierVerdict_passes).bind
          fun _ => Prog.keeps_ret
    | markDuplicate s =>
        refine (htold (fun _ => markDuplicateRoute_tells (a := ⟨pid, _⟩) rfl) (fun ns => ?_)
          (hnone markDuplicateRoute_every fun _ _ h => h)).bind fun _ => Prog.keeps_ret
        refine markDuplicateRoute_every.tells fun ns st hst => ?_
        cases st with
        | submission st =>
            cases st with
            | insert k new => exact hst.elim
            | _ => trivial
        | verification st => exact hst.elim
        | job st =>
            cases st with
            | update k new => exact fun i v score h => absurd h (by simp)
            | _ => trivial
        | _ => trivial
    | overrideVerdict s v score =>
        exact (htold (fun _ => overrideVerdictRoute_tells (a := ⟨pid, _⟩) rfl)
          (fun _ => overrideVerdictRoute_reads (a := ⟨pid, _⟩) rfl)
          fun _ => overrideVerdictRoute_passes rfl).bind fun _ => Prog.keeps_ret
    | verificationRunner =>
        refine Prog.Keeps.bind ?_ fun _ => Prog.keeps_ret
        refine runOutboxLoop_keeps_of (a := ⟨pid, .verificationRunner⟩) hD trivial
          fun evt htopic => ?_
        refine deliver_keeps_of (a := ⟨pid, .verificationRunner⟩) ?_
          fun s _ _ _ => ?_
        · obtain ⟨key, n⟩ := evt
          cases key with
          | verification s n =>
              exact htold (fun _ => handleVerificationRequested_tells (a := ⟨pid, _⟩) rfl)
                (fun _ => handleVerificationRequested_reads (by simp))
                fun _ => handleVerificationRequested_passes
          | _ => exact absurd htopic (by simp [verificationTopics, OutboxKey.topic])
        · exact ⟨trivial, trivial, trivial⟩
    | _ =>
        refine Request.code_keeps (a := ⟨pid, _⟩) { hD with commit := fun _ _ _ _ _ _ => trivial }
          fun g s busy h _ => ?_
        exact dealOut_of_executes h (by simp) (by simp) (by simp) (by simp) (by simp) (by simp)
  exact (hkeeps .start ⟨⟨rfl, rfl⟩, fun _ _ _ => trivial⟩).mono (fun _ _ _ => trivial)
    (fun _ _ _ => trivial) (fun _ _ _ h => h) (fun _ _ _ _ h => h) fun _ _ _ _ h => h

end OpenUnion
