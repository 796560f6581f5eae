import OpenUnion.Code.Resolve

/-!
# Resolving leaks nothing

Every query of `resolveIdOrg` joins its way to the organisation, and every query of
`resolveIdWorker` filters by the worker, so the rows of others do not change what is answered,
and do not shadow a later query either.

* `resolve_confined`: two databases that agree on the rows an organisation owns resolve every
  identifier alike for it, and two that agree on the rows of a worker resolve every identifier
  alike for that worker.
* `found_of_org`: what is resolved for an organisation is a row it owns.
-/

namespace OpenUnion.Resolve

/-- The rows of a table that have an owner are the rows that have it in the other table. -/
def SameRows {ρ : Type} (t t' : Table ρ) (owned owned' : ρ → Prop) : Prop :=
  ∀ id r, t.row id = some r ∧ owned r ↔ t'.row id = some r ∧ owned' r

section Owners

variable (db : Db) (orgId workerId : String)

/-- The bounty of the job is the organisation's. -/
def OwnsJob (j : Job) : Prop := ∃ b, db.bounties.row j.bountyId = some b ∧ b.orgId = orgId

/-- The job of the submission is the organisation's. -/
def OwnsSubmission (s : Submission) : Prop :=
  ∃ j, db.jobs.row s.jobId = some j ∧ OwnsJob db orgId j

/-- The submission of the payout is the organisation's. -/
def OwnsPayout (p : Payout) : Prop :=
  ∃ s, db.submissions.row p.submissionId = some s ∧ OwnsSubmission db orgId s

/-- The job of the artifact is the organisation's. -/
def OwnsArtifact (a : Artifact) : Prop :=
  ∃ jobId j, a.jobId = some jobId ∧ db.jobs.row jobId = some j ∧ OwnsJob db orgId j

/-- The worker has a submission for the job. -/
def SubmittedTo (jobId : String) : Prop :=
  ∃ id s, db.submissions.row id = some s ∧ s.workerId = workerId ∧ s.jobId = jobId

end Owners

/-- Two databases agree on every row the organisation owns. -/
structure AgreeForOrg (orgId : String) (db db' : Db) : Prop where
  apps : SameRows db.apps db'.apps (fun r => r.ownerOrgId = orgId) fun r => r.ownerOrgId = orgId
  origins : SameRows db.origins db'.origins (fun r => r.orgId = orgId) fun r => r.orgId = orgId
  bounties : SameRows db.bounties db'.bounties (fun r => r.orgId = orgId) fun r => r.orgId = orgId
  jobs : SameRows db.jobs db'.jobs (OwnsJob db orgId) (OwnsJob db' orgId)
  submissions : SameRows db.submissions db'.submissions (OwnsSubmission db orgId)
    (OwnsSubmission db' orgId)
  payouts : SameRows db.payouts db'.payouts (OwnsPayout db orgId) (OwnsPayout db' orgId)
  disputes : SameRows db.disputes db'.disputes (fun r => r.orgId = orgId) fun r => r.orgId = orgId
  artifacts : SameRows db.artifacts db'.artifacts (OwnsArtifact db orgId) (OwnsArtifact db' orgId)

/-- Two databases agree on every row of the worker: its submissions, payouts and artifacts, and
the jobs it leases or has submitted to. -/
structure AgreeForWorker (workerId : String) (db db' : Db) : Prop where
  submissions : SameRows db.submissions db'.submissions (fun r => r.workerId = workerId)
    fun r => r.workerId = workerId
  payouts : SameRows db.payouts db'.payouts (fun r => r.workerId = workerId)
    fun r => r.workerId = workerId
  artifacts : SameRows db.artifacts db'.artifacts (fun r => r.workerId = some workerId)
    fun r => r.workerId = some workerId
  leased : SameRows db.jobs db'.jobs (fun r => r.leaseWorkerId = some workerId)
    fun r => r.leaseWorkerId = some workerId
  submitted : ∀ id j, db.jobs.row id = some j ∧ SubmittedTo db workerId id ↔
    db'.jobs.row id = some j ∧ SubmittedTo db' workerId id

section Queries

variable {ρ : Type} {t t' : Table ρ} {owned owned' : ρ → Prop} {db db' : Db}
  {orgId workerId id : String}

/-- Queries that return exactly the owned rows return the same from tables that agree on them. -/
theorem SameRows.query (h : SameRows t t' owned owned') (id : String) {q q' : Option ρ}
    (hq : ∀ r, q = some r ↔ t.row id = some r ∧ owned r)
    (hq' : ∀ r, q' = some r ↔ t'.row id = some r ∧ owned' r) : q = q' :=
  Option.ext fun r => (hq r).trans ((h id r).trans (hq' r).symm)

/-- A query by key with a filter on a column. -/
theorem filter_iff {p : ρ → Prop} [DecidablePred p] (r : ρ) :
    (t.row id).filter (fun r => decide (p r)) = some r ↔ t.row id = some r ∧ p r := by
  rw [Option.filter_eq_some_iff, decide_eq_true_eq]

theorem jobOfOrg_iff (j : Job) :
    jobOfOrg db orgId id = some j ↔ db.jobs.row id = some j ∧ OwnsJob db orgId j := by
  simp only [jobOfOrg, Option.bind_eq_bind, Option.bind_eq_some_iff, Option.ite_none_right_eq_some,
    OwnsJob]
  constructor
  · rintro ⟨j', hj, b, hb, horg, heq⟩
    obtain rfl := Option.some.inj heq
    exact ⟨hj, b, hb, horg⟩
  · rintro ⟨hj, b, hb, horg⟩
    exact ⟨j, hj, b, hb, horg, rfl⟩

theorem submissionOfOrg_iff (s : Submission) :
    submissionOfOrg db orgId id = some s ↔
      db.submissions.row id = some s ∧ OwnsSubmission db orgId s := by
  simp only [submissionOfOrg, Option.bind_eq_bind, Option.bind_eq_some_iff,
    Option.ite_none_right_eq_some, OwnsSubmission, OwnsJob]
  constructor
  · rintro ⟨s', hs, j, hj, b, hb, horg, heq⟩
    obtain rfl := Option.some.inj heq
    exact ⟨hs, j, hj, b, hb, horg⟩
  · rintro ⟨hs, j, hj, b, hb, horg⟩
    exact ⟨s, hs, j, hj, b, hb, horg, rfl⟩

theorem payoutOfOrg_iff (p : Payout) :
    payoutOfOrg db orgId id = some p ↔ db.payouts.row id = some p ∧ OwnsPayout db orgId p := by
  simp only [payoutOfOrg, Option.bind_eq_bind, Option.bind_eq_some_iff,
    Option.ite_none_right_eq_some, OwnsPayout, OwnsSubmission, OwnsJob]
  constructor
  · rintro ⟨p', hp, s, hs, j, hj, b, hb, horg, heq⟩
    obtain rfl := Option.some.inj heq
    exact ⟨hp, s, hs, j, hj, b, hb, horg⟩
  · rintro ⟨hp, s, hs, j, hj, b, hb, horg⟩
    exact ⟨p, hp, s, hs, j, hj, b, hb, horg, rfl⟩

theorem artifactOfOrg_iff (a : Artifact) :
    artifactOfOrg db orgId id = some a ↔
      db.artifacts.row id = some a ∧ OwnsArtifact db orgId a := by
  simp only [artifactOfOrg, Option.bind_eq_bind, Option.bind_eq_some_iff,
    Option.ite_none_right_eq_some, OwnsArtifact, OwnsJob]
  constructor
  · rintro ⟨a', ha, j, ⟨jobId, hjobId, hj⟩, b, hb, horg, heq⟩
    obtain rfl := Option.some.inj heq
    exact ⟨ha, jobId, j, hjobId, hj, b, hb, horg⟩
  · rintro ⟨ha, jobId, j, hjobId, hj, b, hb, horg⟩
    exact ⟨a, ha, j, ⟨jobId, hjobId, hj⟩, b, hb, horg, rfl⟩

theorem hasSub_iff : hasSub db workerId id = true ↔ SubmittedTo db workerId id := by
  simp only [hasSub, Table.any, List.any_eq_true, Option.any_eq_true, decide_eq_true_eq]
  constructor
  · rintro ⟨k, -, s, hs, hjob, hworker⟩
    exact ⟨k, s, hs, hworker, hjob⟩
  · rintro ⟨k, s, hs, hworker, hjob⟩
    exact ⟨k, db.submissions.complete k s hs, s, hs, hjob, hworker⟩

theorem submittedJob_iff (j : Job) :
    submittedJob db workerId id = some j ↔
      db.jobs.row id = some j ∧ SubmittedTo db workerId id := by
  rw [submittedJob, Option.ite_none_right_eq_some, hasSub_iff, and_comm]

end Queries

section Confined

variable {db db' : Db} {orgId workerId : String}

/-- An organisation's view does not depend on the rows of others. -/
theorem resolveIdOrg_confined (toISOString : Nat → String) (h : AgreeForOrg orgId db db')
    (idRaw : String) :
    resolveIdOrg toISOString db orgId idRaw = resolveIdOrg toISOString db' orgId idRaw := by
  have happ := h.apps.query (normalizeResolveId idRaw) filter_iff filter_iff
  have horigin := h.origins.query (normalizeResolveId idRaw) filter_iff filter_iff
  have hbounty := h.bounties.query (normalizeResolveId idRaw) filter_iff filter_iff
  have hjob := h.jobs.query (normalizeResolveId idRaw) jobOfOrg_iff jobOfOrg_iff
  have hsubmission := h.submissions.query (normalizeResolveId idRaw) submissionOfOrg_iff
    submissionOfOrg_iff
  have hpayout := h.payouts.query (normalizeResolveId idRaw) payoutOfOrg_iff payoutOfOrg_iff
  have hdispute := h.disputes.query (normalizeResolveId idRaw) filter_iff filter_iff
  have hartifact := h.artifacts.query (normalizeResolveId idRaw) artifactOfOrg_iff
    artifactOfOrg_iff
  simp only [resolveIdOrg, appOfOrg, originOfOrg, bountyOfOrg, disputeOfOrg, happ, horigin,
    hbounty, hjob, hsubmission, hpayout, hdispute, hartifact]

/-- Nor does a worker's. -/
theorem resolveIdWorker_confined (toISOString : Nat → String) (h : AgreeForWorker workerId db db')
    (idRaw : String) :
    resolveIdWorker toISOString db workerId idRaw =
      resolveIdWorker toISOString db' workerId idRaw := by
  have hsubmission := h.submissions.query (normalizeResolveId idRaw) filter_iff filter_iff
  have hpayout := h.payouts.query (normalizeResolveId idRaw) filter_iff filter_iff
  have hartifact := h.artifacts.query (normalizeResolveId idRaw) filter_iff filter_iff
  have hleased := h.leased.query (normalizeResolveId idRaw) filter_iff filter_iff
  have hsubmitted : submittedJob db workerId (normalizeResolveId idRaw) =
      submittedJob db' workerId (normalizeResolveId idRaw) :=
    Option.ext fun j => (submittedJob_iff j).trans
      ((h.submitted _ j).trans (submittedJob_iff j).symm)
  simp only [resolveIdWorker, submissionOfWorker, payoutOfWorker, artifactOfWorker, leasedJob,
    hsubmission, hpayout, hartifact, hleased, hsubmitted]

/-- **Resolving leaks nothing**: databases that agree on the rows an organisation owns resolve
every identifier alike for it, and those that agree on the rows of a worker do so for the
worker. -/
theorem resolve_confined (toISOString : Nat → String) (idRaw : String) :
    (∀ orgId db db', AgreeForOrg orgId db db' →
      resolveIdOrg toISOString db orgId idRaw = resolveIdOrg toISOString db' orgId idRaw) ∧
    ∀ workerId db db', AgreeForWorker workerId db db' →
      resolveIdWorker toISOString db workerId idRaw =
        resolveIdWorker toISOString db' workerId idRaw :=
  ⟨fun _ _ _ h => resolveIdOrg_confined toISOString h idRaw,
    fun _ _ _ h => resolveIdWorker_confined toISOString h idRaw⟩

/-- The organisation owns a row with this identifier. -/
def OwnsId (db : Db) (orgId id : String) : Prop :=
  (∃ r, db.apps.row id = some r ∧ r.ownerOrgId = orgId) ∨
    (∃ r, db.origins.row id = some r ∧ r.orgId = orgId) ∨
    (∃ r, db.bounties.row id = some r ∧ r.orgId = orgId) ∨
    (∃ r, db.jobs.row id = some r ∧ OwnsJob db orgId r) ∨
    (∃ r, db.submissions.row id = some r ∧ OwnsSubmission db orgId r) ∨
    (∃ r, db.payouts.row id = some r ∧ OwnsPayout db orgId r) ∨
    (∃ r, db.disputes.row id = some r ∧ r.orgId = orgId) ∨
    ∃ r, db.artifacts.row id = some r ∧ OwnsArtifact db orgId r

/-- What is resolved for an organisation is a row it owns. -/
theorem found_of_org {toISOString : Nat → String} {idRaw : String}
    (h : (resolveIdOrg toISOString db orgId idRaw).found = true) :
    OwnsId db orgId (normalizeResolveId idRaw) := by
  have hquery : ∀ {ρ : Type} {t : Table ρ} {owned : ρ → Prop} {q : Option ρ} {r : ρ}
      {id : String}, (∀ r, q = some r ↔ t.row id = some r ∧ owned r) → q = some r →
      ∃ r, t.row id = some r ∧ owned r := fun hq hr => ⟨_, (hq _).mp hr⟩
  unfold resolveIdOrg at h
  by_cases hempty : normalizeResolveId idRaw = ""
  · simp [hempty, notFound] at h
  simp only [if_neg hempty] at h
  cases happ : appOfOrg db orgId (normalizeResolveId idRaw) with
  | some _ => exact Or.inl (hquery filter_iff happ)
  | none =>
  refine Or.inr ?_
  cases horigin : originOfOrg db orgId (normalizeResolveId idRaw) with
  | some _ => exact Or.inl (hquery filter_iff horigin)
  | none =>
  refine Or.inr ?_
  cases hbounty : bountyOfOrg db orgId (normalizeResolveId idRaw) with
  | some _ => exact Or.inl (hquery filter_iff hbounty)
  | none =>
  refine Or.inr ?_
  cases hjob : jobOfOrg db orgId (normalizeResolveId idRaw) with
  | some _ => exact Or.inl (hquery jobOfOrg_iff hjob)
  | none =>
  refine Or.inr ?_
  cases hsubmission : submissionOfOrg db orgId (normalizeResolveId idRaw) with
  | some _ => exact Or.inl (hquery submissionOfOrg_iff hsubmission)
  | none =>
  refine Or.inr ?_
  cases hpayout : payoutOfOrg db orgId (normalizeResolveId idRaw) with
  | some _ => exact Or.inl (hquery payoutOfOrg_iff hpayout)
  | none =>
  refine Or.inr ?_
  cases hdispute : disputeOfOrg db orgId (normalizeResolveId idRaw) with
  | some _ => exact Or.inl (hquery filter_iff hdispute)
  | none =>
  refine Or.inr ?_
  cases hartifact : artifactOfOrg db orgId (normalizeResolveId idRaw) with
  | some _ => exact hquery artifactOfOrg_iff hartifact
  | none =>
      simp [happ, horigin, hbounty, hjob, hsubmission, hpayout, hdispute, hartifact, notFound] at h

end Confined

section Instances

/-- A table of listed rows. -/
def Table.ofList {ρ : Type} (rows : List (String × ρ)) : Table ρ where
  ids := rows.map Prod.fst
  row id := (rows.find? fun r => r.1 = id).map Prod.snd
  complete id r h := by
    obtain ⟨⟨id', r'⟩, hfind, rfl⟩ := Option.map_eq_some_iff.mp h
    have hid : id' = id := by simpa using List.find?_some hfind
    exact List.mem_map.mpr ⟨(id', r'), List.mem_of_find?_eq_some hfind, hid⟩

/-- Organisation A has a bounty, and a worker a submission. -/
def ownDb : Db where
  apps := .ofList []
  origins := .ofList []
  bounties := .ofList [("b1", ⟨"A", "Crawl", "published"⟩)]
  jobs := .ofList [("j1", ⟨"b1", "claimed", none⟩)]
  submissions := .ofList [("s1", ⟨"j1", "w1", "pending"⟩)]
  payouts := .ofList []
  disputes := .ofList []
  artifacts := .ofList []

/-- The same, and an app of organisation B that has the identifier of the bounty. -/
def shadowDb : Db := { ownDb with apps := .ofList [("b1", ⟨"B", "shadow", "crawl"⟩)] }

/-- The app of B changes nothing for A, and nothing for the worker. -/
theorem resolve_confined_shadow :
    resolveIdOrg toString shadowDb "A" "b1" =
        found "bounty" [("title", some "Crawl"), ("status", some "published")] ∧
      resolveIdWorker toString shadowDb "w1" "j1" =
        found "job" [("bountyId", some "b1"), ("status", some "claimed")] := by
  have horg : AgreeForOrg "A" ownDb shadowDb := by
    refine ⟨?_, fun _ _ => Iff.rfl, fun _ _ => Iff.rfl, fun _ _ => Iff.rfl, fun _ _ => Iff.rfl,
      fun _ _ => Iff.rfl, fun _ _ => Iff.rfl, fun _ _ => Iff.rfl⟩
    intro id r
    constructor
    · rintro ⟨hrow, -⟩
      exact absurd hrow (by simp [ownDb, Table.ofList])
    · rintro ⟨hrow, howner⟩
      obtain ⟨⟨id', r'⟩, hfind, rfl⟩ := Option.map_eq_some_iff.mp hrow
      have hmem := List.mem_of_find?_eq_some hfind
      rw [List.mem_singleton, Prod.mk.injEq] at hmem
      obtain ⟨rfl, rfl⟩ := hmem
      exact absurd howner (by simp)
  have hworker : AgreeForWorker "w1" ownDb shadowDb :=
    ⟨fun _ _ => Iff.rfl, fun _ _ => Iff.rfl, fun _ _ => Iff.rfl, fun _ _ => Iff.rfl,
      fun _ _ => Iff.rfl⟩
  constructor
  · rw [← (resolve_confined toString "b1").1 "A" ownDb shadowDb horg]
    decide
  · rw [← (resolve_confined toString "j1").2 "w1" ownDb shadowDb hworker]
    decide

end Instances

end OpenUnion.Resolve
