import OpenUnion.Code.Json

/-!
# Resolving identifiers

`resolveIdOrg` and `resolveIdWorker` tell what an identifier stands for, with one query after
the other, to an organisation or a worker.  A row carries the columns that the queries read.
-/

namespace OpenUnion.Resolve

/-- A table, by its primary key. -/
structure Table (ρ : Type) where
  ids : List String
  row : String → Option ρ
  complete : ∀ id r, row id = some r → id ∈ ids

/-- `apps`. -/
structure App where
  ownerOrgId : String
  slug : String
  taskType : String

/-- `origins`. -/
structure Origin where
  orgId : String
  origin : String
  status : String

/-- `bounties`. -/
structure Bounty where
  orgId : String
  title : String
  status : String

/-- `jobs`. -/
structure Job where
  bountyId : String
  status : String
  leaseWorkerId : Option String

/-- `submissions`. -/
structure Submission where
  jobId : String
  workerId : String
  status : String

/-- `payouts`. -/
structure Payout where
  submissionId : String
  workerId : String
  status : String
  blockedReason : Option String
  /-- In milliseconds. -/
  holdUntil : Option Nat

/-- `disputes`. -/
structure Dispute where
  orgId : String
  submissionId : Option String
  payoutId : Option String
  status : String
  resolution : Option String

/-- `artifacts`. -/
structure Artifact where
  jobId : Option String
  workerId : Option String
  kind : String
  status : String

/-- The database, as far as it is resolved. -/
structure Db where
  apps : Table App
  origins : Table Origin
  bounties : Table Bounty
  jobs : Table Job
  submissions : Table Submission
  payouts : Table Payout
  disputes : Table Dispute
  artifacts : Table Artifact

/-- `ResolveResult`; a value of `meta` is a text or null. -/
structure ResolveResult where
  found : Bool
  type : Option String
  info : List (String × Option String)
  deriving DecidableEq

/-- `{ found: false }`. -/
def notFound : ResolveResult := ⟨false, none, []⟩

/-- `{ found: true, type, meta }`. -/
def found (type : String) (info : List (String × Option String)) : ResolveResult :=
  ⟨true, some type, info⟩

/-- `normalizeResolveId`. -/
def normalizeResolveId (id : String) : String :=
  let s := trimmed id
  if 200 < s.length then sliced s 200 else s

/-- Some row satisfies the condition. -/
def Table.any {ρ : Type} (t : Table ρ) (p : ρ → Bool) : Bool := t.ids.any fun id => (t.row id).any p

section Queries

variable (db : Db) (orgId workerId id : String)

/-- `apps`, by `id` and `owner_org_id`. -/
def appOfOrg : Option App := (db.apps.row id).filter fun app => decide (app.ownerOrgId = orgId)

/-- `origins`, by `id` and `org_id`. -/
def originOfOrg : Option Origin := (db.origins.row id).filter fun o => decide (o.orgId = orgId)

/-- `bounties`, by `id` and `org_id`. -/
def bountyOfOrg : Option Bounty := (db.bounties.row id).filter fun b => decide (b.orgId = orgId)

/-- `jobs ⋈ bounties`, by `j.id` and `b.org_id`. -/
def jobOfOrg : Option Job := do
  let j ← db.jobs.row id
  let b ← db.bounties.row j.bountyId
  if b.orgId = orgId then some j else none

/-- `submissions ⋈ jobs ⋈ bounties`, by `s.id` and `b.org_id`. -/
def submissionOfOrg : Option Submission := do
  let s ← db.submissions.row id
  let j ← db.jobs.row s.jobId
  let b ← db.bounties.row j.bountyId
  if b.orgId = orgId then some s else none

/-- `payouts ⋈ submissions ⋈ jobs ⋈ bounties`, by `p.id` and `b.org_id`. -/
def payoutOfOrg : Option Payout := do
  let p ← db.payouts.row id
  let s ← db.submissions.row p.submissionId
  let j ← db.jobs.row s.jobId
  let b ← db.bounties.row j.bountyId
  if b.orgId = orgId then some p else none

/-- `disputes`, by `id` and `org_id`. -/
def disputeOfOrg : Option Dispute := (db.disputes.row id).filter fun d => decide (d.orgId = orgId)

/-- `artifacts ⋈ jobs ⋈ bounties`, by `a.id` and `b.org_id`. -/
def artifactOfOrg : Option Artifact := do
  let a ← db.artifacts.row id
  let j ← a.jobId.bind db.jobs.row
  let b ← db.bounties.row j.bountyId
  if b.orgId = orgId then some a else none

/-- `submissions`, by `id` and `worker_id`. -/
def submissionOfWorker : Option Submission :=
  (db.submissions.row id).filter fun s => decide (s.workerId = workerId)

/-- `payouts`, by `id` and `worker_id`. -/
def payoutOfWorker : Option Payout :=
  (db.payouts.row id).filter fun p => decide (p.workerId = workerId)

/-- `artifacts`, by `id` and `worker_id`. -/
def artifactOfWorker : Option Artifact :=
  (db.artifacts.row id).filter fun a => decide (a.workerId = some workerId)

/-- `jobs`, by `id` and `lease_worker_id`. -/
def leasedJob : Option Job :=
  (db.jobs.row id).filter fun j => decide (j.leaseWorkerId = some workerId)

/-- A row of `submissions` by `job_id` and `worker_id`. -/
def hasSub : Bool := db.submissions.any fun s => decide (s.jobId = id ∧ s.workerId = workerId)

/-- The job, if the worker has a submission for it. -/
def submittedJob : Option Job := if hasSub db workerId id then db.jobs.row id else none

end Queries

section Answers

variable (toISOString : Nat → String)

/-- What is told of a payout. -/
def payoutFound (p : Payout) : ResolveResult :=
  found "payout" [("status", some p.status), ("blockedReason", p.blockedReason),
    ("holdUntil", p.holdUntil.map toISOString)]

/-- What is told of an artifact. -/
def artifactFound (a : Artifact) : ResolveResult :=
  found "artifact" [("kind", some a.kind), ("status", some a.status)]

/-- What is told of a job. -/
def jobFound (j : Job) : ResolveResult :=
  found "job" [("bountyId", some j.bountyId), ("status", some j.status)]

/-- `resolveIdOrg`. -/
def resolveIdOrg (db : Db) (orgId idRaw : String) : ResolveResult :=
  let id := normalizeResolveId idRaw
  if id = "" then notFound
  else
    match appOfOrg db orgId id with
    | some app => found "app" [("slug", some app.slug), ("taskType", some app.taskType)]
    | none =>
    match originOfOrg db orgId id with
    | some o => found "origin" [("origin", some o.origin), ("status", some o.status)]
    | none =>
    match bountyOfOrg db orgId id with
    | some b => found "bounty" [("title", some b.title), ("status", some b.status)]
    | none =>
    match jobOfOrg db orgId id with
    | some j => jobFound j
    | none =>
    match submissionOfOrg db orgId id with
    | some s => found "submission" [("jobId", some s.jobId), ("workerId", some s.workerId),
        ("status", some s.status)]
    | none =>
    match payoutOfOrg db orgId id with
    | some p => payoutFound toISOString p
    | none =>
    match disputeOfOrg db orgId id with
    | some d => found "dispute" [("submissionId", d.submissionId), ("payoutId", d.payoutId),
        ("status", some d.status), ("resolution", d.resolution)]
    | none =>
    match artifactOfOrg db orgId id with
    | some a => artifactFound a
    | none => notFound

/-- `resolveIdWorker`. -/
def resolveIdWorker (db : Db) (workerId idRaw : String) : ResolveResult :=
  let id := normalizeResolveId idRaw
  if id = "" then notFound
  else if id = workerId then found "worker" [("workerId", some workerId)]
  else
    match submissionOfWorker db workerId id with
    | some s => found "submission" [("jobId", some s.jobId), ("status", some s.status)]
    | none =>
    match payoutOfWorker db workerId id with
    | some p => payoutFound toISOString p
    | none =>
    match artifactOfWorker db workerId id with
    | some a => artifactFound a
    | none =>
    match leasedJob db workerId id with
    | some j => jobFound j
    | none =>
    match submittedJob db workerId id with
    | some j => jobFound j
    | none => notFound

end Answers

end OpenUnion.Resolve
