import OpenUnion.Code.Jobs
import OpenUnion.Code.Json
import Mathlib.Data.List.Sort
import Mathlib.Data.Rat.Defs

/-!
# Offering jobs

`GET /api/jobs/next` tells a worker which job to claim: `findClaimableJob` filters the
candidates of a join of `jobs` and `bounties` and keeps the one with the best score.

`Board` adds to the database the columns only the offer reads, and `SoundBoard` carries
what the schema promises of them.  The reads of one offer are taken from one state, and
scores, which the code computes in floating point, are rational.
-/

namespace OpenUnion

open Interleave

/-- `task_descriptor` of a job or a bounty. -/
structure TaskDescriptor where
  type : String
  capabilityTags : List String
  freshnessSlaSec : Option Nat

/-- The freshness window of a descriptor that may be missing; 0 is none. -/
def slaSec (descriptor : Option TaskDescriptor) : Nat :=
  (descriptor.bind TaskDescriptor.freshnessSlaSec).getD 0

/-- `apps`, with the supported origins merged into the public ones. -/
structure App where
  ownerOrgId : Nat
  publicAllowedOrigins : List Nat

/-- The database, with what only the offer reads. -/
structure Board where
  world : World
  jobDescriptor : Nat → Option TaskDescriptor
  bountyDescriptor : Nat → Option TaskDescriptor
  priority : Nat → Int
  requiredProofs : Nat → Nat
  appByTaskType : String → Option App
  /-- The organisation `org_system`. -/
  orgSystem : Nat
  /-- `normalizeOrigin` on the texts of origins; it throws on some. -/
  normalizeOrigin : Nat → Option Nat
  /-- The worker's capabilities say `browser: false`. -/
  browserDisabled : Nat → Bool

/-- A board whose rows are consistent. -/
structure SoundBoard extends Board where
  /-- Jobs have identifiers that have been handed out. -/
  numbered : AllRows (fun j _ => j < world.nextId) world.jobs
  /-- The foreign key of `jobs.bounty_id`. -/
  bountyExists : AllRows (fun _ job => (world.bounties job.bountyId).isSome = true) world.jobs
  /-- The window a job row carries is that of its own descriptor. -/
  ownSla : AllRows (fun j job => job.freshnessSlaSec = slaSec (jobDescriptor j)) world.jobs

/-- The options of `findClaimableJob`. -/
structure Filters where
  capabilityTag : Option String
  supportedCapabilityTags : Option (List String)
  minPayoutCents : Option Nat
  taskType : Option String
  excludeJobIds : List Nat
  requireJobId : Option Nat
  requireBountyId : Option Nat

/-- No filter. -/
def Filters.none : Filters := ⟨.none, .none, .none, .none, [], .none, .none⟩

/-- `{requireJobId: id}`. -/
def Filters.requireJob (jobId : Nat) : Filters := { Filters.none with requireJobId := some jobId }

/-- A row of `jobs ⋈ bounties`. -/
structure Candidate where
  jobId : Nat
  job : Job
  bounty : Bounty

/-- The jobs that count as active for `getActiveJobForWorker`. -/
def Job.activeStatus (workerId : Nat) (job : Job) : Bool :=
  decide (job.leaseWorkerId = some workerId ∧
    (job.status = .claimed ∨ job.status = .submitted ∨ job.status = .verifying))

/-- The rows of `jobs` in the order of their identifiers. -/
def World.jobRows (w : World) : List (Nat × Job) :=
  w.ids.filterMap fun j => (w.jobs j).map fun job => (j, job)

/-- `getActiveJobForWorker`: the newest active job. -/
def getActiveJobForWorker (w : World) (workerId : Nat) : Option (Nat × Job) :=
  ((w.jobRows.filter fun row => row.2.activeStatus workerId).insertionSort fun a b =>
    b.2.createdAt ≤ a.2.createdAt).head?

/-- `expectedPassRate`. -/
def expectedPassRate (w : World) (workerId : Nat) : Rat :=
  match w.reputation workerId with
  | none => 1 / 2
  | some rep => rep.alpha / (rep.alpha + rep.beta)

/-- `workerDuplicateRate`, over the last 100 submissions. -/
def workerDuplicateRate (w : World) (workerId : Nat) : Rat :=
  let rows := ((w.ids.filterMap w.submissions).filter fun s => s.workerId = workerId).insertionSort
    fun a b => b.createdAt ≤ a.createdAt
  let last := rows.take 100
  if last.length = 0 then 0
  else (last.filter fun s => s.status = .duplicate).length / last.length

namespace Board

variable (b : Board)

/-- The join, at one job. -/
def candidate (jobId : Nat) : Option Candidate :=
  (b.world.jobs jobId).bind fun job =>
    (b.world.bounties job.bountyId).map fun bounty => ⟨jobId, job, bounty⟩

/-- `job.taskDescriptor ?? bounty.taskDescriptor`. -/
def descriptor (c : Candidate) : Option TaskDescriptor :=
  (b.jobDescriptor c.jobId).or (b.bountyDescriptor c.job.bountyId)

/-- The order of the candidates: priority, payout, age. -/
def before (c d : Candidate) : Prop :=
  b.priority d.job.bountyId < b.priority c.job.bountyId ∨
    b.priority d.job.bountyId = b.priority c.job.bountyId ∧
      (d.bounty.payoutCents < c.bounty.payoutCents ∨
        d.bounty.payoutCents = c.bounty.payoutCents ∧ c.job.createdAt ≤ d.job.createdAt)

instance : DecidableRel b.before := fun c d => by unfold before; infer_instance

/-- The `WHERE` clause of the candidates. -/
def wanted (opts : Filters) (c : Candidate) : Bool :=
  decide (c.bounty.status = .published) && JobStmt.leasable b.world.now c.job &&
    (match opts.requireJobId, opts.requireBountyId with
      | some j, _ => decide (c.jobId = j)
      | none, some i => decide (c.job.bountyId = i)
      | none, none => true) &&
    ((opts.taskType.filter (· ≠ "")).all fun t =>
      decide ((b.descriptor c).map TaskDescriptor.type = some t)) &&
    decide (c.jobId ∉ opts.excludeJobIds.eraseDups.take 50)

/-- The candidates: at most 50, or the one job that is required. -/
def candidates (opts : Filters) : List Candidate :=
  (((b.world.ids.filterMap b.candidate).filter (b.wanted opts)).insertionSort b.before).take
    (if opts.requireJobId.isSome then 1 else 50)

/-- `getSystemAppPublicOriginSet`: the origins the system app of a task type makes public. -/
def systemPublicOrigins (taskType : String) : List Nat :=
  if trimmed taskType = "" then []
  else
    match b.appByTaskType (trimmed taskType) with
    | none => []
    | some app =>
        if app.ownerOrgId ≠ b.orgSystem then []
        else app.publicAllowedOrigins.filterMap b.normalizeOrigin

/-- Every origin of the bounty that is not public is still verified. -/
def originsVerified (c : Candidate) : Bool :=
  let publicOrigins := b.systemPublicOrigins (((b.descriptor c).map TaskDescriptor.type).getD "")
  (c.bounty.allowedOrigins.filter fun o => o ∉ publicOrigins).all
    (b.world.originAllowed c.bounty.orgId)

/-- The tags of a job; without a descriptor a browser is needed. -/
def jobTags (c : Candidate) : List String :=
  match b.descriptor c with
  | some descriptor =>
      if descriptor.capabilityTags = [] then ["browser"] else descriptor.capabilityTags
  | none => ["browser"]

/-- The worker can do what the tags of the job ask for. -/
def capable (workerId : Nat) (supported : Option (List String)) (c : Candidate) : Bool :=
  match supported with
  | some tags => (b.jobTags c).all fun t => decide (t ∈ tags.filter (· ≠ ""))
  | none => !(b.browserDisabled workerId && decide ("browser" ∈ b.jobTags c))

/-- The job is past the freshness window of its descriptor. -/
def stale (c : Candidate) : Bool :=
  Job.isStale { c.job with freshnessSlaSec := slaSec (b.descriptor c) } b.world.now

/-- The checks of the loop over the candidates. -/
def offerable (workerId : Nat) (opts : Filters) (c : Candidate) : Bool :=
  decide (c.jobId ∉ opts.excludeJobIds) && b.originsVerified c &&
    (opts.minPayoutCents.all fun cents => decide (cents ≤ c.bounty.payoutCents)) &&
    ((opts.capabilityTag.filter (· ≠ "")).all fun t => decide (t ∈ b.jobTags c)) &&
    b.capable workerId opts.supportedCapabilityTags c && !b.stale c

/-- The score of a candidate for a worker. -/
def score (workerId : Nat) (c : Candidate) : Rat :=
  let base := b.priority c.job.bountyId * 100000 + c.bounty.payoutCents
  let complexityPenalty :=
    b.requiredProofs c.job.bountyId * (1 - expectedPassRate b.world workerId) * 500
  let dupPenalty := c.bounty.payoutCents * workerDuplicateRate b.world workerId * (1 / 5)
  base - complexityPenalty - dupPenalty

/-- One round of the loop: keep the better of two. -/
def keepBest (workerId : Nat) (opts : Filters) (best : Option (Rat × Candidate)) (c : Candidate) :
    Option (Rat × Candidate) :=
  if b.offerable workerId opts c then
    match best with
    | none => some (b.score workerId c, c)
    | some (s, d) => if s < b.score workerId c then some (b.score workerId c, c) else some (s, d)
  else best

/-- `findClaimableJob`. -/
def findClaimableJob (workerId : Nat) (opts : Filters) : Option Candidate :=
  ((b.candidates opts).foldl (b.keepBest workerId opts) none).map Prod.snd

end Board

/-- The load of the queues, and the limits on it; a limit of 0 on an age is none. -/
structure Intake where
  paused : Bool
  verifierBacklog : Nat
  maxVerifierBacklog : Nat
  verifierAgeSec : Nat
  maxVerifierAgeSec : Nat
  outboxAgeSec : Nat
  maxOutboxAgeSec : Nat
  scanAgeSec : Nat
  maxScanAgeSec : Nat

/-- An age is over its limit. -/
def isOverAge (ageSec maxAgeSec : Nat) : Bool := decide (0 < maxAgeSec ∧ maxAgeSec < ageSec)

/-- The answers of `GET /api/jobs/next`. -/
inductive NextAnswer where
  | blocked (jobId : Nat)
  | idle (next_step : String)
  | claimable (c : Candidate)

/-- `GET /api/jobs/next`. -/
def nextRoute (b : Board) (q : Intake) (workerId : Nat) (opts : Filters) : NextAnswer :=
  match getActiveJobForWorker b.world workerId with
  | some (jobId, _) => .blocked jobId
  | none =>
      if q.paused then .idle "Worker intake paused; retry later."
      else if q.maxVerifierBacklog < q.verifierBacklog then
        .idle "Verification backlog high; wait and retry later."
      else if isOverAge q.verifierAgeSec q.maxVerifierAgeSec then
        .idle s!"Verification queue lag high ({q.verifierAgeSec}s); wait and retry later."
      else if isOverAge q.outboxAgeSec q.maxOutboxAgeSec then
        .idle s!"Outbox queue lag high ({q.outboxAgeSec}s); wait and retry later."
      else if isOverAge q.scanAgeSec q.maxScanAgeSec then
        .idle s!"Scanner backlog high ({q.scanAgeSec}s); wait and retry later."
      else
        match b.findClaimableJob workerId opts with
        | none => .idle "No jobs available right now. Reply HEARTBEAT_OK."
        | some c => .claimable c

end OpenUnion
