import Mathlib.Data.List.Sort
import OpenUnion.Interleave.Stages

/-!
# Retention jobs

A retention job says that an artifact is to be deleted at some time.
`enqueueDueRetentionDeletions` turns the jobs that are due into events of the outbox, job by job
and without a transaction: it marks the job, and then inserts the event, whose key names the
job.  A worker of the outbox claims an event and deletes the artifact.

Of `outbox_events` only the rows of the topic `artifact.delete.requested` are modelled, without
the columns that the delivery uses; rows are never deleted.
-/

namespace OpenUnion.Retention

open Interleave

inductive Status where
  | pending
  | enqueued
  | finished
  deriving DecidableEq

/-- A row of `retention_jobs`. -/
structure Job where
  id : String
  artifactId : String
  status : Status
  runAt : ℤ
  deriving DecidableEq

/-- A row of `outbox_events` with the topic `artifact.delete.requested`. -/
structure Event where
  idempotencyKey : String
  retentionJobId : String
  artifactId : String
  deriving DecidableEq

/-- The two tables. -/
structure Store where
  jobs : List Job
  events : List Event

/-- The key of the event of a job. -/
def retentionKey (jobId : String) : String := "retention:" ++ jobId

/-- The event of a job. -/
def Job.event (job : Job) : Event := ⟨retentionKey job.id, job.id, job.artifactId⟩

namespace Store

variable (w : Store)

/-- The jobs that are pending and due. -/
def pendingDue (now : ℤ) : List Job :=
  w.jobs.filter fun job => decide (job.status = .pending ∧ job.runAt ≤ now)

/-- The first of them, by the time they are due. -/
def dueJobs (now : ℤ) (limit : ℕ) : List Job :=
  ((w.pendingDue now).insertionSort fun a b => a.runAt ≤ b.runAt).take limit

/-- `UPDATE retention_jobs SET status = .. WHERE id = ..`. -/
def mark (jobId : String) (status : Status) : Store :=
  { w with jobs := w.jobs.map fun job => if job.id = jobId then { job with status } else job }

/-- `INSERT .. ON CONFLICT (topic, idempotency_key) DO NOTHING`. -/
def insertEvent (event : Event) : Store :=
  if w.events.any fun e => e.idempotencyKey = event.idempotencyKey then w
  else { w with events := w.events ++ [event] }

/-- The id of a job is taken. -/
def idTaken (jobId : String) : Bool := w.jobs.any fun job => job.id = jobId

/-- A new job, if its id is free. -/
def insertJob (job : Job) : Store :=
  if w.idTaken job.id then w else { w with jobs := w.jobs ++ [job] }

end Store

/-- The statements. -/
inductive Stmt where
  | due (now : ℤ) (limit : ℕ)
  | markEnqueued (jobId : String)
  | insertEvent (event : Event)
  /-- An event as it is claimed from the outbox. -/
  | claimEvent (key : String)
  | deleteArtifactObject (artifactId : String)
  | markFinished (jobId : String)
  | insertJob (job : Job)

/-- What a statement answers; an insert of a job whether its id was free. -/
def Stmt.Val : Stmt → Type
  | .due _ _ => List Job
  | .claimEvent _ => Option Event
  | .insertJob _ => Bool
  | _ => Unit

/-- What a statement answers. -/
def Stmt.result : (s : Stmt) → Store → s.Val
  | .due now limit, w => w.dueJobs now limit
  | .claimEvent key, w => w.events.find? fun e => e.idempotencyKey = key
  | .insertJob job, w => !w.idTaken job.id
  | .markEnqueued _, _ => ()
  | .insertEvent _, _ => ()
  | .deleteArtifactObject _, _ => ()
  | .markFinished _, _ => ()

/-- The tables after a statement. -/
def Stmt.write : Stmt → Store → Store
  | .markEnqueued jobId, w => w.mark jobId .enqueued
  | .insertEvent event, w => w.insertEvent event
  | .markFinished jobId, w => w.mark jobId .finished
  | .insertJob job, w => w.insertJob job
  | .due _ _, w | .claimEvent _, w | .deleteArtifactObject _, w => w

/-- The calls. -/
inductive Call where
  | enqueueDueRetentionDeletions (now : ℤ) (limit : ℕ)
  /-- `scheduleArtifactDeletion`, with the id it has drawn. -/
  | scheduleArtifactDeletion (jobId artifactId : String) (runAt : ℤ)
  /-- A delivery of the event with this key. -/
  | deliver (key : String)

/-- Programs over the two tables. -/
abbrev Code := Prog Stmt Stmt.Val Unit String

/-- Execute a statement. -/
abbrev run (s : Stmt) : Code s.Val := perform s

/-- The body of the loop of `enqueueDueRetentionDeletions`. -/
def enqueueJob (job : Job) : Code Unit := do
  run (.markEnqueued job.id)
  run (.insertEvent job.event)

/-- The loop over the jobs it has read. -/
def enqueueJobs (due : List Job) : Code Unit := forEach enqueueJob due

/-- `enqueueDueRetentionDeletions`. -/
def enqueueDueRetentionDeletions (now : ℤ) (limit : ℕ) : Code ℕ := do
  let due : List Job ← run (.due now limit)
  enqueueJobs due
  return due.length

/-- `handleArtifactDeleteRequested`. -/
def handleArtifactDeleteRequested (event : Event) : Code Unit := do
  run (.deleteArtifactObject event.artifactId)
  run (.markFinished event.retentionJobId)

/-- A delivery: the handler runs on the payload of the event that is claimed. -/
def deliver (key : String) : Code ℕ := do
  let claimed : Option Event ← run (.claimEvent key)
  match claimed with
  | none => return 0
  | some event =>
      handleArtifactDeleteRequested event
      return 1

/-- `scheduleArtifactDeletion`. -/
def scheduleArtifactDeletion (jobId artifactId : String) (runAt : ℤ) : Code ℕ := do
  let free : Bool ← run (.insertJob ⟨jobId, artifactId, .pending, runAt⟩)
  if free then return 1 else throw "duplicate key"

/-- The program of a call; what it returns is a count, of jobs or of deliveries. -/
def Call.code : Call → Code ℕ
  | .enqueueDueRetentionDeletions now limit => Retention.enqueueDueRetentionDeletions now limit
  | .scheduleArtifactDeletion jobId artifactId runAt =>
      Retention.scheduleArtifactDeletion jobId artifactId runAt
  | .deliver key => Retention.deliver key

/-- What is noted of the calls. -/
inductive Note where
  | selected (due : List Job)
  | marked (jobId : String)
  | inserted (jobId : String)
  | claimed (event : Event)

/-- The statements of the calls. -/
def retentionEngine : Engine Stmt Stmt.Val Store Empty := Engine.lockless Stmt.result Stmt.write

/-- The note of a statement. -/
def Stmt.note : (s : Stmt) → s.Val → List Note
  | .due _ _, jobs => [.selected jobs]
  | .markEnqueued jobId, _ => [.marked jobId]
  | .insertEvent event, _ => [.inserted event.retentionJobId]
  | .claimEvent _, some event => [.claimed event]
  | _, _ => []

/-- Calls over one database. -/
def retentionCalls : Machine Stmt Stmt.Val Unit String ℕ Call Store Empty Empty Note where
  engine := retentionEngine
  code _ call := call.code
  env e := e.elim
  env_same e := e.elim
  note _ x _ :=
    match x with
    | .stmt s r => s.note r
    | _ => []

end OpenUnion.Retention
