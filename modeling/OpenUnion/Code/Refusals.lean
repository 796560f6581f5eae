import Mathlib.Data.List.Infix
import OpenUnion.Code.Offers
import OpenUnion.Ranking.InsertionMap

/-!
# The refuse cache of the worker

The universal worker remembers for a while which jobs it has refused, and sends their ids with
every `GET /api/jobs/next`.  Its loop is translated as a state machine: an `Event` is what the
loop gets from outside (the time that passes, an answer, the outcome of the job it runs), and
`Worker.step` what the loop does with it up to the next thing it waits for.

The health of the modules decides which capability tags are asked for, so that the filters of a
request come with its answer; `withinCanary` and the preflight are decided outside.
-/

namespace OpenUnion.Refusals

open Ranking

/-- An entry of the refuse cache. -/
structure Refusal where
  expiresAtMs : Nat
  reason : String

/-- The refuse cache: a `Map` from the ids of jobs. -/
abbrev RefuseCache := InsertionMap String Refusal

/-- `pruneRefuseCache`. -/
def pruneRefuseCache (cache : RefuseCache) (now : Nat) : RefuseCache :=
  (cache.filter fun e => decide (now < e.2.expiresAtMs)).newest 200

/-- `addRefusal`. -/
def addRefusal (cache : RefuseCache) (now : Nat) (jobId reason : String) (ttlMs : Nat) :
    RefuseCache :=
  if jobId = "" then cache
  else pruneRefuseCache (cache.set jobId ⟨now + max 5000 ttlMs, reason⟩) now

/-- `ids.join(",")`. -/
def joinedByComma (ids : List String) : String :=
  String.ofList ([','].intercalate (ids.map String.toList))

/-- The ids `excludeJobIdsCsv` returns, once the cache is pruned. -/
def excludeJobIdsCsv (cache : RefuseCache) : Option String :=
  let ids := cache.keys.take 50
  if ids = [] then none else some (joinedByComma ids)

/-- `exclude_job_ids` as the server reads it. -/
def excludeJobIds (exclude : Option String) : List String :=
  match exclude with
  | none => []
  | some csv => ((((csv.toList.splitOn ',').map String.ofList).map trimmed).filter (· ≠ "")).take 50

/-- The texts of the ids of jobs: no comma, no white space. -/
structure JobIds where
  text : Nat → String
  nonempty : ∀ j, text j ≠ ""
  plain : ∀ j, ∀ c ∈ (text j).toList, c ≠ ',' ∧ isWhiteSpace c = false

/-- The settings of a worker; a requirement that is not set is empty. -/
structure Worker where
  workerId : Nat
  ids : JobIds
  bountyIdText : Nat → String
  requireJobId : String
  requireBountyId : String
  withinCanary : String → Bool
  once : Bool

/-- What the loop waits for. -/
inductive Phase where
  /-- The end of a pause between two rounds. -/
  | polling
  /-- The answer to `GET /api/jobs/next`. -/
  | asking (exclude : Option String)
  /-- The checks on a job that has been offered. -/
  | offered (jobId bountyId : String)
  /-- The answer to `POST /api/jobs/:jobId/claim`. -/
  | claiming (jobId : String)
  /-- The end of the job. -/
  | working (jobId : String)
  | stopped

/-- What the loop has done: the calls of `addRefusal` and the claims it has sent. -/
inductive Note where
  | refused (jobId : String) (at' ttlMs : Nat)
  | claimed (jobId : String) (at' : Nat)

/-- The loop; notes are newest first. -/
structure LoopState where
  now : Nat
  cache : RefuseCache
  phase : Phase
  notes : List Note

/-- The server that answers `GET /api/jobs/next`, with the other filters of the request. -/
structure Server where
  board : Board
  intake : Intake
  filters : Filters

/-- What the loop gets from outside. -/
inductive Event where
  | tick (ms : Nat)
  /-- A round in which the worker is not paused. -/
  | poll
  /-- The answer to `jobs/next`; none if it is not `ok`. -/
  | answer (server : Option Server)
  /-- The preflight, with the error it throws. -/
  | screen (preflight : Option String)
  /-- The answer to the claim; its status if it is not `ok`. -/
  | claimAnswer (status : Option Nat)
  /-- The job ends, submitted or with an error. -/
  | finish (error : Option String)
  /-- A request throws outside the part of the loop that catches. -/
  | stop

/-- The jobs of the server that a request asks to leave out. -/
def Server.excluded (server : Server) (ids : JobIds) (exclude : Option String) : List Nat :=
  server.board.world.ids.filter fun j => decide (ids.text j ∈ excludeJobIds exclude)

/-- `GET /api/jobs/next` with the ids to exclude. -/
def Server.next (server : Server) (worker : Worker) (exclude : Option String) : NextAnswer :=
  nextRoute server.board server.intake worker.workerId
    { server.filters with excludeJobIds := server.excluded worker.ids exclude }

namespace LoopState

/-- The loop before its first round. -/
def start (now : Nat) : LoopState := ⟨now, .empty, .polling, []⟩

/-- Refuse a job and go on with the next round. -/
def refuse (s : LoopState) (jobId reason : String) (ttlMs : Nat) : LoopState :=
  { s with
    cache := addRefusal s.cache s.now jobId reason ttlMs
    phase := .polling
    notes := .refused jobId s.now ttlMs :: s.notes }

end LoopState

namespace Worker

variable (worker : Worker)

/-- The checks before a claim: the reason of a refusal, and how long it holds. -/
def refusal (jobId bountyId : String) (preflight : Option String) : Option (String × Nat) :=
  if worker.requireJobId ≠ "" ∧ jobId ≠ worker.requireJobId then
    some ("require_job_id_mismatch:" ++ worker.requireJobId, 2 * 60000)
  else if worker.requireBountyId ≠ "" ∧ bountyId ≠ worker.requireBountyId then
    some ("require_bounty_id_mismatch:" ++ worker.requireBountyId, 2 * 60000)
  else if !worker.withinCanary jobId then some ("canary_skip", 5 * 60000)
  else preflight.map fun message => ("preflight:" ++ message, 10 * 60000)

/-- The end of a round that came to its end. -/
def roundEnd : Phase := if worker.once then .stopped else .polling

/-- The loop up to the next thing it waits for. -/
def step (s : LoopState) (e : Event) : Option LoopState :=
  match e, s.phase with
  | .tick ms, _ => some { s with now := s.now + ms }
  | .poll, .polling =>
      let cache := pruneRefuseCache s.cache s.now
      some { s with cache := cache, phase := .asking (excludeJobIdsCsv cache) }
  | .answer none, .asking _ => some { s with phase := .polling }
  | .answer (some server), .asking exclude =>
      match server.next worker exclude with
      | .claimable c =>
          let jobId := worker.ids.text c.jobId
          if jobId = "" then some { s with phase := .polling }
          else some { s with phase := .offered jobId (worker.bountyIdText c.job.bountyId) }
      | _ => some { s with phase := worker.roundEnd }
  | .screen preflight, .offered jobId bountyId =>
      match worker.refusal jobId bountyId preflight with
      | some (reason, ttlMs) => some (s.refuse jobId reason ttlMs)
      | none => some { s with phase := .claiming jobId, notes := .claimed jobId s.now :: s.notes }
  | .claimAnswer none, .claiming jobId => some { s with phase := .working jobId }
  | .claimAnswer (some status), .claiming jobId =>
      some (s.refuse jobId s!"claim_failed:{status}" 10000)
  | .finish none, .working _ => some { s with phase := worker.roundEnd }
  | .finish (some message), .working jobId =>
      some (s.refuse jobId ("job_failed:" ++ message) (10 * 60000))
  | .stop, _ => some { s with phase := .stopped }
  | _, _ => none

/-- The states the loop can reach by steps that meet `ok`. -/
inductive Reaches (ok : LoopState → Event → Prop) : LoopState → Prop where
  | start (now : Nat) : Reaches ok (.start now)
  | step {s s' : LoopState} {e : Event} (h : Reaches ok s) (hok : ok s e)
      (hstep : worker.step s e = some s') : Reaches ok s'

end Worker

end OpenUnion.Refusals
