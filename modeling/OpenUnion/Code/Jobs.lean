import OpenUnion.Code.Basic

/-!
# Leasing a job

`leaseJob` and `releaseJobLease` are guarded updates; `leaseJob` also takes the
worker's advisory lock and looks for an active job first.
-/

namespace OpenUnion

open Interleave

/-- `isLeaseExpired`, at the time `now`. -/
def isLeaseExpired (leaseExpiresAt : Option Nat) (now : Nat) : Bool :=
  leaseExpiresAt.any fun t => decide (t < now)

/-- `leaseJob`. -/
def leaseJob (jobId workerId ttlMs : Nat) : Code (Option Job) := do
  let start ← dateNow
  let leaseNonce ← nanoid
  transaction (fun _ => .leaseJob jobId workerId) do
    let now ← dateNow
    run (.advisory workerId)
    let active ← ask (.hasActiveLease workerId now)
    if active then return none
    else run (.job (.lease jobId workerId (start + ttlMs) leaseNonce now))

/-- `releaseJobLease`. -/
def releaseJobLease (jobId workerId leaseNonce : Nat) : Code (Option Job) :=
  run (.job (.release jobId workerId leaseNonce))

/-- A job past its freshness window. -/
def Job.isStale (job : Job) (now : Nat) : Bool :=
  decide (0 < job.freshnessSlaSec ∧ job.freshnessSlaSec * 1000 < now - job.createdAt)

/-- `POST /api/jobs/:jobId/claim`. -/
def claimRoute (cfg : Config) (workerId jobId : Nat) : Code (Http Job) := do
  let existing ← ask (.hasActiveJob workerId)
  if existing then return .error 409 "already_claimed" "Worker already has active job"
  else
    match ← getJob jobId with
    | none => return .error 404 "not_found" "Job not found"
    | some job =>
        let now ← dateNow
        if job.isStale now then
          return .error 409 "stale_job" "Job is stale (freshness SLA exceeded)"
        else if job.status ≠ .opened ∧ isLeaseExpired job.leaseExpiresAt now = false then
          return .error 409 "not_available" "Job already claimed"
        else
          match ← leaseJob jobId workerId cfg.leaseTtlMs with
          | none => return .error 409 "not_available" "Job could not be leased"
          | some lease =>
              let _ ← getBountyOrThrow job.bountyId
              return .ok lease

/-- `POST /api/jobs/:jobId/release`. -/
def releaseRoute (workerId jobId leaseNonce : Nat) : Code (Http Unit) := do
  match ← releaseJobLease jobId workerId leaseNonce with
  | some _ => return .ok ()
  | none =>
      match ← getJob jobId with
      | none => return .error 404 "not_found" "Job not found"
      | some job =>
          if job.leaseWorkerId ≠ some workerId then
            return .error 403 "forbidden" "Worker does not hold lease"
          else if job.leaseNonce.any fun n => decide (n ≠ leaseNonce) then
            return .error 403 "forbidden" "leaseNonce mismatch"
          else return .error 409 "not_available" "Job lease could not be released"

/-- `POST /api/internal/reap-leases`, with `reapExpiredLeases`. -/
def reapRoute : Code (Http (List Nat)) := do
  let now ← dateNow
  let expired ← run (.job (.reap now))
  return .ok expired

end OpenUnion
