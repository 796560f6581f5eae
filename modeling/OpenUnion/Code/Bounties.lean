import OpenUnion.Code.Basic

/-!
# Publishing, pausing and closing a bounty

`publishBounty` reserves the budget and creates the jobs, `setBountyStatus`
pauses or closes and, on closing, gives the rest of the reservation back.  The
routes around them check ownership and state first, in statements of their own.
-/

namespace OpenUnion

open Interleave

/-- The cents a bounty reserves: its payout for each of its jobs. -/
def Bounty.reserveCents (b : Bounty) : Nat := b.payoutCents * max 1 b.fingerprintClasses.length

/-- Throw when the spending since `since` and the new reserve exceed the limit. -/
def checkSpendLimit (orgId : Nat) (limit : Option Nat) (since reserveCents : Nat) (err : Err) :
    Code Unit := do
  match limit with
  | none => return
  | some limit =>
      let sum ← ask (.spentSince orgId since)
      if (limit : Int) < max 0 (-sum) + reserveCents then throw err else return

/-- The first publication: spending limits, debit, event and reservation. -/
def reserveBudget (bountyId orgId reserveCents now : Nat) (org : Option Org) : Code Unit := do
  checkSpendLimit orgId (org.bind Org.dailySpendLimitCents) (dayStart now) reserveCents
    .dailySpendLimitExceeded
  checkSpendLimit orgId (org.bind Org.monthlySpendLimitCents) (monthStart now) reserveCents
    .monthlySpendLimitExceeded
  match ← run (.account (.debit orgId reserveCents)) with
  | false => throw .insufficientFunds
  | true =>
      insertBillingEvent orgId (.bountyBudgetReserve bountyId) (-(reserveCents : Int)) now
      (run (.reservation (.insert bountyId ⟨orgId, reserveCents, .active⟩))).bind orUniqueViolation

/-- A new job of a bounty. -/
def Job.fresh (bountyId fingerprintClass freshnessSlaSec now : Nat) : Job where
  bountyId := bountyId
  fingerprintClass := fingerprintClass
  status := .opened
  leaseWorkerId := none
  leaseExpiresAt := none
  leaseNonce := none
  currentSubmissionId := none
  finalVerdict := none
  finalReason := none
  finalQualityScore := none
  doneAt := none
  freshnessSlaSec := freshnessSlaSec
  createdAt := now

/-- One job for each fingerprint class, within the organisation's limit. -/
def insertJobs (bountyId : Nat) (bounty : Bounty) (org : Option Org) (now : Nat) : Code Unit := do
  match org.bind Org.maxOpenJobs with
  | none => forEach insertJob bounty.fingerprintClasses
  | some maxOpen =>
      let openJobs ← ask (.countOpenJobs bounty.orgId)
      if maxOpen < openJobs + bounty.fingerprintClasses.length then throw .maxOpenJobsExceeded
      else forEach insertJob bounty.fingerprintClasses
where
  insertJob (fp : Nat) : Code Unit := do
    let id ← nanoid
    (run (.job (.insert id (.fresh bountyId fp bounty.freshnessSlaSec now)))).bind orUniqueViolation

/-- `publishBounty`. -/
def publishBounty (bountyId : Nat) : Code Bounty :=
  transaction (fun _ => .publishBounty bountyId) do
    match ← getBounty bountyId with
    | none => throw .bountyNotFound
    | some existing =>
        let org ← ask (.org existing.orgId)
        let now ← dateNow
        let _ ← ensureAccount existing.orgId
        let existingRes ← ask (.reservation bountyId)
        onlyIf (existingRes.isNone ∧ 0 < existing.reserveCents)
          (reserveBudget bountyId existing.orgId existing.reserveCents now org)
        match ← run (.bounty (.setStatus bountyId .published (some now))) with
        | none => throw .noResult
        | some updated =>
            let existingJobs ← ask (.countJobs bountyId)
            onlyIf (existingJobs = 0 ∧ updated.fingerprintClasses ≠ [])
              (insertJobs bountyId updated org now)
            return updated

/-- Give the uncommitted rest of a reservation back to the organisation. -/
def releaseBudget (bountyId : Nat) (res : Reservation) (now : Nat) : Code Nat := do
  let committed ← ask (.committedCents bountyId)
  let remaining := res.amountCents - committed
  onlyIf (0 < remaining) do
    run (.account (.credit res.account remaining))
    insertBillingEvent res.account (.bountyBudgetRelease bountyId) remaining now
  run (.reservation (.release bountyId))
  return committed

/-- The end of `setBountyStatus`: a close that released something names what it
found committed. -/
def statusTag (bountyId : Nat) (status : BountyStatus) : Option (Bounty × Option Nat) → Tag
  | some (_, some committed) => .closeBounty bountyId committed
  | _ => .setBountyStatus bountyId status

/-- `setBountyStatus`, with the committed cents a close found. -/
def setBountyStatus (bountyId : Nat) (status : BountyStatus) :
    Code (Option (Bounty × Option Nat)) :=
  transaction (statusTag bountyId status) do
    let now ← dateNow
    match ← run (.bounty (.setStatus bountyId status none)) with
    | none => return none
    | some row =>
        if status = .closed then
          match ← ask (.reservation bountyId) with
          | none => return some (row, none)
          | some res =>
              if res.status = .released then return some (row, none)
              else
                let committed ← releaseBudget bountyId res now
                return some (row, some committed)
        else return some (row, none)

/-- The answer of the publish route to an error of `publishBounty`. -/
def publishError : Err → Code (Http (Option Bounty))
  | .insufficientFunds => return .error 409 "insufficient_funds" "Insufficient bounty budget"
  | .dailySpendLimitExceeded =>
      return .error 409 "daily_spend_limit_exceeded" "Daily spend limit exceeded"
  | .monthlySpendLimitExceeded =>
      return .error 409 "monthly_spend_limit_exceeded" "Monthly spend limit exceeded"
  | .maxOpenJobsExceeded => return .error 409 "max_open_jobs_exceeded" "Max open jobs exceeded"
  | err => throw err

/-- Check a list of origins one after the other; `true` when each passes. -/
def allOrigins (check : Nat → Code Bool) : List Nat → Code Bool
  | [] => return true
  | o :: os => do
      let ok ← check o
      let rest ← allOrigins check os
      return ok && rest

/-- `POST /api/bounties/:bountyId/publish` for the buyer's organisation `orgId`.
`publicOrigins` are the origins the system app of the bounty's task type makes
public. -/
def publishRoute (orgId bountyId : Nat) (publicOrigins : List Nat) : Code (Http (Option Bounty)) := do
  match ← getBounty bountyId with
  | none => return .error 404 "not_found" "bounty not found"
  | some bounty =>
      if bounty.orgId ≠ orgId then return .error 403 "forbidden" "wrong org"
      else if bounty.status ≠ .draft ∧ bounty.status ≠ .paused then
        return .error 409 "bad_state" "must be draft or paused"
      else
        let originsToVerify := bounty.allowedOrigins.filter fun o => o ∉ publicOrigins
        let allVerified ← allOrigins (fun o => ask (.originAllowed bounty.orgId o)) originsToVerify
        if ¬ allVerified then
          return .error 400 "origin_not_verified" "allowedOrigins must be verified"
        else
          let unblocked ← allOrigins (fun o => do
            let blocked ← ask (.urlBlocked o)
            return !blocked) bounty.allowedOrigins
          if ¬ unblocked then return .error 403 "blocked_domain" "blocked_domain"
          else
            (publishBounty bountyId |>.bind fun _ => do
              let bounty ← getBounty bountyId
              return .ok bounty).orElse publishError

/-- `POST /api/bounties/:bountyId/pause` (`status = paused`) and `/close`
(`status = closed`). -/
def statusRoute (orgId bountyId : Nat) (status : BountyStatus) : Code (Http (Option Bounty)) := do
  match ← getBounty bountyId with
  | none => return .error 404 "not_found" "bounty not found"
  | some bounty =>
      if bounty.orgId ≠ orgId then return .error 403 "forbidden" "wrong org"
      else
        let updated ← setBountyStatus bountyId status
        return .ok (updated.map Prod.fst)

end OpenUnion
