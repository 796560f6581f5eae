import OpenUnion.Code.Payouts

/-!
# Disputes

Opening a dispute blocks the payout and stops its event, cancelling or upholding
it clears the block and lets the event run again, refunding it credits the
organisation.  Each is one transaction.
-/

namespace OpenUnion

open Interleave

/-- The target of a dispute: a payout, or a submission whose payout is meant. -/
def resolveTarget (payoutId submissionId : Option Nat) : Code (Option DisputeTarget) :=
  match payoutId, submissionId with
  | some p, _ => ask (.disputeTargetByPayout p)
  | none, some s => ask (.disputeTargetBySubmission s)
  | none, none => return none

/-- The writes of `createDispute`. -/
def openDispute (target : DisputeTarget) (payoutId holdUntil now : Nat) : Code Nat := do
  let id ← nanoid
  (run (.dispute (.insert id
    { orgId := target.orgId
      bountyId := target.bountyId
      submissionId := some target.submissionId
      payoutId := some payoutId
      status := .opened
      resolution := none
      resolvedAt := none }))).bind orUniqueViolation
  -- Block payout and stop any pending payout execution until the dispute is resolved.
  run (.payout (.block payoutId))
  -- Mark payout.requested outbox event as sent so it won't fire while the dispute is open.
  run (.outbox (.stop (.payout payoutId) now))
  -- Schedule an automatic refund at hold_until (refund = gross - Proofwork fee).
  run (.outbox (.insertOrIgnore (.disputeAutoRefund id) holdUntil now))
  return id

/-- `createDispute`: the dispute's id and payout. -/
def createDispute (orgId : Nat) (payoutId submissionId : Option Nat) : Code (Nat × Nat) := do
  if payoutId = none ∧ submissionId = none then throw .missingTarget
  else
    transaction (fun r => .createDispute r.1 r.2) do
      let now ← dateNow
      match ← resolveTarget payoutId submissionId with
      | none => throw .targetNotFound
      | some target =>
          if target.orgId ≠ orgId then throw .forbidden
          else
            match target.payout with
            | none => throw .payoutMissing
            | some (finalPayoutId, payout) =>
                if payout.status = .paid then throw .payoutAlreadyPaid
                else
                  match payout.holdUntil with
                  | none => throw .disputeWindowDisabled
                  | some holdUntil =>
                      let t ← dateNow
                      if holdUntil ≤ t then throw .disputeWindowExpired
                      else
                        match ← ask (.openDispute finalPayoutId) with
                        | some _ => throw .disputeAlreadyOpen
                        | none =>
                            let id ← openDispute target finalPayoutId holdUntil now
                            return (id, finalPayoutId)

/-- When the event of an unblocked payout is available: at the end of the hold
window if that is after `t`, else at `now`. -/
def resumeAt (holdUntil : Option Nat) (t now : Nat) : Nat :=
  match holdUntil with
  | some hold => if t < hold then hold else now
  | none => now

/-- Clear the block and let the payout event run again. -/
def resumePayout (payoutId now : Nat) (clearSentAt : Bool) : Code Unit := do
  run (.payout (.unblock payoutId))
  match ← getPayout payoutId with
  | none => throw .noResult
  | some payout =>
      let t ← dateNow
      let availableAt := resumeAt payout.holdUntil t now
      match ← ask (.outboxEvent (.payout payoutId)) with
      | some _ => run (.outbox (.reopen (.payout payoutId) availableAt false clearSentAt))
      | none =>
          (run (.outbox (.insert (.payout payoutId) availableAt now))).bind orUniqueViolation

/-- `cancelDispute`. -/
def cancelDispute (orgId disputeId : Nat) : Code Dispute :=
  transaction (fun _ => .cancelDispute disputeId) do
    let now ← dateNow
    match ← run (.dispute (.lock disputeId)) with
    | none => throw .notFound
    | some row =>
        if row.orgId ≠ orgId then throw .forbidden
        else if row.status ≠ .opened then throw .notOpen
        else
          match ← run (.dispute (.close disputeId .cancelled .cancelled now)) with
          | none => throw .noResult
          | some updated =>
              match row.payoutId with
              | none => return updated
              | some payoutId =>
                  resumePayout payoutId now true
                  return updated

/-- The cents a refund gives back. -/
def Payout.refundCents (p : Payout) : Nat := p.amountCents - p.fees.proofworkFeeCents

/-- The refund branch of `resolveDisputeAdmin`. -/
def refundPayout (disputeId : Nat) (row : Dispute) (payoutId : Nat) (payoutRow : Payout)
    (now : Nat) : Code Dispute := do
  let _ ← ensureAccount row.orgId
  -- Credit the org billing balance (refund minus Proofwork fee).
  onlyIf (0 < payoutRow.refundCents) do
    run (.account (.credit row.orgId payoutRow.refundCents))
    insertBillingEvent row.orgId (.disputeRefund disputeId payoutId) payoutRow.refundCents now
  -- Mark payout refunded (final).
  run (.payout (.refund payoutId))
  match row.submissionId with
  | none => finish
  | some submissionId =>
      run (.submission (.setPayoutStatus submissionId .reversed))
      finish
where
  finish : Code Dispute := do
    -- Stop any pending payout outbox events for this payout.
    run (.outbox (.stop (.payout payoutId) now))
    match ← run (.dispute (.close disputeId .resolved .refund now)) with
    | none => throw .noResult
    | some updated => return updated

/-- The uphold branch of `resolveDisputeAdmin`. -/
def upholdPayout (disputeId payoutId : Nat) (payoutRow : Payout) (now : Nat) : Code Dispute := do
  run (.payout (.unblock payoutId))
  let t ← dateNow
  let availableAt := resumeAt payoutRow.holdUntil t now
  match ← ask (.outboxEvent (.payout payoutId)) with
  | some _ =>
      run (.outbox (.reopen (.payout payoutId) availableAt false false))
      close
  | none =>
      (run (.outbox (.insert (.payout payoutId) availableAt now))).bind orUniqueViolation
      close
where
  close : Code Dispute := do
    match ← run (.dispute (.close disputeId .resolved .uphold now)) with
    | none => throw .noResult
    | some updated => return updated

/-- `resolveDisputeAdmin`; `refund` is the resolution asked for. -/
def resolveDisputeAdmin (disputeId : Nat) (refund : Bool) : Code Dispute :=
  transaction (fun _ => .resolveDispute disputeId refund) do
    let now ← dateNow
    match ← run (.dispute (.lock disputeId)) with
    | none => throw .notFound
    | some row =>
        if row.status ≠ .opened then throw .notOpen
        else
          match row.payoutId with
          | none => throw .payoutMissing
          | some payoutId =>
              match ← run (.payout (.lock payoutId)) with
              | none => throw .noResult
              | some payoutRow =>
                  if payoutRow.status = .paid then throw .payoutAlreadyPaid
                  else if payoutRow.status = .refunded then return row
                  else if refund then refundPayout disputeId row payoutId payoutRow now
                  else upholdPayout disputeId payoutId payoutRow now

/-- Errors the auto-refund handler treats as a no-op. -/
def Err.isSettled : Err → Bool
  | .notFound | .notOpen | .payoutMissing | .payoutAlreadyPaid => true
  | _ => false

/-- `handleDisputeAutoRefundRequested`. -/
def handleDisputeAutoRefundRequested (disputeId : Nat) : Code Unit :=
  (resolveDisputeAdmin disputeId true |>.bind fun _ => return ()).orElse fun err =>
    if err.isSettled then return () else throw err

/-- The status code of an error of `createDispute`. -/
def Err.disputeStatus : Err → Nat
  | .missingTarget => 400
  | .targetNotFound => 404
  | .forbidden => 403
  | .payoutAlreadyPaid | .payoutMissing | .disputeAlreadyOpen | .disputeWindowDisabled
  | .disputeWindowExpired => 409
  | _ => 400

/-- `POST /api/org/disputes`. -/
def createDisputeRoute (orgId : Nat) (payoutId submissionId : Option Nat) :
    Code (Http (Nat × Nat)) :=
  (createDispute orgId payoutId submissionId |>.bind fun dispute => return .ok dispute).orElse
    fun err => return .error err.disputeStatus "invalid" err.message

/-- `POST /api/org/disputes/:disputeId/cancel`. -/
def cancelDisputeRoute (orgId disputeId : Nat) : Code (Http Dispute) :=
  (cancelDispute orgId disputeId |>.bind fun dispute => return .ok dispute).orElse fun err =>
    let status := match err with
      | .notFound => 404
      | .forbidden => 403
      | .notOpen => 409
      | _ => 400
    return .error status "invalid" err.message

/-- `POST /api/admin/disputes/:disputeId/resolve`. -/
def resolveDisputeRoute (disputeId : Nat) (refund : Bool) : Code (Http Dispute) :=
  (resolveDisputeAdmin disputeId refund |>.bind fun dispute => return .ok dispute).orElse fun err =>
    let status := match err with
      | .notFound => 404
      | .notOpen => 409
      | .payoutAlreadyPaid => 409
      | _ => 400
    return .error status "invalid" err.message

end OpenUnion
