import OpenUnion.Code.Disputes
import OpenUnion.Code.Verdicts

/-!
# The outbox loop

`runOutboxLoop` claims a batch of due events and delivers them one after the
other: a handler that returns marks its event sent, one that throws has it
rescheduled or, after the last attempt, deadlettered.  One round of the loop is
one request here; its process id is what `locked_by` holds.
-/

namespace OpenUnion

open Interleave

/-- `maxAttemptsForTopic`, for the topics other than artifact scans. -/
def Config.maxAttempts (cfg : Config) : Nat := max 1 (min 1000 cfg.maxOutboxAttempts)

/-- `backoffSeconds`. -/
def backoffSeconds (attemptNo : Nat) : Nat := min 60 (2 ^ min 10 (attemptNo - 1))

/-- The batch size. -/
def outboxLimit : Nat := 25

/-- The body of the transaction of `claimOutboxBatch`. -/
def claimOutboxBatch.body (cfg : Config) (topics : List Topic) (workerId : Nat) :
    Code (List (OutboxKey × Nat)) := do
  let now ← dateNow
  run (.outbox (.releaseStale now cfg.outboxLockTimeoutMs))
  let rows ← run (.outbox (.select topics outboxLimit now))
  onlyIf (rows ≠ []) (run (.outbox (.take (rows.map Prod.fst) workerId now)))
  return rows.map fun row => (row.1, row.2 + 1)

/-- `claimOutboxBatch`: the events taken, with the number of their attempt. -/
def claimOutboxBatch (cfg : Config) (topics : List Topic) (workerId : Nat) :
    Code (List (OutboxKey × Nat)) :=
  transaction (fun _ => .claimOutboxBatch) (claimOutboxBatch.body cfg topics workerId)

/-- The handler of a topic, as the runners dispatch it. -/
def handleEvent (cfg : Config) (workerId : Nat) : OutboxKey → Code Unit
  | .payout p => handlePayoutRequested cfg p
  | .payoutConfirm p => handlePayoutConfirmRequested cfg p
  | .disputeAutoRefund d => handleDisputeAutoRefundRequested d
  | .verification s n => handleVerificationRequested cfg workerId s n

/-- What the loop does with an event whose handler threw. -/
def handlerFailed (cfg : Config) (key : OutboxKey) (attemptNo : Nat) (err : Err) : Code Unit :=
  if cfg.maxAttempts ≤ attemptNo then run (.outbox (.markDead key err))
  else run (.outbox (.reschedule key err (backoffSeconds attemptNo * 1000)))

/-- Deliver one event. -/
def deliver (cfg : Config) (workerId : Nat) (evt : OutboxKey × Nat) : Code Unit :=
  (handleEvent cfg workerId evt.1 |>.bind fun _ => run (.outbox (.markSent evt.1))).orElse
    (handlerFailed cfg evt.1 evt.2)

/-- One round of `runOutboxLoop`. -/
def runOutboxLoop (cfg : Config) (topics : List Topic) (workerId : Nat) : Code Unit := do
  let batch ← claimOutboxBatch cfg topics workerId
  forEach (deliver cfg workerId) batch

/-- The topics of `payout-runner`. -/
def payoutTopics : List Topic :=
  [.payoutRequested, .payoutConfirmRequested, .disputeAutoRefundRequested]

/-- The topics of `verification-runner`. -/
def verificationTopics : List Topic := [.verificationRequested]

end OpenUnion
