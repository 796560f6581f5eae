import OpenUnion.Db.Query
import Mathlib.Tactic.SplitIfs
import Mathlib.Data.List.Nodup

/-!
# Writes, locks and calls outside

Every statement that writes, locks or reaches outside the database, grouped by
the table it writes.  Each group has the type of its results (`Val`), its
results (`result`), the rows it locks (`locks`) and what it does to its table
(`write`).  `seen` is the state the statement reads; a guarded `UPDATE` decides
there which rows match.

* `UPDATE ... WHERE id = k` locks the row of key `k`.
* `INSERT` locks its key and reports whether the key was free; the program throws
  a unique violation when it was not.
* `Stmt` puts the groups together with `Query`, and `engine` is the database
  handed to the interleaving machine.
-/

namespace OpenUnion

/-- Statements on `bounties`. -/
inductive BountyStmt where
  | setStatus (id : Nat) (status : BountyStatus) (publishedAt : Option Nat)

namespace BountyStmt

def apply (status : BountyStatus) (publishedAt : Option Nat) (b : Bounty) : Bounty :=
  { b with status := status, publishedAt := publishedAt.orElse fun _ => b.publishedAt }

def result : BountyStmt → World → Option Bounty
  | .setStatus b st at?, seen => (seen.bounties b).map (apply st at?)

def locks : BountyStmt → List Lock
  | .setStatus b _ _ => [.bounty b]

def write : BountyStmt → (Nat → Option Bounty) → Nat → Option Bounty
  | .setStatus b st at?, t => modify t b (apply st at?)

end BountyStmt

/-- Statements on `jobs`. -/
inductive JobStmt where
  /-- The guarded `UPDATE` of `leaseJob`. -/
  | lease (id workerId leaseExpiresAt leaseNonce now : Nat)
  /-- `releaseJobLease`. -/
  | release (id workerId leaseNonce : Nat)
  /-- `reapExpiredLeases`. -/
  | reap (now : Nat)
  /-- `updateJob`: every mutable column is written. -/
  | update (id : Nat) (job : Job)
  | insert (id : Nat) (job : Job)

namespace JobStmt

/-- `status = 'open' OR (status = 'claimed' AND lease_expires_at < now())`. -/
def leasable (now : Nat) (j : Job) : Bool :=
  match j.status with
  | .opened => true
  | .claimed => j.leaseExpiresAt.any fun t => decide (t < now)
  | .submitted | .verifying | .done | .expired => false

def lease' (workerId leaseExpiresAt leaseNonce : Nat) (j : Job) : Job :=
  { j with
    status := .claimed
    leaseWorkerId := some workerId
    leaseExpiresAt := some leaseExpiresAt
    leaseNonce := some leaseNonce }

/-- The `WHERE` of `releaseJobLease`. -/
def releasable (workerId leaseNonce : Nat) (j : Job) : Bool :=
  decide (j.leaseWorkerId = some workerId ∧ j.leaseNonce = some leaseNonce ∧ j.status = .claimed)

def unlease (status : JobStatus) (j : Job) : Job :=
  { j with status := status, leaseWorkerId := none, leaseExpiresAt := none, leaseNonce := none }

/-- The `WHERE` of `reapExpiredLeases`. -/
def reapable (now : Nat) (j : Job) : Bool :=
  decide (j.status = .claimed) && j.leaseExpiresAt.any fun t => decide (t < now)

def reaped (now : Nat) (seen : World) : List Nat :=
  seen.ids.filter fun i => (seen.jobs i).any (reapable now)

/-- The columns `updateJob` writes. -/
def assign (new old : Job) : Job :=
  { old with
    status := new.status
    leaseWorkerId := new.leaseWorkerId
    leaseExpiresAt := new.leaseExpiresAt
    leaseNonce := new.leaseNonce
    currentSubmissionId := new.currentSubmissionId
    finalVerdict := new.finalVerdict
    finalReason := new.finalReason
    finalQualityScore := new.finalQualityScore
    doneAt := new.doneAt }

@[reducible] def Val : JobStmt → Type
  | .lease _ _ _ _ _ => Option Job
  | .release _ _ _ => Option Job
  | .reap _ => List Nat
  | .update _ _ => Unit
  | .insert _ _ => Bool

def result : (s : JobStmt) → World → s.Val
  | .lease j i e n t, seen => ((seen.jobs j).filter (leasable t)).map (lease' i e n)
  | .release j i n, seen => ((seen.jobs j).filter (releasable i n)).map (unlease .opened)
  | .reap t, seen => reaped t seen
  | .update _ _, _ => ()
  | .insert j _, seen => (seen.jobs j).isNone

def locks : JobStmt → World → List Lock
  | .lease j _ _ _ _, _ => [.job j]
  | .release j _ _, _ => [.job j]
  | .reap t, seen => (reaped t seen).map .job
  | .update j _, _ => [.job j]
  | .insert j _, _ => [.job j]

def write : JobStmt → World → (Nat → Option Job) → Nat → Option Job
  | .lease j i e n t, seen, tbl =>
      if (seen.jobs j).any (leasable t) then modify tbl j (lease' i e n) else tbl
  | .release j i n, seen, tbl =>
      if (seen.jobs j).any (releasable i n) then modify tbl j (unlease .opened) else tbl
  | .reap t, seen, tbl => modifyAll tbl (reaped t seen) (unlease .expired)
  | .update j new, _, tbl => modify tbl j (assign new)
  | .insert j row, seen, tbl =>
      if (seen.jobs j).isNone then Function.update tbl j (some row) else tbl

end JobStmt

/-- Statements on `submissions`. -/
inductive SubmissionStmt where
  | insert (id : Nat) (submission : Submission)
  /-- `updateSubmission`. -/
  | update (id : Nat) (submission : Submission)
  | setPayoutStatus (id : Nat) (status : SubmissionPayoutStatus)

namespace SubmissionStmt

/-- The columns `updateSubmission` writes. -/
def assign (new old : Submission) : Submission :=
  { old with
    status := new.status
    dedupeKey := new.dedupeKey
    finalVerdict := new.finalVerdict
    finalReason := new.finalReason
    finalQualityScore := new.finalQualityScore
    payoutStatus := new.payoutStatus }

@[reducible] def Val : SubmissionStmt → Type
  | .insert _ _ => Bool
  | .update _ _ => Unit
  | .setPayoutStatus _ _ => Unit

/-- Neither the id nor the idempotency key of job and worker is taken. -/
def free (id : Nat) (s : Submission) (seen : World) : Bool :=
  (seen.submissions id).isNone &&
    s.idempotencyKey.all fun k => (seen.submissionByKey s.jobId s.workerId k).isNone

def result : (s : SubmissionStmt) → World → s.Val
  | .insert i s, seen => free i s seen
  | .update _ _, _ => ()
  | .setPayoutStatus _ _, _ => ()

def locks : SubmissionStmt → List Lock
  | .insert i _ => [.submission i]
  | .update i _ => [.submission i]
  | .setPayoutStatus i _ => [.submission i]

def write : SubmissionStmt → World → (Nat → Option Submission) → Nat → Option Submission
  | .insert i s, seen, t => if free i s seen then Function.update t i (some s) else t
  | .update i s, _, t => modify t i (assign s)
  | .setPayoutStatus i st, _, t => modify t i fun s => { s with payoutStatus := some st }

end SubmissionStmt

/-- Statements on `verifications`. -/
inductive VerificationStmt where
  | insert (key : Nat × Nat) (verification : Verification)
  /-- `updateVerification`. -/
  | update (key : Nat × Nat) (verification : Verification)

namespace VerificationStmt

@[reducible] def Val : VerificationStmt → Type
  | .insert _ _ => Bool
  | .update _ _ => Unit

def result : (s : VerificationStmt) → World → s.Val
  | .insert k _, seen => (seen.verifications k).isNone
  | .update _ _, _ => ()

def locks : VerificationStmt → List Lock
  | .insert k _ => [.verification k]
  | .update k _ => [.verification k]

def write : VerificationStmt → World → (Nat × Nat → Option Verification) →
    Nat × Nat → Option Verification
  | .insert k v, seen, t => if (seen.verifications k).isNone then Function.update t k (some v) else t
  | .update k v, _, t => modify t k fun old => { v with id := old.id }

def writeKeys : VerificationStmt → World → List (Nat × Nat) → List (Nat × Nat)
  | .insert k _, seen, ks => if (seen.verifications k).isNone then ks ++ [k] else ks
  | .update _ _, _, ks => ks

end VerificationStmt

/-- Statements on `payouts`. -/
inductive PayoutStmt where
  /-- `SELECT ... FOR UPDATE`. -/
  | lock (id : Nat)
  /-- The upsert of `addPayout`: `id` is used when the submission has no payout. -/
  | upsert (id : Nat) (payout : Payout)
  | setFees (id : Nat) (fees : Fees)
  /-- `markPayoutStatus`. -/
  | setStatus (id : Nat) (status : PayoutStatus) (provider : Option (Option Provider))
      (providerRef : Option (Option Nat))
  | block (id : Nat)
  | unblock (id : Nat)
  | refund (id : Nat)
  /-- `blocked_reason := worker_payout_address_missing WHERE status = 'pending'`. -/
  | blockMissingAddress (id : Nat)
  /-- The unblocking `UPDATE` of the payout-address route. -/
  | unblockWorker (workerId : Nat)
  /-- The payout columns written after a broadcast. -/
  | setBroadcast (id : Nat) (provider : Provider) (txHash : Nat) (fees : Fees)

namespace PayoutStmt

def setStatus' (st : PayoutStatus) (pr : Option (Option Provider)) (ref : Option (Option Nat))
    (p : Payout) : Payout :=
  { p with status := st, provider := pr.getD p.provider, providerRef := ref.getD p.providerRef }

/-- The `WHERE` of the unblocking `UPDATE`. -/
def waitsFor (workerId : Nat) (p : Payout) : Bool :=
  decide (p.workerId = workerId ∧ p.status = .pending ∧
    p.blockedReason = some .workerPayoutAddressMissing)

def waiting (workerId : Nat) (seen : World) : List Nat :=
  seen.ids.filter fun i => (seen.payouts i).any (waitsFor workerId)

/-- The payout an upsert writes: the submission's, or a new one. -/
def target (id : Nat) (p : Payout) (seen : World) : Nat :=
  (seen.payoutOf p.submissionId).getD id

/-- A new payout whose id is taken. -/
def clash (id : Nat) (p : Payout) (seen : World) : Bool :=
  (seen.payoutOf p.submissionId).isNone && (seen.payouts id).isSome

@[reducible] def Val : PayoutStmt → Type
  | .lock _ => Option Payout
  | .upsert _ _ => Option (Nat × Payout)
  | .setFees _ _ => Unit
  | .setStatus _ _ _ _ => Option Payout
  | .block _ => Unit
  | .unblock _ => Unit
  | .refund _ => Unit
  | .blockMissingAddress _ => Unit
  | .unblockWorker _ => List (Nat × Option Nat)
  | .setBroadcast _ _ _ _ => Unit

/-- The row an upsert leaves behind: on conflict fees and hold window are
recomputed. -/
def upserted (p : Payout) (old : Option Payout) : Payout :=
  match old with
  | some o => { o with fees := p.fees, holdUntil := p.holdUntil }
  | none => p

def result : (s : PayoutStmt) → World → s.Val
  | .lock i, seen => seen.payouts i
  | .upsert i p, seen =>
      if clash i p seen then none
      else some (target i p seen, upserted p (seen.payouts (target i p seen)))
  | .setFees _ _, _ => ()
  | .setStatus i st pr ref, seen => (seen.payouts i).map (setStatus' st pr ref)
  | .block _, _ => ()
  | .unblock _, _ => ()
  | .refund _, _ => ()
  | .blockMissingAddress _, _ => ()
  | .unblockWorker i, seen =>
      (waiting i seen).filterMap fun p => (seen.payouts p).map fun r => (p, r.holdUntil)
  | .setBroadcast _ _ _ _, _ => ()

def locks : PayoutStmt → World → List Lock
  | .lock i, _ => [.payout i]
  | .upsert i p, seen => [.payoutOf p.submissionId, .payout (target i p seen)]
  | .setFees i _, _ => [.payout i]
  | .setStatus i _ _ _, _ => [.payout i]
  | .block i, _ => [.payout i]
  | .unblock i, _ => [.payout i]
  | .refund i, _ => [.payout i]
  | .blockMissingAddress i, _ => [.payout i]
  | .unblockWorker i, seen => (waiting i seen).map .payout
  | .setBroadcast i _ _ _, _ => [.payout i]

def write : PayoutStmt → World → (Nat → Option Payout) → Nat → Option Payout
  | .lock _, _, t => t
  | .upsert i p, seen, t =>
      if clash i p seen then t
      else Function.update t (target i p seen) (some (upserted p (t (target i p seen))))
  | .setFees i f, _, t => modify t i fun p => { p with fees := f }
  | .setStatus i st pr ref, _, t => modify t i (setStatus' st pr ref)
  | .block i, _, t => modify t i fun p => { p with blockedReason := some .disputeOpen }
  | .unblock i, _, t => modify t i fun p => { p with blockedReason := none }
  | .refund i, _, t =>
      modify t i fun p => { p with status := .refunded, blockedReason := some .disputeRefund }
  | .blockMissingAddress i, _, t =>
      modify t i fun p =>
        if p.status = .pending then { p with blockedReason := some .workerPayoutAddressMissing }
        else p
  | .unblockWorker i, seen, t =>
      modifyAll t (waiting i seen) fun p => { p with blockedReason := none }
  | .setBroadcast i pr h f, _, t =>
      modify t i fun p =>
        { p with provider := some pr, providerRef := some h, payoutChainIsBase := true, fees := f }

def writeIndex : PayoutStmt → World → (Nat → Option Nat) → Nat → Option Nat
  | .upsert i p, seen, t =>
      if clash i p seen then t else Function.update t p.submissionId (some (target i p seen))
  | _, _, t => t

end PayoutStmt

/-- Statements on `payout_transfers`. -/
inductive TransferStmt where
  /-- Insert, or on conflict mark broadcast with the new hash and nonce. -/
  | upsert (key : Nat × TransferKind) (transfer : Transfer)
  /-- `UPDATE ... WHERE payout_id`. -/
  | setAll (payoutId : Nat) (status : TransferStatus)

namespace TransferStmt

def upserted (new : Transfer) : Option Transfer → Transfer
  | none => new
  | some old => { old with txHash := new.txHash, txNonce := new.txNonce, status := .broadcast }

def kinds : List TransferKind := [.net, .platformFee, .proofworkFee]

def locks : TransferStmt → List Lock
  | .upsert k _ => [.transfer k]
  | .setAll p _ => kinds.map fun k => .transfer (p, k)

def write : TransferStmt → (Nat × TransferKind → Option Transfer) →
    Nat × TransferKind → Option Transfer
  | .upsert k x, t => Function.update t k (some (upserted x (t k)))
  | .setAll p st, t => fun k => if k.1 = p then (t k).map fun x => { x with status := st } else t k

end TransferStmt

/-- Statements on `crypto_nonces` (one signer on one chain). -/
inductive NonceStmt where
  /-- `SELECT ... FOR UPDATE`. -/
  | lock
  | insert (next : Nat)
  | update (next : Nat)

namespace NonceStmt

@[reducible] def Val : NonceStmt → Type
  | .lock => Option Nat
  | .insert _ => Bool
  | .update _ => Unit

def result : (s : NonceStmt) → World → s.Val
  | .lock, seen => seen.cryptoNonce
  | .insert _, seen => seen.cryptoNonce.isNone
  | .update _, _ => ()

/-- An absent row cannot be locked. -/
def locks : NonceStmt → World → List Lock
  | .lock, seen => if seen.cryptoNonce.isSome then [.cryptoNonce] else []
  | .insert _, _ => [.cryptoNonce]
  | .update _, _ => [.cryptoNonce]

def write : NonceStmt → World → Option Nat → Option Nat
  | .lock, _, t => t
  | .insert n, seen, t => if seen.cryptoNonce.isNone then some n else t
  | .update n, _, t => t.map fun _ => n

end NonceStmt

/-- Statements on `disputes`. -/
inductive DisputeStmt where
  /-- `SELECT ... FOR UPDATE`. -/
  | lock (id : Nat)
  | insert (id : Nat) (dispute : Dispute)
  | close (id : Nat) (status : DisputeStatus) (resolution : Resolution) (now : Nat)

namespace DisputeStmt

def closed (st : DisputeStatus) (r : Resolution) (now : Nat) (d : Dispute) : Dispute :=
  { d with status := st, resolution := some r, resolvedAt := some now }

@[reducible] def Val : DisputeStmt → Type
  | .lock _ => Option Dispute
  | .insert _ _ => Bool
  | .close _ _ _ _ => Option Dispute

def result : (s : DisputeStmt) → World → s.Val
  | .lock i, seen => seen.disputes i
  | .insert i _, seen => (seen.disputes i).isNone
  | .close i st r t, seen => (seen.disputes i).map (closed st r t)

def locks : DisputeStmt → List Lock
  | .lock i => [.dispute i]
  | .insert i _ => [.dispute i]
  | .close i _ _ _ => [.dispute i]

def write : DisputeStmt → World → (Nat → Option Dispute) → Nat → Option Dispute
  | .lock _, _, t => t
  | .insert i d, seen, t => if (seen.disputes i).isNone then Function.update t i (some d) else t
  | .close i st r now, _, t => modify t i (closed st r now)

end DisputeStmt

/-- A new outbox event. -/
def OutboxEvent.fresh (availableAt createdAt : Nat) : OutboxEvent where
  status := .pending
  attempts := 0
  availableAt := availableAt
  lockedAt := none
  lockedBy := none
  lastError := none
  createdAt := createdAt
  sentAt := none

/-- Statements on `outbox_events`. -/
inductive OutboxStmt where
  /-- `INSERT` without a conflict clause. -/
  | insert (key : OutboxKey) (availableAt createdAt : Nat)
  /-- `INSERT ... ON CONFLICT DO NOTHING`. -/
  | insertOrIgnore (key : OutboxKey) (availableAt createdAt : Nat)
  /-- `INSERT ... ON CONFLICT DO UPDATE`: the event is pending again. -/
  | upsert (key : OutboxKey) (availableAt createdAt : Nat)
  /-- Mark sent so that the event does not fire. -/
  | stop (key : OutboxKey) (now : Nat)
  /-- Make an existing event pending again. -/
  | reopen (key : OutboxKey) (availableAt : Nat) (resetAttempts clearSentAt : Bool)
  /-- First statement of `claimOutboxBatch`: release stale locks. -/
  | releaseStale (now : Nat) (lockTimeoutMs : Nat)
  /-- Second statement: `FOR UPDATE SKIP LOCKED`. -/
  | select (topics : List Topic) (limit now : Nat)
  /-- Third statement: take the batch. -/
  | take (keys : List OutboxKey) (workerId now : Nat)
  | markSent (key : OutboxKey)
  | reschedule (key : OutboxKey) (error : Err) (delayMs : Nat)
  | markDead (key : OutboxKey) (error : Err)

namespace OutboxStmt

/-- A lock older than the timeout. -/
def isStale (now timeout : Nat) (e : OutboxEvent) : Bool :=
  decide (e.status = .processing) && e.lockedAt.any fun t => decide (t + timeout < now)

def stale (now timeout : Nat) (seen : World) : List OutboxKey :=
  seen.outboxKeys.filter fun k => (seen.outbox k).any (isStale now timeout)

def isDue (topics : List Topic) (now : Nat) (k : OutboxKey) (e : OutboxEvent) : Bool :=
  decide (e.status = .pending ∧ e.availableAt ≤ now ∧ k.topic ∈ topics)

/-- Earlier created events first. -/
def createdBefore (seen : World) (k k' : OutboxKey) : Bool :=
  match seen.outbox k, seen.outbox k' with
  | some e, some e' => decide (e.createdAt ≤ e'.createdAt)
  | _, _ => true

/-- Stable insertion of an event into events sorted by creation time. -/
def place (seen : World) (k : OutboxKey) : List OutboxKey → List OutboxKey
  | [] => [k]
  | k' :: ks => if createdBefore seen k k' then k :: k' :: ks else k' :: place seen k ks

def sorted (seen : World) : List OutboxKey → List OutboxKey
  | [] => []
  | k :: ks => place seen k (sorted seen ks)

/-- The batch: due events that nobody has locked, oldest first. -/
def due (topics : List Topic) (limit now : Nat) (busy : Lock → Bool) (seen : World) :
    List OutboxKey :=
  (sorted seen (seen.outboxKeys.filter fun k =>
    (seen.outbox k).any (isDue topics now k) && !busy (.outbox k))).take limit

theorem place_perm (seen : World) (k : OutboxKey) (ks : List OutboxKey) :
    (place seen k ks).Perm (k :: ks) := by
  induction ks with
  | nil => exact .refl _
  | cons x ks ih =>
      simp only [place]
      split_ifs
      · exact .refl _
      · exact (ih.cons x).trans (.swap k x ks)

theorem sorted_perm (seen : World) (ks : List OutboxKey) : (sorted seen ks).Perm ks := by
  induction ks with
  | nil => exact .refl _
  | cons x ks ih => exact (place_perm seen x _).trans (ih.cons x)

/-- Events of the batch are due. -/
theorem mem_due {topics : List Topic} {limit now : Nat} {busy : Lock → Bool} {seen : World}
    {k : OutboxKey} (h : k ∈ due topics limit now busy seen) :
    (seen.outbox k).any (isDue topics now k) = true := by
  have hmem := (List.mem_filter.mp ((sorted_perm _ _).mem_iff.mp (List.mem_of_mem_take h))).2
  simp only [Bool.and_eq_true] at hmem
  exact hmem.1

/-- No event is in a batch twice. -/
theorem due_nodup {topics : List Topic} {limit now : Nat} {busy : Lock → Bool} {seen : World}
    (h : seen.outboxKeys.Nodup) : (due topics limit now busy seen).Nodup :=
  (((sorted_perm _ _).nodup_iff.mpr (h.filter _)).sublist (List.take_sublist _ _))

@[reducible] def Val : OutboxStmt → Type
  | .insert _ _ _ => Bool
  | .insertOrIgnore _ _ _ => Unit
  | .upsert _ _ _ => Unit
  | .stop _ _ => Unit
  | .reopen _ _ _ _ => Unit
  | .releaseStale _ _ => Unit
  | .select _ _ _ => List (OutboxKey × Nat)
  | .take _ _ _ => Unit
  | .markSent _ => Unit
  | .reschedule _ _ _ => Unit
  | .markDead _ _ => Unit

def result : (s : OutboxStmt) → (Lock → Bool) → World → s.Val
  | .insert k _ _, _, seen => (seen.outbox k).isNone
  | .insertOrIgnore _ _ _, _, _ => ()
  | .upsert _ _ _, _, _ => ()
  | .stop _ _, _, _ => ()
  | .reopen _ _ _ _, _, _ => ()
  | .releaseStale _ _, _, _ => ()
  | .select ts n t, busy, seen =>
      (due ts n t busy seen).filterMap fun k => (seen.outbox k).map fun e => (k, e.attempts)
  | .take _ _ _, _, _ => ()
  | .markSent _, _, _ => ()
  | .reschedule _ _ _, _, _ => ()
  | .markDead _ _, _, _ => ()

/-- The rows selected are those of the batch. -/
theorem select_keys (topics : List Topic) (limit now : Nat) (busy : Lock → Bool) (seen : World) :
    (result (.select topics limit now) busy seen).map Prod.fst = due topics limit now busy seen := by
  have hall : ∀ ks : List OutboxKey, (∀ k ∈ ks, (seen.outbox k).isSome) →
      (ks.filterMap fun k => (seen.outbox k).map fun e => (k, e.attempts)).map Prod.fst = ks := by
    intro ks hks
    induction ks with
    | nil => rfl
    | cons k ks ih =>
        obtain ⟨e, he⟩ := Option.isSome_iff_exists.mp (hks k (by simp))
        have hrest := ih fun k' hk' => hks k' (by simp [hk'])
        simp [he, hrest]
  refine hall _ fun k hk => ?_
  obtain ⟨e, he, -⟩ := (Option.any_eq_true _ _).mp (mem_due hk)
  simp [he]

def locks : OutboxStmt → (Lock → Bool) → World → List Lock
  | .insert k _ _, _, _ => [.outbox k]
  | .insertOrIgnore k _ _, _, _ => [.outbox k]
  | .upsert k _ _, _, _ => [.outbox k]
  | .stop k _, _, _ => [.outbox k]
  | .reopen k _ _ _, _, _ => [.outbox k]
  | .releaseStale t d, _, seen => (stale t d seen).map .outbox
  | .select ts n t, busy, seen => (due ts n t busy seen).map .outbox
  | .take ks _ _, _, _ => ks.map .outbox
  | .markSent k, _, _ => [.outbox k]
  | .reschedule k _ _, _, _ => [.outbox k]
  | .markDead k _, _, _ => [.outbox k]

/-- What an `ON CONFLICT DO UPDATE` leaves behind. -/
def upserted (availableAt createdAt : Nat) : Option OutboxEvent → OutboxEvent
  | none => .fresh availableAt createdAt
  | some e =>
      { e with
        status := .pending, attempts := 0, availableAt := availableAt
        lockedAt := none, lockedBy := none, lastError := none, sentAt := none }

def stopped (now : Nat) (e : OutboxEvent) : OutboxEvent :=
  { e with status := .sent, sentAt := some now, lockedAt := none, lockedBy := none, lastError := none }

def reopened (availableAt : Nat) (resetAttempts clearSentAt : Bool) (e : OutboxEvent) :
    OutboxEvent :=
  { e with
    status := .pending, availableAt := availableAt
    attempts := if resetAttempts then 0 else e.attempts
    lockedAt := none, lockedBy := none, lastError := none
    sentAt := if clearSentAt then none else e.sentAt }

def taken (workerId now : Nat) (e : OutboxEvent) : OutboxEvent :=
  { e with
    status := .processing, lockedAt := some now, lockedBy := some workerId
    attempts := e.attempts + 1 }

def released (e : OutboxEvent) : OutboxEvent :=
  { e with status := .pending, lockedAt := none, lockedBy := none }

def rescheduled (error : Err) (availableAt : Nat) (e : OutboxEvent) : OutboxEvent :=
  { e with
    status := .pending, lastError := some error, availableAt := availableAt
    lockedAt := none, lockedBy := none }

def dead (error : Err) (e : OutboxEvent) : OutboxEvent :=
  { e with status := .deadletter, lastError := some error, lockedAt := none, lockedBy := none }

def sent (now : Nat) (e : OutboxEvent) : OutboxEvent :=
  { e with status := .sent, sentAt := some now, lockedAt := none, lockedBy := none }

def write : OutboxStmt → (Lock → Bool) → World → (OutboxKey → Option OutboxEvent) →
    OutboxKey → Option OutboxEvent
  | .insert k a c, _, seen, t =>
      if (seen.outbox k).isNone then Function.update t k (some (.fresh a c)) else t
  | .insertOrIgnore k a c, _, seen, t =>
      if (seen.outbox k).isNone then Function.update t k (some (.fresh a c)) else t
  | .upsert k a c, _, _, t => Function.update t k (some (upserted a c (t k)))
  | .stop k now, _, _, t => modify t k (stopped now)
  | .reopen k a reset clear, _, _, t => modify t k (reopened a reset clear)
  | .releaseStale now d, _, seen, t => modifyAll t (stale now d seen) released
  | .select _ _ _, _, _, t => t
  | .take ks i now, _, _, t => modifyAll t ks (taken i now)
  | .markSent k, _, seen, t => modify t k (sent seen.now)
  | .reschedule k err d, _, seen, t => modify t k (rescheduled err (seen.now + d))
  | .markDead k err, _, _, t => modify t k (dead err)

def writeKeys : OutboxStmt → World → List OutboxKey → List OutboxKey
  | .insert k _ _, seen, ks => if (seen.outbox k).isNone then ks ++ [k] else ks
  | .insertOrIgnore k _ _, seen, ks => if (seen.outbox k).isNone then ks ++ [k] else ks
  | .upsert k _ _, seen, ks => if (seen.outbox k).isNone then ks ++ [k] else ks
  | _, _, ks => ks

end OutboxStmt

/-- Statements on `billing_accounts`. -/
inductive AccountStmt where
  /-- `INSERT ... ON CONFLICT DO NOTHING RETURNING`. -/
  | insertOrIgnore (orgId : Nat)
  /-- `balance_cents + amount`. -/
  | credit (orgId : Nat) (amountCents : Nat)
  /-- `balance_cents - amount WHERE balance_cents >= amount`. -/
  | debit (orgId : Nat) (amountCents : Nat)

namespace AccountStmt

@[reducible] def Val : AccountStmt → Type
  | .insertOrIgnore _ => Option Account
  | .credit _ _ => Unit
  | .debit _ _ => Bool

/-- The account can pay. -/
def covers (amount : Nat) (a : Account) : Bool := decide ((amount : Int) ≤ a.balanceCents)

def result : (s : AccountStmt) → World → s.Val
  | .insertOrIgnore o, seen => if (seen.accounts o).isNone then some ⟨0⟩ else none
  | .credit _ _, _ => ()
  | .debit o n, seen => (seen.accounts o).any (covers n)

def locks : AccountStmt → List Lock
  | .insertOrIgnore o => [.account o]
  | .credit o _ => [.account o]
  | .debit o _ => [.account o]

def write : AccountStmt → World → (Nat → Option Account) → Nat → Option Account
  | .insertOrIgnore o, seen, t =>
      if (seen.accounts o).isNone then Function.update t o (some ⟨0⟩) else t
  | .credit o n, _, t => modify t o fun a => ⟨a.balanceCents + n⟩
  | .debit o n, seen, t =>
      if (seen.accounts o).any (covers n) then modify t o fun a => ⟨a.balanceCents - n⟩ else t

end AccountStmt

/-- Statements on `bounty_budget_reservations`. -/
inductive ReservationStmt where
  | insert (bountyId : Nat) (reservation : Reservation)
  | release (bountyId : Nat)

namespace ReservationStmt

@[reducible] def Val : ReservationStmt → Type
  | .insert _ _ => Bool
  | .release _ => Unit

def result : (s : ReservationStmt) → World → s.Val
  | .insert b _, seen => (seen.reservations b).isNone
  | .release _, _ => ()

def locks : ReservationStmt → List Lock
  | .insert b _ => [.reservation b]
  | .release b => [.reservation b]

def write : ReservationStmt → World → (Nat → Option Reservation) → Nat → Option Reservation
  | .insert b r, seen, t =>
      if (seen.reservations b).isNone then Function.update t b (some r) else t
  | .release b, _, t => modify t b fun r => { r with status := .released }

end ReservationStmt

/-- Statements on `stripe_webhook_events`. -/
inductive StripeStmt where
  | insert (id : Nat)
  | setStatus (id : Nat) (status : StripeEventStatus)

namespace StripeStmt

@[reducible] def Val : StripeStmt → Type
  | .insert _ => Bool
  | .setStatus _ _ => Unit

def result : (s : StripeStmt) → World → s.Val
  | .insert e, seen => (seen.stripeEvents e).isNone
  | .setStatus _ _, _ => ()

def locks : StripeStmt → List Lock
  | .insert e => [.stripeEvent e]
  | .setStatus e _ => [.stripeEvent e]

def write : StripeStmt → World → (Nat → Option StripeEventStatus) → Nat → Option StripeEventStatus
  | .insert e, seen, t =>
      if (seen.stripeEvents e).isNone then Function.update t e (some .received) else t
  | .setStatus e st, _, t => modify t e fun _ => st

end StripeStmt

/-- The answer of the payment provider as the code sees it. -/
inductive ProviderReply where
  | paid (providerRef : Nat)
  | failed (providerRef : Nat)
  | httpError | invalidResponse | noReply
  deriving DecidableEq

/-- Calls whose effect is outside the database. -/
inductive OutsideStmt where
  /-- `provider.createPayout`; the mock provider always pays. -/
  | createPayout (mock : Bool) (payoutId amountCents : Nat)
  /-- `eth_sendRawTransaction`: one transaction for all legs of a payout. -/
  | sendRawTransaction (payoutId : Nat) (call : SplitterCall) (nonce : Nat)

namespace OutsideStmt

@[reducible] def Val : OutsideStmt → Type
  | .createPayout _ _ _ => ProviderReply
  | .sendRawTransaction _ _ _ => Option Nat

/-- What the provider answers, whether or not the answer arrives. -/
def answer (mock : Bool) (w : World) : ProviderAnswer :=
  if mock then .paid else w.outside.nextProvider

/-- The chain takes a transaction whose nonce it has not seen. -/
def accepts (nonce : Nat) (w : World) : Bool :=
  w.outside.nextAccept && w.outside.chain.all fun tx => decide (tx.nonce ≠ nonce)

def result : (s : OutsideStmt) → World → s.Val
  | .createPayout mock _ _, w =>
      if !mock && w.outside.nextLost then .noReply
      else match answer mock w with
        | .paid => .paid w.outside.nextProviderRef
        | .failed => .failed w.outside.nextProviderRef
        | .httpError => .httpError
        | .invalidResponse => .invalidResponse
  | .sendRawTransaction _ _ n, w =>
      if accepts n w && !w.outside.nextLost then some w.nextId else none

/-- The world after the call. -/
def effect : OutsideStmt → World → World
  | .createPayout mock p _, w =>
      if answer mock w = .paid then
        { w with outside := { w.outside with paidCalls := p :: w.outside.paidCalls } }
      else w
  | .sendRawTransaction p call n, w =>
      if accepts n w then
        { w with
          nextId := w.nextId + 1
          outside := { w.outside with
            chain := ⟨w.nextId, n, p, call, false⟩ :: w.outside.chain } }
      else w

end OutsideStmt

/-- An organisation with another platform fee. -/
def Org.withPlatformFee (o : Org) (bps : Nat) (wallet : Option Nat) : Org :=
  { o with platformFeeBps := bps, platformFeeWalletAddress := wallet }

/-- An artifact of a submission, described as its artifact index describes it. -/
def Artifact.attached (submissionId : Nat) (info : ArtifactInfo) (a : Artifact) : Artifact :=
  { a with toArtifactInfo := info, submissionId := some submissionId }

/-- The statements of the modelled code. -/
inductive Stmt where
  | read (q : Query)
  | nanoid
  /-- `pg_advisory_xact_lock(hashtext(workerId), 0)`. -/
  | advisory (workerId : Nat)
  | bounty (s : BountyStmt)
  | job (s : JobStmt)
  | submission (s : SubmissionStmt)
  | verification (s : VerificationStmt)
  /-- The upsert of `recordReputation`. -/
  | reputation (workerId : Nat) (row : Reputation)
  /-- `registerAcceptedDedupe`. -/
  | acceptedDedupe (bountyId dedupeKey : Nat)
  /-- The `UPDATE` of `attachSubmissionArtifacts`. -/
  | attachArtifact (id submissionId : Nat) (info : ArtifactInfo)
  /-- `markSubmissionArtifactsAccepted`. -/
  | acceptArtifacts (submissionId : Nat)
  | payout (s : PayoutStmt)
  | transfer (s : TransferStmt)
  | nonce (s : NonceStmt)
  | dispute (s : DisputeStmt)
  | outbox (s : OutboxStmt)
  | account (s : AccountStmt)
  /-- `INSERT INTO billing_events`, whose account must exist. -/
  | billing (e : BillingEvent)
  | reservation (s : ReservationStmt)
  | stripe (s : StripeStmt)
  | paymentIntent (id : Nat)
  /-- Set a worker's verified payout address. -/
  | payoutAddress (workerId address now : Nat)
  /-- Set an organisation's platform fee. -/
  | platformFee (orgId bps : Nat) (wallet : Option Nat)
  | outside (s : OutsideStmt)

namespace Stmt

/-- The type of a statement's result. -/
@[reducible] def Val : Stmt → Type
  | .read q => q.Val
  | .nanoid => Nat
  | .advisory _ => Unit
  | .bounty _ => Option Bounty
  | .job s => s.Val
  | .submission s => s.Val
  | .verification s => s.Val
  | .reputation _ _ => Unit
  | .acceptedDedupe _ _ => Unit
  | .attachArtifact _ _ _ => Unit
  | .acceptArtifacts _ => Unit
  | .payout s => s.Val
  | .transfer _ => Unit
  | .nonce s => s.Val
  | .dispute s => s.Val
  | .outbox s => s.Val
  | .account s => s.Val
  | .billing _ => Bool
  | .reservation s => s.Val
  | .stripe s => s.Val
  | .paymentIntent _ => Unit
  | .payoutAddress _ _ _ => Unit
  | .platformFee _ _ _ => Option Org
  | .outside s => s.Val

/-- The artifacts attached to a submission. -/
def attached (submissionId : Nat) (seen : World) : List Nat :=
  seen.ids.filter fun i => (seen.artifacts i).any fun a => a.submissionId = some submissionId

/-- The event's account exists and a Stripe event is booked at most once. -/
def billable (e : BillingEvent) (seen : World) : Bool :=
  (seen.accounts e.account).isSome &&
    match e.kind with
    | .stripeTopup i => !seen.booked i
    | _ => true

def result : (s : Stmt) → (Lock → Bool) → World → s.Val
  | .read q, _, seen => q.eval seen
  | .nanoid, _, seen => seen.nextId
  | .advisory _, _, _ => ()
  | .bounty s, _, seen => s.result seen
  | .job s, _, seen => s.result seen
  | .submission s, _, seen => s.result seen
  | .verification s, _, seen => s.result seen
  | .reputation _ _, _, _ => ()
  | .acceptedDedupe _ _, _, _ => ()
  | .attachArtifact _ _ _, _, _ => ()
  | .acceptArtifacts _, _, _ => ()
  | .payout s, _, seen => s.result seen
  | .transfer _, _, _ => ()
  | .nonce s, _, seen => s.result seen
  | .dispute s, _, seen => s.result seen
  | .outbox s, busy, seen => s.result busy seen
  | .account s, _, seen => s.result seen
  | .billing e, _, seen => billable e seen
  | .reservation s, _, seen => s.result seen
  | .stripe s, _, seen => s.result seen
  | .paymentIntent _, _, _ => ()
  | .payoutAddress _ _ _, _, _ => ()
  | .platformFee o bps wallet, _, seen => (seen.orgs o).map fun r => r.withPlatformFee bps wallet
  | .outside s, _, seen => s.result seen

def locks : Stmt → (Lock → Bool) → World → List Lock
  | .read _, _, _ => []
  | .nanoid, _, _ => []
  | .advisory i, _, _ => [.advisory i]
  | .bounty s, _, _ => s.locks
  | .job s, _, seen => s.locks seen
  | .submission s, _, _ => s.locks
  | .verification s, _, _ => s.locks
  | .reputation i _, _, _ => [.reputation i]
  | .acceptedDedupe b k, _, _ => [.acceptedDedupe (b, k)]
  | .attachArtifact a _ _, _, _ => [.artifact a]
  | .acceptArtifacts s, _, seen => (attached s seen).map .artifact
  | .payout s, _, seen => s.locks seen
  | .transfer s, _, _ => s.locks
  | .nonce s, _, seen => s.locks seen
  | .dispute s, _, _ => s.locks
  | .outbox s, busy, seen => s.locks busy seen
  | .account s, _, _ => s.locks
  | .billing e, _, _ =>
      match e.kind with
      | .stripeTopup i => [.stripeTopup i]
      | _ => []
  | .reservation s, _, _ => s.locks
  | .stripe s, _, _ => s.locks
  | .paymentIntent i, _, _ => [.paymentIntent i]
  | .payoutAddress i _ _, _, _ => [.worker i]
  | .platformFee _ _ _, _, _ => []
  | .outside _, _, _ => []

/-- What the statement does to the rows it has locked. -/
def write : Stmt → (Lock → Bool) → World → World → World
  | .read _, _, _, w => w
  | .nanoid, _, _, w => w
  | .advisory _, _, _, w => w
  | .bounty s, _, _, w => { w with bounties := s.write w.bounties }
  | .job s, _, seen, w => { w with jobs := s.write seen w.jobs }
  | .submission s, _, seen, w => { w with submissions := s.write seen w.submissions }
  | .verification s, _, seen, w =>
      { w with
        verifications := s.write seen w.verifications
        verificationKeys := s.writeKeys seen w.verificationKeys }
  | .reputation i r, _, _, w => { w with reputation := Function.update w.reputation i (some r) }
  | .acceptedDedupe b k, _, _, w =>
      { w with acceptedDedupe := Function.update w.acceptedDedupe (b, k) true }
  | .attachArtifact a s info, _, _, w =>
      { w with artifacts := modify w.artifacts a (Artifact.attached s info) }
  | .acceptArtifacts s, _, seen, w =>
      { w with
        artifacts := modifyAll w.artifacts (attached s seen) fun r => { r with status := .accepted } }
  | .payout s, _, seen, w =>
      { w with payouts := s.write seen w.payouts, payoutOf := s.writeIndex seen w.payoutOf }
  | .transfer s, _, _, w => { w with transfers := s.write w.transfers }
  | .nonce s, _, seen, w => { w with cryptoNonce := s.write seen w.cryptoNonce }
  | .dispute s, _, seen, w => { w with disputes := s.write seen w.disputes }
  | .outbox s, busy, seen, w =>
      { w with
        outbox := s.write busy seen w.outbox
        outboxKeys := s.writeKeys seen w.outboxKeys }
  | .account s, _, seen, w => { w with accounts := s.write seen w.accounts }
  | .billing e, _, seen, w => { w with billing := if billable e seen then e :: w.billing else w.billing }
  | .reservation s, _, seen, w => { w with reservations := s.write seen w.reservations }
  | .stripe s, _, seen, w => { w with stripeEvents := s.write seen w.stripeEvents }
  | .paymentIntent i, _, _, w => { w with paymentIntents := Function.update w.paymentIntents i true }
  | .payoutAddress i a now, _, _, w =>
      { w with
        workers := modify w.workers i fun r =>
          { r with
            payoutAddress := some a, payoutChainIsBase := true
            payoutAddressVerifiedAt := some now } }
  | .platformFee o bps wallet, _, _, w =>
      { w with orgs := modify w.orgs o fun r => r.withPlatformFee bps wallet }
  | .outside _, _, _, w => w

/-- What the statement does outside the database, at once and for good. -/
def effect : Stmt → (Lock → Bool) → World → World → World
  | .nanoid, _, _, w => { w with nextId := w.nextId + 1 }
  | .outside s, _, _, w => s.effect w
  | _, _, _, w => w

end Stmt

end OpenUnion
