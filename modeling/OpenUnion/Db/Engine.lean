import OpenUnion.Db.Statement
import Mathlib.Tactic.Common

/-!
# The database as an engine

`engine` packages `Stmt` for the interleaving machine.  What it needs besides the
definitions is that a statement only changes rows it locks; that is proved here
table by table.
-/

namespace OpenUnion

open Interleave

section Frames

variable {busy : Lock → Bool} {seen : World}

theorem BountyStmt.write_of_notMem {s : BountyStmt} {t : Nat → Option Bounty} {i : Nat}
    (h : Lock.bounty i ∉ s.locks) : s.write t i = t i := by
  cases s
  exact modify_of_ne (by simpa [BountyStmt.locks] using h)

theorem JobStmt.write_of_notMem {s : JobStmt} {t : Nat → Option Job} {i : Nat}
    (h : Lock.job i ∉ s.locks seen) : s.write seen t i = t i := by
  cases s with
  | reap now =>
      exact modifyAll_of_notMem fun hmem => h (List.mem_map.mpr ⟨i, hmem, rfl⟩)
  | update j new => exact modify_of_ne (by simpa [JobStmt.locks] using h)
  | lease j w e n now =>
      have hne : i ≠ j := by simpa [JobStmt.locks] using h
      simp only [JobStmt.write]
      split <;> simp [modify_of_ne hne]
  | release j w n =>
      have hne : i ≠ j := by simpa [JobStmt.locks] using h
      simp only [JobStmt.write]
      split <;> simp [modify_of_ne hne]
  | insert j row =>
      have hne : i ≠ j := by simpa [JobStmt.locks] using h
      simp only [JobStmt.write]
      split <;> simp [hne]

theorem SubmissionStmt.write_of_notMem {s : SubmissionStmt} {t : Nat → Option Submission} {i : Nat}
    (h : Lock.submission i ∉ s.locks) : s.write seen t i = t i := by
  cases s with
  | insert j row =>
      have hne : i ≠ j := by simpa [SubmissionStmt.locks] using h
      simp only [SubmissionStmt.write]
      split <;> simp [hne]
  | update j new => exact modify_of_ne (by simpa [SubmissionStmt.locks] using h)
  | setPayoutStatus j st => exact modify_of_ne (by simpa [SubmissionStmt.locks] using h)

theorem VerificationStmt.write_of_notMem {s : VerificationStmt}
    {t : Nat × Nat → Option Verification} {k : Nat × Nat}
    (h : Lock.verification k ∉ s.locks) : s.write seen t k = t k := by
  cases s with
  | insert j row =>
      have hne : k ≠ j := by simpa [VerificationStmt.locks] using h
      simp only [VerificationStmt.write]
      split <;> simp [hne]
  | update j new => exact modify_of_ne (by simpa [VerificationStmt.locks] using h)

theorem PayoutStmt.write_of_notMem {s : PayoutStmt} {t : Nat → Option Payout} {i : Nat}
    (h : Lock.payout i ∉ s.locks seen) : s.write seen t i = t i := by
  cases s with
  | lock j => rfl
  | upsert j p =>
      have hne : i ≠ PayoutStmt.target j p seen := by simpa [PayoutStmt.locks] using h
      simp only [PayoutStmt.write]
      split <;> simp [hne]
  | unblockWorker w =>
      exact modifyAll_of_notMem fun hmem => h (List.mem_map.mpr ⟨i, hmem, rfl⟩)
  | setFees j f => exact modify_of_ne (by simpa [PayoutStmt.locks] using h)
  | setStatus j st pr ref => exact modify_of_ne (by simpa [PayoutStmt.locks] using h)
  | block j => exact modify_of_ne (by simpa [PayoutStmt.locks] using h)
  | unblock j => exact modify_of_ne (by simpa [PayoutStmt.locks] using h)
  | refund j => exact modify_of_ne (by simpa [PayoutStmt.locks] using h)
  | blockMissingAddress j => exact modify_of_ne (by simpa [PayoutStmt.locks] using h)
  | setBroadcast j pr hash f => exact modify_of_ne (by simpa [PayoutStmt.locks] using h)

theorem PayoutStmt.writeIndex_of_notMem {s : PayoutStmt} {t : Nat → Option Nat} {i : Nat}
    (h : Lock.payoutOf i ∉ s.locks seen) : s.writeIndex seen t i = t i := by
  cases s with
  | upsert j p =>
      have hne : i ≠ p.submissionId := by simpa [PayoutStmt.locks] using h
      simp only [PayoutStmt.writeIndex]
      split <;> simp [hne]
  | _ => rfl

theorem TransferStmt.write_of_notMem {s : TransferStmt}
    {t : Nat × TransferKind → Option Transfer} {k : Nat × TransferKind}
    (h : Lock.transfer k ∉ s.locks) : s.write t k = t k := by
  cases s with
  | upsert j x =>
      have hne : k ≠ j := by simpa [TransferStmt.locks] using h
      simp [TransferStmt.write, hne]
  | setAll p st =>
      have hne : k.1 ≠ p := by
        rintro rfl
        obtain ⟨p, kind⟩ := k
        cases kind <;> simp [TransferStmt.locks, TransferStmt.kinds] at h
      simp [TransferStmt.write, hne]

theorem NonceStmt.write_of_notMem {s : NonceStmt} {t : Option Nat}
    (h : Lock.cryptoNonce ∉ s.locks seen) : s.write seen t = t := by
  cases s with
  | lock => rfl
  | insert n => simp [NonceStmt.locks] at h
  | update n => simp [NonceStmt.locks] at h

theorem DisputeStmt.write_of_notMem {s : DisputeStmt} {t : Nat → Option Dispute} {i : Nat}
    (h : Lock.dispute i ∉ s.locks) : s.write seen t i = t i := by
  cases s with
  | lock j => rfl
  | insert j row =>
      have hne : i ≠ j := by simpa [DisputeStmt.locks] using h
      simp only [DisputeStmt.write]
      split <;> simp [hne]
  | close j st r now => exact modify_of_ne (by simpa [DisputeStmt.locks] using h)

theorem OutboxStmt.write_of_notMem {s : OutboxStmt} {t : OutboxKey → Option OutboxEvent}
    {k : OutboxKey} (h : Lock.outbox k ∉ s.locks busy seen) : s.write busy seen t k = t k := by
  cases s with
  | select ts n now => rfl
  | releaseStale now d =>
      exact modifyAll_of_notMem fun hmem => h (List.mem_map.mpr ⟨k, hmem, rfl⟩)
  | take ks i now =>
      exact modifyAll_of_notMem fun hmem => h (List.mem_map.mpr ⟨k, hmem, rfl⟩)
  | insert j a c =>
      have hne : k ≠ j := by simpa [OutboxStmt.locks] using h
      simp only [OutboxStmt.write]
      split <;> simp [hne]
  | insertOrIgnore j a c =>
      have hne : k ≠ j := by simpa [OutboxStmt.locks] using h
      simp only [OutboxStmt.write]
      split <;> simp [hne]
  | upsert j a c =>
      have hne : k ≠ j := by simpa [OutboxStmt.locks] using h
      simp [OutboxStmt.write, hne]
  | stop j now => exact modify_of_ne (by simpa [OutboxStmt.locks] using h)
  | reopen j a r c => exact modify_of_ne (by simpa [OutboxStmt.locks] using h)
  | markSent j => exact modify_of_ne (by simpa [OutboxStmt.locks] using h)
  | reschedule j e d => exact modify_of_ne (by simpa [OutboxStmt.locks] using h)
  | markDead j e => exact modify_of_ne (by simpa [OutboxStmt.locks] using h)

theorem AccountStmt.write_of_notMem {s : AccountStmt} {t : Nat → Option Account} {i : Nat}
    (h : Lock.account i ∉ s.locks) : s.write seen t i = t i := by
  cases s with
  | insertOrIgnore o =>
      have hne : i ≠ o := by simpa [AccountStmt.locks] using h
      simp only [AccountStmt.write]
      split <;> simp [hne]
  | credit o n => exact modify_of_ne (by simpa [AccountStmt.locks] using h)
  | debit o n =>
      have hne : i ≠ o := by simpa [AccountStmt.locks] using h
      simp only [AccountStmt.write]
      split <;> simp [modify_of_ne hne]

theorem ReservationStmt.write_of_notMem {s : ReservationStmt} {t : Nat → Option Reservation}
    {i : Nat} (h : Lock.reservation i ∉ s.locks) : s.write seen t i = t i := by
  cases s with
  | insert b r =>
      have hne : i ≠ b := by simpa [ReservationStmt.locks] using h
      simp only [ReservationStmt.write]
      split <;> simp [hne]
  | release b => exact modify_of_ne (by simpa [ReservationStmt.locks] using h)

theorem StripeStmt.write_of_notMem {s : StripeStmt} {t : Nat → Option StripeEventStatus} {i : Nat}
    (h : Lock.stripeEvent i ∉ s.locks) : s.write seen t i = t i := by
  cases s with
  | insert e =>
      have hne : i ≠ e := by simpa [StripeStmt.locks] using h
      simp only [StripeStmt.write]
      split <;> simp [hne]
  | setStatus e st => exact modify_of_ne (by simpa [StripeStmt.locks] using h)

/-- An event of another kind books no Stripe event. -/
theorem World.booked_billing {e : BillingEvent} {i : Nat} {w : World}
    (h : Lock.stripeTopup i ∉ (Stmt.billing e).locks busy seen) :
    ({ w with billing := e :: w.billing } : World).booked i = w.booked i := by
  have hkind : e.kind ≠ .stripeTopup i := by
    intro hkind
    simp [Stmt.locks, hkind] at h
  simp [World.booked, hkind]

/-- A statement only changes rows it locks. -/
theorem Stmt.write_same (s : Stmt) (busy : Lock → Bool) (seen w : World) (k : Lock)
    (h : k ∉ s.locks busy seen) : World.same k w (s.write busy seen w) := by
  cases s with
  | read q => exact World.same_refl k w
  | nanoid => exact World.same_refl k w
  | advisory i => exact World.same_refl k w
  | outside s => exact World.same_refl k w
  | bounty s =>
      cases k <;> first | rfl | trivial | exact (BountyStmt.write_of_notMem h).symm
  | job s =>
      cases k <;> first | rfl | trivial | exact (JobStmt.write_of_notMem h).symm
  | submission s =>
      cases k <;> first | rfl | trivial | exact (SubmissionStmt.write_of_notMem h).symm
  | verification s =>
      cases k <;> first | rfl | trivial | exact (VerificationStmt.write_of_notMem h).symm
  | payout s =>
      cases k <;> first
        | rfl | trivial
        | exact (PayoutStmt.write_of_notMem h).symm
        | exact (PayoutStmt.writeIndex_of_notMem h).symm
  | transfer s =>
      cases k <;> first | rfl | trivial | exact (TransferStmt.write_of_notMem h).symm
  | nonce s =>
      cases k <;> first | rfl | trivial | exact (NonceStmt.write_of_notMem h).symm
  | dispute s =>
      cases k <;> first | rfl | trivial | exact (DisputeStmt.write_of_notMem h).symm
  | outbox s =>
      cases k <;> first | rfl | trivial | exact (OutboxStmt.write_of_notMem h).symm
  | account s =>
      cases k <;> first | rfl | trivial | exact (AccountStmt.write_of_notMem h).symm
  | billing e =>
      cases k <;> first | rfl | trivial | skip
      simp only [World.same, Stmt.write]
      split
      · exact (World.booked_billing h).symm
      · rfl
  | reservation s =>
      cases k <;> first | rfl | trivial | exact (ReservationStmt.write_of_notMem h).symm
  | stripe s =>
      cases k <;> first | rfl | trivial | exact (StripeStmt.write_of_notMem h).symm
  | reputation i r =>
      cases k <;> first | rfl | trivial | skip
      simp_all [World.same, Stmt.locks, Stmt.write]
  | acceptedDedupe b d =>
      cases k <;> first | rfl | trivial | skip
      simp_all [World.same, Stmt.locks, Stmt.write]
  | paymentIntent i =>
      cases k <;> first | rfl | trivial | skip
      simp_all [World.same, Stmt.locks, Stmt.write]
  | payoutAddress i a now =>
      cases k <;> first | rfl | trivial | skip
      exact (modify_of_ne (by simpa [Stmt.locks] using h)).symm
  | platformFee o bps wallet => cases k <;> first | rfl | trivial
  | attachArtifact a s info =>
      cases k <;> first | rfl | trivial | skip
      exact (modify_of_ne (by simpa [Stmt.locks] using h)).symm
  | acceptArtifacts s =>
      cases k <;> first | rfl | trivial | skip
      exact (modifyAll_of_notMem fun hmem => h (List.mem_map.mpr ⟨_, hmem, rfl⟩)).symm

/-- A call outside changes no table. -/
theorem OutsideStmt.effect_same (s : OutsideStmt) (w : World) (k : Lock) :
    World.same k w (s.effect w) := by
  cases s with
  | createPayout mock p n =>
      simp only [OutsideStmt.effect]
      split
      · cases k <;> first | rfl | trivial
      · exact World.same_refl k w
  | sendRawTransaction p ks n =>
      simp only [OutsideStmt.effect]
      split
      · cases k <;> first | rfl | trivial
      · exact World.same_refl k w

/-- What a statement does outside the database is no row. -/
theorem Stmt.effect_same (s : Stmt) (busy : Lock → Bool) (seen w : World) (k : Lock) :
    World.same k w (s.effect busy seen w) := by
  cases s with
  | nanoid => cases k <;> first | rfl | trivial
  | outside s => exact s.effect_same w k
  | _ => exact World.same_refl k w

end Frames

/-- The database handed to the interleaving machine. -/
def engine : Engine Stmt Stmt.Val World Lock where
  result := Stmt.result
  locks := Stmt.locks
  write := Stmt.write
  effect := Stmt.effect
  same := World.same
  same_refl := World.same_refl
  same_trans := World.same_trans
  write_same := Stmt.write_same
  effect_same := Stmt.effect_same

/-- What can happen outside: time passes, answers change, a transaction reverts. -/
inductive Outdoors where
  | tick (ms : Nat)
  | answers (next : Outside)
  | revert (txHash : Nat)

/-- The outside moves; what has been paid and sent cannot be taken back. -/
def Outdoors.apply : Outdoors → World → World
  | .tick ms, w => { w with now := w.now + ms }
  | .answers o, w =>
      { w with outside := { o with paidCalls := w.outside.paidCalls, chain := w.outside.chain } }
  | .revert h, w =>
      { w with outside := { w.outside with
          chain := w.outside.chain.map fun tx =>
            if tx.hash = h then { tx with reverted := true } else tx } }

theorem Outdoors.apply_same (e : Outdoors) (k : Lock) (w : World) :
    World.same k w (e.apply w) := by
  cases e <;> cases k <;> first | rfl | trivial

end OpenUnion
