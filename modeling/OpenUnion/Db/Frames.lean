import OpenUnion.Db.Engine

/-!
# Which table a statement writes

For each table what `Stmt.write` does to it, so that a proof about one table
looks at the statements on that table only.  `Stmt.apply` is a statement executed
outside a transaction.
-/

namespace OpenUnion

namespace Stmt

variable (s : Stmt) (busy : Lock → Bool) (seen w : World)

/-- A statement executed on the committed state, which it also reads. -/
def apply : World := s.write busy w (s.effect busy w w)

/-- What a statement does outside the database changes no table. -/
theorem effect_eq : s.effect busy seen w =
    { w with nextId := (s.effect busy seen w).nextId, outside := (s.effect busy seen w).outside } := by
  cases s with
  | outside s =>
      cases s with
      | createPayout mock p n =>
          simp only [effect, OutsideStmt.effect]
          split_ifs <;> rfl
      | sendRawTransaction p ks n =>
          simp only [effect, OutsideStmt.effect]
          split_ifs <;> rfl
  | _ => rfl

@[simp] theorem effect_now : (s.effect busy seen w).now = w.now := by rw [effect_eq]

@[simp] theorem effect_bounties : (s.effect busy seen w).bounties = w.bounties := by rw [effect_eq]

@[simp] theorem effect_jobs : (s.effect busy seen w).jobs = w.jobs := by rw [effect_eq]

@[simp] theorem effect_submissions :
    (s.effect busy seen w).submissions = w.submissions := by rw [effect_eq]

@[simp] theorem effect_acceptedDedupe :
    (s.effect busy seen w).acceptedDedupe = w.acceptedDedupe := by
  rw [effect_eq]

@[simp] theorem effect_verifications :
    (s.effect busy seen w).verifications = w.verifications := by
  rw [effect_eq]

@[simp] theorem effect_payouts : (s.effect busy seen w).payouts = w.payouts := by rw [effect_eq]

@[simp] theorem effect_payoutOf : (s.effect busy seen w).payoutOf = w.payoutOf := by rw [effect_eq]

@[simp] theorem effect_transfers : (s.effect busy seen w).transfers = w.transfers := by
  rw [effect_eq]

@[simp] theorem effect_disputes : (s.effect busy seen w).disputes = w.disputes := by rw [effect_eq]

@[simp] theorem effect_accounts : (s.effect busy seen w).accounts = w.accounts := by rw [effect_eq]

@[simp] theorem effect_reservations :
    (s.effect busy seen w).reservations = w.reservations := by
  rw [effect_eq]

@[simp] theorem effect_billing : (s.effect busy seen w).billing = w.billing := by rw [effect_eq]

@[simp] theorem effect_outbox : (s.effect busy seen w).outbox = w.outbox := by rw [effect_eq]

@[simp] theorem effect_outboxKeys : (s.effect busy seen w).outboxKeys = w.outboxKeys := by
  rw [effect_eq]

@[simp] theorem effect_stripeEvents : (s.effect busy seen w).stripeEvents = w.stripeEvents := by
  rw [effect_eq]

@[simp] theorem apply_now : (s.apply busy w).now = w.now := by
  rw [← effect_now s busy w w]
  cases s <;> rfl

/-- Only statements on `jobs` write that table. -/
theorem apply_jobs : (s.apply busy w).jobs =
    match s with
    | .job s => s.write w w.jobs
    | _ => w.jobs := by
  rw [← effect_jobs s busy w w]
  cases s <;> rfl

/-- Only statements on `bounties` write that table. -/
theorem apply_bounties : (s.apply busy w).bounties =
    match s with
    | .bounty s => s.write w.bounties
    | _ => w.bounties := by
  rw [← effect_bounties s busy w w]
  cases s <;> rfl

/-- Only statements on `submissions` write that table. -/
theorem apply_submissions : (s.apply busy w).submissions =
    match s with
    | .submission s => s.write w w.submissions
    | _ => w.submissions := by
  rw [← effect_submissions s busy w w]
  cases s <;> rfl

/-- Keys are registered one at a time, and stay. -/
theorem apply_acceptedDedupe : (s.apply busy w).acceptedDedupe =
    match s with
    | .acceptedDedupe b k => Function.update w.acceptedDedupe (b, k) true
    | _ => w.acceptedDedupe := by
  rw [← effect_acceptedDedupe s busy w w]
  cases s <;> rfl

/-- Only statements on `verifications` write that table. -/
theorem apply_verifications : (s.apply busy w).verifications =
    match s with
    | .verification s => s.write w w.verifications
    | _ => w.verifications := by
  rw [← effect_verifications s busy w w]
  cases s <;> rfl

/-- Only statements on `payouts` write that table. -/
theorem apply_payouts : (s.apply busy w).payouts =
    match s with
    | .payout s => s.write w w.payouts
    | _ => w.payouts := by
  rw [← effect_payouts s busy w w]
  cases s <;> rfl

/-- Only statements on `payouts` write its index. -/
theorem apply_payoutOf : (s.apply busy w).payoutOf =
    match s with
    | .payout s => s.writeIndex w w.payoutOf
    | _ => w.payoutOf := by
  rw [← effect_payoutOf s busy w w]
  cases s <;> rfl

/-- Only statements on `payout_transfers` write that table. -/
theorem apply_transfers : (s.apply busy w).transfers =
    match s with
    | .transfer s => s.write w.transfers
    | _ => w.transfers := by
  rw [← effect_transfers s busy w w]
  cases s <;> rfl

/-- Only statements on `disputes` write that table. -/
theorem apply_disputes : (s.apply busy w).disputes =
    match s with
    | .dispute s => s.write w w.disputes
    | _ => w.disputes := by
  rw [← effect_disputes s busy w w]
  cases s <;> rfl

/-- Only statements on `billing_accounts` write that table. -/
theorem apply_accounts : (s.apply busy w).accounts =
    match s with
    | .account s => s.write w w.accounts
    | _ => w.accounts := by
  rw [← effect_accounts s busy w w]
  cases s <;> rfl

/-- Only statements on `bounty_budget_reservations` write that table. -/
theorem apply_reservations : (s.apply busy w).reservations =
    match s with
    | .reservation s => s.write w w.reservations
    | _ => w.reservations := by
  rw [← effect_reservations s busy w w]
  cases s <;> rfl

/-- Only booking an event writes `billing_events`. -/
theorem apply_billing : (s.apply busy w).billing =
    match s with
    | .billing e => if billable e w then e :: w.billing else w.billing
    | _ => w.billing := by
  rw [← effect_billing s busy w w]
  cases s <;> rfl

/-- Only statements on `stripe_webhook_events` write that table. -/
theorem apply_stripeEvents : (s.apply busy w).stripeEvents =
    match s with
    | .stripe s => s.write w w.stripeEvents
    | _ => w.stripeEvents := by
  rw [← effect_stripeEvents s busy w w]
  cases s <;> rfl

/-- Only calls outside change the outside. -/
theorem apply_outside : (s.apply busy w).outside = (s.effect busy w w).outside := by
  cases s <;> rfl

/-- Only statements on `outbox_events` write that table. -/
theorem apply_outbox : (s.apply busy w).outbox =
    match s with
    | .outbox s => s.write busy w w.outbox
    | _ => w.outbox := by
  rw [← effect_outbox s busy w w]
  cases s <;> rfl

/-- Only statements on `outbox_events` add events. -/
theorem apply_outboxKeys : (s.apply busy w).outboxKeys =
    match s with
    | .outbox s => s.writeKeys w w.outboxKeys
    | _ => w.outboxKeys := by
  rw [← effect_outboxKeys s busy w w]
  cases s <;> rfl

end Stmt

end OpenUnion
