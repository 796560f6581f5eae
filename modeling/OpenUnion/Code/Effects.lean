import OpenUnion.Db.Growth
import OpenUnion.Code.Outbox
import OpenUnion.Code.Bounties
import OpenUnion.Code.Billing

/-!
# What the transactions do

For each transaction of the code, the relation between the committed state
before its commit and after it.  The relations say what was checked on rows that
were locked, so that it is still true at the commit; what was only read is not
mentioned, or is said of the earlier state in which it was read.

`hold k w₀ w` stands for whatever is protected by lock `k` from `w₀` to `w`.
`Tag.Effect` collects the relations by the label of the commit.
-/

namespace OpenUnion

open Interleave

section Leases

variable (hold : Lock → World → World → Prop)

/-- `leaseJob`, when it leases: the guarded update, after no active job was found
under the worker's advisory lock. -/
def Leased (jobId workerId : Nat) (w w' : World) : Prop :=
  ∃ e n t w₀, t ≤ w₀.now ∧ w₀.Grows w ∧ hold (.advisory workerId) w₀ w ∧
    Query.eval (.hasActiveLease workerId t) w₀ = false ∧
    (w.jobs jobId).any (JobStmt.leasable t) = true ∧
    w' = { w with jobs := modify w.jobs jobId (JobStmt.lease' workerId e n) }

end Leases

section Budgets

variable (hold : Lock → World → World → Prop)

/-- `ensureAccount`. -/
def Ensures (orgId : Nat) (t t' : Nat → Option Account) : Prop :=
  t' = t ∨ (t orgId = none ∧ t' = Function.update t orgId (some ⟨0⟩))

/-- The budget part of a publication: nothing when the bounty has a reservation or
needs none, and otherwise debit, event and reservation. -/
def Funds (bountyId : Nat) (bounty : Bounty) (w : World) (accounts accounts' : Nat → Option Account)
    (billing : List BillingEvent) (reservations : Nat → Option Reservation) : Prop :=
  ((w.reservations bountyId ≠ none ∨ bounty.reserveCents = 0) ∧
    accounts' = accounts ∧ billing = w.billing ∧ reservations = w.reservations) ∨
  ∃ t ≤ w.now, w.reservations bountyId = none ∧
    (accounts bounty.orgId).any (AccountStmt.covers bounty.reserveCents) = true ∧
    accounts' = modify accounts bounty.orgId (fun a => ⟨a.balanceCents - bounty.reserveCents⟩) ∧
    billing = ⟨bounty.orgId, .bountyBudgetReserve bountyId, -(bounty.reserveCents : Int), t⟩ ::
      w.billing ∧
    reservations = Function.update w.reservations bountyId
      (some ⟨bounty.orgId, bounty.reserveCents, .active⟩)

/-- The rows of new jobs of a bounty: the ids were free, and each job has its
fingerprint class. -/
structure NewJobs (bountyId sla now : Nat) (rows : List (Nat × Nat)) (w : World)
    (jobs : Nat → Option Job) : Prop where
  nodup : (rows.map Prod.fst).Nodup
  fresh : ∀ row ∈ rows, row.1 < w.nextId ∧ w.jobs row.1 = none ∧
    jobs row.1 = some (.fresh bountyId row.2 sla now)
  others : ∀ k, k ∉ rows.map Prod.fst → jobs k = w.jobs k

/-- One new job of the bounty for each of the fingerprint classes. -/
def AddsJobs (bountyId : Nat) (fps : List Nat) (w : World) (jobs : Nat → Option Job) : Prop :=
  ∃ rows sla now, rows.map Prod.snd = fps ∧ NewJobs bountyId sla now rows w jobs

theorem AddsJobs.kept {bountyId : Nat} {fps : List Nat} {w : World} {jobs : Nat → Option Job}
    (h : AddsJobs bountyId fps w jobs) {k : Nat} {r : Job} (hr : w.jobs k = some r) :
    jobs k = some r := by
  obtain ⟨rows, sla, now, -, hrows⟩ := h
  rw [hrows.others k, hr]
  intro hk
  obtain ⟨row, hrow, rfl⟩ := List.mem_map.mp hk
  exact absurd ((hrows.fresh row hrow).2.1.symm.trans hr) (by simp)

/-- What a job is that was not there. -/
theorem AddsJobs.new {bountyId : Nat} {fps : List Nat} {w : World} {jobs : Nat → Option Job}
    (h : AddsJobs bountyId fps w jobs) {k : Nat} {r : Job} (hnone : w.jobs k = none)
    (hr : jobs k = some r) : k < w.nextId ∧ ∃ fp sla now, r = .fresh bountyId fp sla now := by
  obtain ⟨rows, sla, now, -, hrows⟩ := h
  by_cases hk : k ∈ rows.map Prod.fst
  · obtain ⟨row, hrow, rfl⟩ := List.mem_map.mp hk
    obtain ⟨hlt, -, hnew⟩ := hrows.fresh row hrow
    exact ⟨hlt, row.2, sla, now, Option.some.inj (hr.symm.trans hnew)⟩
  · rw [hrows.others k hk, hnone] at hr
    exact absurd hr (by simp)

/-- The job part of a publication: nothing when the bounty has jobs or needs none, and
otherwise new jobs, after none were found under the bounty's lock. -/
def Populates (bountyId : Nat) (bounty : Bounty) (w : World) (jobs : Nat → Option Job) : Prop :=
  (((∃ k r, w.jobs k = some r ∧ r.bountyId = bountyId) ∨ bounty.fingerprintClasses = []) ∧
    jobs = w.jobs) ∨
  ∃ w₀, hold (.bounty bountyId) w₀ w ∧ Query.eval (.countJobs bountyId) w₀ = 0 ∧
    AddsJobs bountyId bounty.fingerprintClasses w jobs

/-- `publishBounty`. -/
def Published (bountyId : Nat) (w w' : World) : Prop :=
  ∃ bounty accounts accounts' billing reservations jobs t,
    w.bounties bountyId = some bounty ∧ Ensures bounty.orgId w.accounts accounts ∧
    Funds bountyId bounty w accounts accounts' billing reservations ∧
    Populates hold bountyId bounty w jobs ∧
    w' = { w with
      accounts := accounts', billing := billing, reservations := reservations, jobs := jobs
      bounties := modify w.bounties bountyId (BountyStmt.apply .published (some t)) }

/-- `setBountyStatus`, when nothing is released. -/
def StatusSet (bountyId : Nat) (status : BountyStatus) (w w' : World) : Prop :=
  w' = { w with bounties := modify w.bounties bountyId (BountyStmt.apply status none) }

/-- `setBountyStatus`, when it closes the bounty and releases its reservation,
having found `committed` cents of it used. -/
def Closed (bountyId committed : Nat) (w w' : World) : Prop :=
  ∃ res accounts billing w₀, w₀.Grows w ∧ hold (.bounty bountyId) w₀ w ∧
    w₀.reservations bountyId = some res ∧ res.status ≠ .released ∧
    ((res.amountCents ≤ committed ∧ accounts = w.accounts ∧ billing = w.billing) ∨
      ∃ t ≤ w.now, committed < res.amountCents ∧ (w.accounts res.account).isSome ∧
        accounts = modify w.accounts res.account
          (fun a => ⟨a.balanceCents + (res.amountCents - committed : Nat)⟩) ∧
        billing = ⟨res.account, .bountyBudgetRelease bountyId,
          (res.amountCents - committed : Nat), t⟩ :: w.billing) ∧
    w' = { w with
      accounts := accounts, billing := billing
      bounties := modify w.bounties bountyId (BountyStmt.apply .closed none)
      reservations := modify w.reservations bountyId fun r => { r with status := .released } }

end Budgets

section Disputes

/-- The event is pending, unlocked, and due no earlier than the end of the hold
window unless that is over. -/
structure Scheduled (holdUntil : Option Nat) (now : Nat) (e : OutboxEvent) : Prop where
  status : e.status = .pending
  lockedBy : e.lockedBy = none
  due : ∀ h, holdUntil = some h → h ≤ max e.availableAt now

/-- The event has just been inserted. -/
structure OutboxEvent.New (e : OutboxEvent) : Prop where
  status : e.status = .pending
  attempts : e.attempts = 0

/-- The event is there: as it was, or newly inserted. -/
def Present (e e' : Option OutboxEvent) : Prop :=
  (e' = e ∧ e ≠ none) ∨ (e = none ∧ ∃ r, e' = some r ∧ r.New)

/-- The `payout.requested` event of the payout is scheduled, the other events
are left alone. -/
structure Reschedules (payoutId : Nat) (w : World) (outbox : OutboxKey → Option OutboxEvent) :
    Prop where
  others : ∀ k, k ≠ .payout payoutId → outbox k = w.outbox k
  event : ∃ row e, w.payouts payoutId = some row ∧ outbox (.payout payoutId) = some e ∧
    Scheduled row.holdUntil w.now e ∧ (w.outbox (.payout payoutId) = none → e.attempts = 0)

/-- `createDispute`, for the organisation the payout belongs to. -/
def DisputeOpened (disputeId payoutId : Nat) (w w' : World) : Prop :=
  ∃ row outbox keys now, w.disputes disputeId = none ∧ row.payoutId = some payoutId ∧
    row.status = .opened ∧ w.payoutOwner payoutId = some row.orgId ∧
    (∀ k, k ≠ .payout payoutId → k ≠ .disputeAutoRefund disputeId → outbox k = w.outbox k) ∧
    outbox (.payout payoutId) = (w.outbox (.payout payoutId)).map (OutboxStmt.stopped now) ∧
    Present (w.outbox (.disputeAutoRefund disputeId)) (outbox (.disputeAutoRefund disputeId)) ∧
    w' = { w with
      disputes := Function.update w.disputes disputeId (some row)
      payouts := modify w.payouts payoutId fun p => { p with blockedReason := some .disputeOpen }
      outbox := outbox, outboxKeys := keys }

/-- An open dispute is closed in favour of the payout, which is unblocked. -/
def DisputeReleased (disputeId : Nat) (status : DisputeStatus) (resolution : Resolution)
    (w w' : World) : Prop :=
  ∃ row outbox keys now payouts, w.disputes disputeId = some row ∧ row.status = .opened ∧
    ((row.payoutId = none ∧ payouts = w.payouts ∧ outbox = w.outbox) ∨
      ∃ p, row.payoutId = some p ∧ Reschedules p w outbox ∧
        payouts = modify w.payouts p fun r => { r with blockedReason := none }) ∧
    w' = { w with
      disputes := modify w.disputes disputeId (DisputeStmt.closed status resolution now)
      payouts := payouts, outbox := outbox, outboxKeys := keys }

/-- The credit of a refund, and its event. -/
def Credits (orgId : Nat) (kind : BillingKind) (cents now : Nat)
    (accounts accounts' : Nat → Option Account) (billing billing' : List BillingEvent) : Prop :=
  (cents = 0 ∧ accounts' = accounts ∧ billing' = billing) ∨
  ∃ t ≤ now, 0 < cents ∧ (accounts orgId).isSome ∧
    accounts' = modify accounts orgId (fun a => ⟨a.balanceCents + cents⟩) ∧
    billing' = ⟨orgId, kind, cents, t⟩ :: billing

theorem Credits.mono {orgId : Nat} {kind : BillingKind} {cents now now' : Nat}
    {accounts accounts' : Nat → Option Account} {billing billing' : List BillingEvent}
    (h : Credits orgId kind cents now accounts accounts' billing billing') (hle : now ≤ now') :
    Credits orgId kind cents now' accounts accounts' billing billing' := by
  obtain hnothing | ⟨t, ht, hcredit⟩ := h
  · exact Or.inl hnothing
  · exact Or.inr ⟨t, Nat.le_trans ht hle, hcredit⟩

/-- An open dispute is closed by refunding its payout. -/
def DisputeRefunded (disputeId : Nat) (w w' : World) : Prop :=
  ∃ row p payout accounts accounts' billing submissions now, w.disputes disputeId = some row ∧
    row.status = .opened ∧ row.payoutId = some p ∧ w.payouts p = some payout ∧
    payout.status ≠ .paid ∧ payout.status ≠ .refunded ∧
    Ensures row.orgId w.accounts accounts ∧
    Credits row.orgId (.disputeRefund disputeId p) payout.refundCents w.now accounts accounts'
      w.billing billing ∧
    (submissions = w.submissions ∨ ∃ s, submissions =
      modify w.submissions s fun r => { r with payoutStatus := some .reversed }) ∧
    w' = { w with
      accounts := accounts', billing := billing, submissions := submissions
      payouts := modify w.payouts p fun r =>
        { r with status := .refunded, blockedReason := some .disputeRefund }
      outbox := modify w.outbox (.payout p) (OutboxStmt.stopped now)
      disputes := modify w.disputes disputeId (DisputeStmt.closed .resolved .refund now) }

/-- The payout of the open dispute is refunded already. -/
def AlreadyRefunded (disputeId : Nat) (w : World) : Prop :=
  ∃ row p payout, w.disputes disputeId = some row ∧ row.status = .opened ∧
    row.payoutId = some p ∧ w.payouts p = some payout ∧ payout.status = .refunded

/-- `resolveDisputeAdmin`. -/
def DisputeResolved (disputeId : Nat) (refund : Bool) (w w' : World) : Prop :=
  (w' = w ∧ AlreadyRefunded disputeId w) ∨
    (refund = true ∧ DisputeRefunded disputeId w w') ∨
    (refund = false ∧ DisputeReleased disputeId .resolved .uphold w w')

end Disputes

section Payouts

/-- The unblocking transaction of the payout-address route. -/
def Unblocked (workerId : Nat) (w w' : World) : Prop :=
  ∃ ps outbox keys,
    (∀ p ∈ ps, ∃ row e, w.payouts p = some row ∧ PayoutStmt.waitsFor workerId row = true ∧
      outbox (.payout p) = some e ∧ Scheduled row.holdUntil w.now e ∧ e.attempts = 0) ∧
    (∀ k, (∀ p ∈ ps, k ≠ .payout p) → outbox k = w.outbox k) ∧
    w' = { w with
      payouts := modifyAll w.payouts ps fun r => { r with blockedReason := none }
      outbox := outbox, outboxKeys := keys }

/-- `fees` is how the payout is split under fee settings the code accepts. -/
def SplitOf (cfg : Config) (payoutId : Nat) (fees : Fees) (w : World) : Prop :=
  ∃ row platformFeeBps platformFeeWallet, w.payouts payoutId = some row ∧
    (0 < platformFeeBps → platformFeeWallet ≠ none) ∧
    splitFees cfg row.amountCents platformFeeBps platformFeeWallet = .ok fees

/-- A missing event is inserted, due for delivery; an existing one is left alone. -/
structure Confirms (payoutId : Nat) (w : World) (outbox : OutboxKey → Option OutboxEvent)
    (keys : List OutboxKey) : Prop where
  others : ∀ k, k ≠ .payoutConfirm payoutId → outbox k = w.outbox k
  event : (outbox (.payoutConfirm payoutId) = w.outbox (.payoutConfirm payoutId) ∧
      w.outbox (.payoutConfirm payoutId) ≠ none ∧ keys = w.outboxKeys) ∨
    w.outbox (.payoutConfirm payoutId) = none ∧ keys = w.outboxKeys ++ [.payoutConfirm payoutId] ∧
      ∃ e, outbox (.payoutConfirm payoutId) = some e ∧ e.New

/-- The rows of the legs after a broadcast. -/
def sentLegs (t : Nat × TransferKind → Option Transfer) (payoutId : Nat) (legs : List TransferKind)
    (row : TransferKind → Transfer) : Nat × TransferKind → Option Transfer :=
  fun k => if k.1 = payoutId ∧ k.2 ∈ legs then some (TransferStmt.upserted (row k.2) (t k)) else t k

/-- The end of a broadcast the chain has accepted: payout, legs and confirmation
event. -/
def Broadcast (cfg : Config) (payoutId txHash : Nat) (w w' : World) : Prop :=
  ∃ fees address nonce outbox keys, SplitOf cfg payoutId fees w ∧ address ≠ none ∧
    cfg.proofworkFeeWallet ≠ none ∧
    (∃ tx ∈ w.outside.chain, tx.hash = txHash ∧ tx.nonce = nonce ∧ tx.payoutId = payoutId ∧
      tx.call = splitterCall cfg fees address) ∧
    Confirms payoutId w outbox keys ∧
    w' = { w with
      payouts := modify w.payouts payoutId fun p =>
        { p with
          provider := some cfg.paymentsProvider, providerRef := some txHash
          payoutChainIsBase := true, fees := fees }
      transfers := sentLegs w.transfers payoutId fees.legs (fees.transfer address txHash nonce)
      cryptoNonce := some (nonce + 1), outbox := outbox, outboxKeys := keys }

/-- What taking a batch does to one event, given the lock timeout. -/
def Taken (timeout workerId now : Nat) (e e' : Option OutboxEvent) : Prop :=
  e' = e ∨ ∃ r t, e = some r ∧ t ≤ now ∧
    ((OutboxStmt.isStale t timeout r = true ∧ e' = some (OutboxStmt.released r)) ∨
      (r.availableAt ≤ t ∧ (r.status = .pending ∨ OutboxStmt.isStale t timeout r = true) ∧
        e' = some (OutboxStmt.taken workerId t r)))

/-- `claimOutboxBatch`. -/
def Batched (timeout workerId : Nat) (w w' : World) : Prop :=
  ∃ outbox, (∀ k, Taken timeout workerId w.now (w.outbox k) (outbox k)) ∧
    w' = { w with outbox := outbox }

/-- The credit of a Stripe event and its booking, the first time it is processed. -/
def Books (stripeEventId : Nat) (status : StripeEventStatus) (w : World)
    (accounts : Nat → Option Account) (billing : List BillingEvent) : Prop :=
  (accounts = w.accounts ∧ billing = w.billing ∧
    (status = .processed → w.booked stripeEventId = true)) ∨
  ∃ orgId cents t : Nat, status = .processed ∧ w.booked stripeEventId = false ∧
    (w.accounts orgId).isSome ∧
    accounts = modify w.accounts orgId (fun a => ⟨a.balanceCents + cents⟩) ∧
    billing = ⟨orgId, .stripeTopup stripeEventId, cents, t⟩ :: w.billing

/-- The transaction of the Stripe webhook. -/
def Webhook (stripeEventId : Nat) (w w' : World) : Prop :=
  ∃ accounts billing intents status, Books stripeEventId status w accounts billing ∧
    w' = { w with
      accounts := accounts, billing := billing, paymentIntents := intents
      stripeEvents := modify w.stripeEvents stripeEventId fun _ => status }

end Payouts

/-- What the commit labelled by a tag does, for the process `pid` with the locks `L`. -/
def Tag.Effect (cfg : Config) (hold : Lock → World → World → Prop) (pid : Nat) :
    Tag → List Lock → World → World → Prop
  | .leaseJob j i, L, w, w' => w' = w ∨ (.advisory i ∈ L ∧ Leased hold j i w w')
  | .publishBounty b, L, w, w' => .bounty b ∈ L ∧ Published hold b w w'
  | .setBountyStatus b st, _, w, w' => StatusSet b st w w'
  | .closeBounty b c, L, w, w' => .bounty b ∈ L ∧ Closed hold b c w w'
  | .createDispute d p, _, w, w' => DisputeOpened d p w w'
  | .cancelDispute d, _, w, w' => DisputeReleased d .cancelled .cancelled w w'
  | .resolveDispute d refund, _, w, w' => DisputeResolved d refund w w'
  | .unblockPayouts i, _, w, w' => Unblocked i w w'
  | .claimOutboxBatch, _, w, w' => Batched cfg.outboxLockTimeoutMs pid w w'
  | .broadcast p h, _, w, w' => Broadcast cfg p h w w'
  | .stripeWebhook e, _, w, w' => Webhook e w w'

section Growth

variable {cfg : Config} {hold : Lock → World → World → Prop} {w w' : World}

theorem Ensures.persists {o : Nat} {t t' : Nat → Option Account} (h : Ensures o t t') :
    Persists (fun _ => ()) t t' := by
  obtain rfl | ⟨hfree, rfl⟩ := h
  · exact .refl
  · exact .insert hfree

theorem Credits.persists {o n now : Nat} {kind : BillingKind} {t t' : Nat → Option Account}
    {b b' : List BillingEvent} (h : Credits o kind n now t t' b b') :
    Persists (fun _ => ()) t t' ∧ b <:+ b' := by
  obtain ⟨-, rfl, rfl⟩ | ⟨-, -, -, -, rfl, rfl⟩ := h
  · exact ⟨.refl, List.suffix_refl _⟩
  · exact ⟨.modify fun _ => rfl, List.suffix_cons _ _⟩

theorem Books.persists {e : Nat} {st : StripeEventStatus} {t : Nat → Option Account}
    {b : List BillingEvent} (h : Books e st w t b) :
    Persists (fun _ => ()) w.accounts t ∧ w.billing <:+ b := by
  obtain ⟨rfl, rfl, -⟩ | ⟨o, n, t, -, -, -, rfl, rfl⟩ := h
  · exact ⟨.refl, List.suffix_refl _⟩
  · exact ⟨.modify fun _ => rfl, List.suffix_cons _ _⟩

theorem Published.grows {b : Nat} (h : Published hold b w w') : w.Grows w' := by
  obtain ⟨bounty, accounts, accounts', billing, reservations, jobs, t, -, hensure, hfunds, hjobs,
    rfl⟩ := h
  have haccounts : Persists (fun _ => ()) accounts accounts' := by
    obtain ⟨-, rfl, -⟩ | ⟨-, -, -, -, rfl, -⟩ := hfunds
    · exact .refl
    · exact .modify fun _ => rfl
  have hbilling : w.billing <:+ billing := by
    obtain ⟨-, -, rfl, -⟩ | ⟨-, -, -, -, -, rfl, -⟩ := hfunds
    · exact List.suffix_refl _
    · exact List.suffix_cons _ _
  have hreservations : Persists Reservation.terms w.reservations reservations := by
    obtain ⟨-, -, -, rfl⟩ | ⟨-, -, hfree, -, -, -, rfl⟩ := hfunds
    · exact .refl
    · exact .insert hfree
  have hnew : Persists Job.bountyId w.jobs jobs := by
    obtain ⟨-, rfl⟩ | ⟨w₀, -, -, hadds⟩ := hjobs
    · exact .refl
    · exact fun k r hr => ⟨r, hadds.kept hr, rfl⟩
  exact { World.Grows.refl w with
    accounts := hensure.persists.trans haccounts
    billing := hbilling
    reservations := hreservations
    jobs := hnew
    bounties := .modify fun _ => rfl }

theorem Closed.grows {b c : Nat} (h : Closed hold b c w w') : w.Grows w' := by
  obtain ⟨res, accounts, billing, w₀, -, -, -, -, hcredit, rfl⟩ := h
  have haccounts : Persists (fun _ => ()) w.accounts accounts ∧ w.billing <:+ billing := by
    obtain ⟨-, rfl, rfl⟩ | ⟨-, -, -, -, rfl, rfl⟩ := hcredit
    · exact ⟨.refl, List.suffix_refl _⟩
    · exact ⟨.modify fun _ => rfl, List.suffix_cons _ _⟩
  exact { World.Grows.refl w with
    accounts := haccounts.1
    billing := haccounts.2
    bounties := .modify fun _ => rfl
    reservations := .modify fun _ => rfl }

/-- Events are rewritten or added. -/
theorem outbox_persists {t t' : OutboxKey → Option OutboxEvent}
    (h : ∀ k, t' k = t k ∨ ∃ e, t' k = some e) : Persists (fun _ => ()) t t' := by
  intro k r hr
  obtain hk | ⟨e, he⟩ := h k
  · exact ⟨r, hk.trans hr, rfl⟩
  · exact ⟨e, he, rfl⟩

theorem Reschedules.persists {p : Nat} {outbox : OutboxKey → Option OutboxEvent}
    (h : Reschedules p w outbox) : Persists (fun _ => ()) w.outbox outbox := by
  refine outbox_persists fun k => ?_
  by_cases hk : k = .payout p
  · obtain ⟨row, e, -, he, -⟩ := h.event
    exact Or.inr ⟨e, hk ▸ he⟩
  · exact Or.inl (h.others k hk)

theorem Present.isSome {e e' : Option OutboxEvent} (h : Present e e') : ∃ r, e' = some r := by
  obtain ⟨rfl, hsome⟩ | ⟨-, r, hr, -⟩ := h
  · exact Option.ne_none_iff_exists'.mp hsome
  · exact ⟨r, hr⟩

theorem DisputeOpened.grows {d p : Nat} (h : DisputeOpened d p w w') : w.Grows w' := by
  obtain ⟨row, outbox, keys, now, hfree, -, -, -, hothers, hstop, hpresent, rfl⟩ := h
  obtain ⟨e, he⟩ := hpresent.isSome
  refine { World.Grows.refl w with
    disputes := .insert hfree, payouts := .modify fun _ => rfl, outbox := ?_ }
  intro k r hr
  by_cases hrefund : k = .disputeAutoRefund d
  · exact ⟨e, hrefund ▸ he, rfl⟩
  · by_cases hpayout : k = .payout p
    · subst hpayout
      exact ⟨OutboxStmt.stopped now r, by simp [hstop, hr], rfl⟩
    · exact ⟨r, (hothers k hpayout hrefund).trans hr, rfl⟩

theorem DisputeReleased.grows {d : Nat} {st : DisputeStatus} {r : Resolution}
    (h : DisputeReleased d st r w w') : w.Grows w' := by
  obtain ⟨row, outbox, keys, now, payouts, -, -, hpayout, rfl⟩ := h
  obtain ⟨-, rfl, rfl⟩ | ⟨p, -, hevent, rfl⟩ := hpayout
  · exact { World.Grows.refl w with disputes := .modify fun _ => rfl }
  · exact { World.Grows.refl w with
      disputes := .modify fun _ => rfl
      payouts := .modify fun _ => rfl
      outbox := hevent.persists }

theorem DisputeRefunded.grows {d : Nat} (h : DisputeRefunded d w w') : w.Grows w' := by
  obtain ⟨row, p, payout, accounts, accounts', billing, submissions, now, -, -, -, -, -, -,
    hensure, hcredit, hsub, rfl⟩ := h
  have hsubmissions : Persists Submission.origin w.submissions submissions := by
    obtain rfl | ⟨s, rfl⟩ := hsub
    · exact .refl
    · exact .modify fun _ => rfl
  exact { World.Grows.refl w with
    accounts := hensure.persists.trans hcredit.persists.1
    billing := hcredit.persists.2
    submissions := hsubmissions
    payouts := .modify fun _ => rfl
    outbox := .modify fun _ => rfl
    disputes := .modify fun _ => rfl }

theorem DisputeResolved.grows {d : Nat} {refund : Bool} (h : DisputeResolved d refund w w') :
    w.Grows w' := by
  obtain ⟨rfl, -⟩ | ⟨-, h⟩ | ⟨-, h⟩ := h
  · exact .refl _
  · exact h.grows
  · exact h.grows

theorem Unblocked.grows {i : Nat} (h : Unblocked i w w') : w.Grows w' := by
  obtain ⟨ps, outbox, keys, hps, hothers, rfl⟩ := h
  refine { World.Grows.refl w with
    payouts := .modifyAll fun _ => rfl, outbox := outbox_persists fun k => ?_ }
  by_cases hk : ∃ p ∈ ps, k = .payout p
  · obtain ⟨p, hp, rfl⟩ := hk
    obtain ⟨row, e, -, -, he, -⟩ := hps p hp
    exact Or.inr ⟨e, he⟩
  · push Not at hk
    exact Or.inl (hothers k hk)

theorem Taken.isSome {timeout pid now : Nat} {e e' : Option OutboxEvent}
    (h : Taken timeout pid now e e') : e' = e ∨ ∃ r, e' = some r := by
  obtain rfl | ⟨r, t, -, -, ⟨-, rfl⟩ | ⟨-, -, rfl⟩⟩ := h
  · exact Or.inl rfl
  · exact Or.inr ⟨_, rfl⟩
  · exact Or.inr ⟨_, rfl⟩

theorem Confirms.persists {p : Nat} {outbox : OutboxKey → Option OutboxEvent}
    {keys : List OutboxKey} (h : Confirms p w outbox keys) :
    Persists (fun _ => ()) w.outbox outbox := by
  refine outbox_persists fun k => ?_
  by_cases hk : k = .payoutConfirm p
  · subst hk
    obtain ⟨hsame, -⟩ | ⟨-, -, e, he, -⟩ := h.event
    · exact Or.inl hsame
    · exact Or.inr ⟨e, he⟩
  · exact Or.inl (h.others k hk)

theorem Broadcast.grows {p hash : Nat} (h : Broadcast cfg p hash w w') : w.Grows w' := by
  obtain ⟨fees, address, nonce, outbox, keys, -, -, -, -, hconfirms, rfl⟩ := h
  exact { World.Grows.refl w with
    payouts := .modify fun _ => rfl, outbox := hconfirms.persists }

/-- A split stays one: the amount of a payout is fixed. -/
theorem SplitOf.grows {p : Nat} {fees : Fees} (h : SplitOf cfg p fees w) (hgrow : w.Grows w') :
    SplitOf cfg p fees w' := by
  obtain ⟨row, bps, wallet, hrow, hwallet, hsplit⟩ := h
  obtain ⟨row', hrow', hterms⟩ := hgrow.payouts p row hrow
  have hamount : row'.amountCents = row.amountCents := congrArg (fun t => t.2.2) hterms
  exact ⟨row', bps, wallet, hrow', hwallet, hamount ▸ hsplit⟩

/-- No transaction deletes a row or changes what is fixed. -/
theorem Tag.Effect.grows {pid : Nat} {t : Tag} {L : List Lock}
    (h : t.Effect cfg hold pid L w w') : w.Grows w' := by
  cases t with
  | leaseJob j i =>
      obtain rfl | ⟨-, e, n, t, w₀, -, -, -, -, -, rfl⟩ := h
      · exact .refl _
      · exact { World.Grows.refl w with jobs := .modify fun _ => rfl }
  | publishBounty b => exact Published.grows h.2
  | setBountyStatus b st =>
      obtain rfl := h
      exact { World.Grows.refl w with bounties := .modify fun _ => rfl }
  | closeBounty b c => exact Closed.grows h.2
  | createDispute d p => exact DisputeOpened.grows h
  | cancelDispute d => exact DisputeReleased.grows h
  | resolveDispute d refund => exact DisputeResolved.grows h
  | unblockPayouts i => exact Unblocked.grows h
  | claimOutboxBatch =>
      obtain ⟨outbox, hevents, rfl⟩ := h
      exact { World.Grows.refl w with outbox := outbox_persists fun k => (hevents k).isSome }
  | broadcast p hash => exact Broadcast.grows h
  | stripeWebhook e =>
      obtain ⟨accounts, billing, intents, status, hbooks, rfl⟩ := h
      exact { World.Grows.refl w with
        accounts := hbooks.persists.1, billing := hbooks.persists.2 }

end Growth

end OpenUnion
