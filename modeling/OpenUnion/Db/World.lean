import OpenUnion.Db.Rows
import OpenUnion.Interleave.Machine

/-!
# The database and the world outside it

`World` is the committed database together with what the code can affect or ask
outside it: the payment provider, the chain behind the RPC endpoint, the
verifier gateway, the clock and the source of fresh identifiers.

A table is a partial function from its key to its rows.  `Lock` names what a
statement can lock; `World.same k` compares two states on the row of lock `k`,
and is the notion of "locked row" the interleaving machine is given.
-/

namespace OpenUnion

/-- The arguments of a call of the splitter contract's `payoutV2`; amounts are in
base units. -/
structure SplitterCall where
  token : Nat
  worker : Nat
  platform : Nat
  proofwork : Nat
  net : Nat
  platformFee : Nat
  proofworkFee : Nat
  deriving DecidableEq

/-- Where a leg of a call goes. -/
def SplitterCall.destination (c : SplitterCall) : TransferKind → Nat
  | .net => c.worker
  | .platformFee => c.platform
  | .proofworkFee => c.proofwork

/-- What a leg of a call carries. -/
def SplitterCall.amount (c : SplitterCall) : TransferKind → Nat
  | .net => c.net
  | .platformFee => c.platformFee
  | .proofworkFee => c.proofworkFee

/-- A transaction the chain has accepted, and the payout it was sent for. -/
structure ChainTx where
  hash : Nat
  nonce : Nat
  payoutId : Nat
  call : SplitterCall
  reverted : Bool

/-- What `eth_getTransactionReceipt` answers for a mined transaction. -/
structure Receipt where
  reverted : Bool
  blockNumber : Nat

/-- What the payment provider answers to a call that reaches it. -/
inductive ProviderAnswer where
  | paid | failed | httpError | invalidResponse
  deriving DecidableEq

/-- The world outside the database.  The `next` fields are the answers the next
call will get; the outside may change them at any time.  `lost` answers never
reach the caller. -/
structure Outside where
  nextProvider : ProviderAnswer
  nextProviderRef : Nat
  nextLost : Bool
  nextAccept : Bool
  nextPendingNonce : Nat
  nextReceipt : Option Receipt
  nextLatestBlock : Nat
  nextVerdict : Verdict
  nextReason : String
  nextScore : Nat
  /-- Payouts of the `createPayout` calls answered `paid`, newest first. -/
  paidCalls : List Nat
  /-- Transactions accepted by the chain, newest first. -/
  chain : List ChainTx

/-- The database and the world outside it. -/
structure World where
  now : Nat
  nextId : Nat
  orgs : Nat → Option Org
  workers : Nat → Option Worker
  originAllowed : Nat → Nat → Bool
  urlBlocked : Nat → Bool
  bounties : Nat → Option Bounty
  jobs : Nat → Option Job
  submissions : Nat → Option Submission
  verifications : Nat × Nat → Option Verification
  /-- The keys of `verifications` in insertion order. -/
  verificationKeys : List (Nat × Nat)
  reputation : Nat → Option Reputation
  acceptedDedupe : Nat × Nat → Bool
  artifacts : Nat → Option Artifact
  payouts : Nat → Option Payout
  /-- The unique index on `payouts.submission_id`. -/
  payoutOf : Nat → Option Nat
  transfers : Nat × TransferKind → Option Transfer
  cryptoNonce : Option Nat
  disputes : Nat → Option Dispute
  outbox : OutboxKey → Option OutboxEvent
  /-- The keys of `outbox_events` in insertion order. -/
  outboxKeys : List OutboxKey
  accounts : Nat → Option Account
  billing : List BillingEvent
  reservations : Nat → Option Reservation
  stripeEvents : Nat → Option StripeEventStatus
  paymentIntents : Nat → Bool
  outside : Outside

/-- An empty database, and an outside that accepts whatever it is sent. -/
def World.empty : World where
  now := 0
  nextId := 0
  orgs _ := none
  workers _ := none
  originAllowed _ _ := true
  urlBlocked _ := false
  bounties _ := none
  jobs _ := none
  submissions _ := none
  verifications _ := none
  verificationKeys := []
  reputation _ := none
  acceptedDedupe _ := false
  artifacts _ := none
  payouts _ := none
  payoutOf _ := none
  transfers _ := none
  cryptoNonce := none
  disputes _ := none
  outbox _ := none
  outboxKeys := []
  accounts _ := none
  billing := []
  reservations _ := none
  stripeEvents _ := none
  paymentIntents _ := false
  outside :=
    { nextProvider := .paid
      nextProviderRef := 0
      nextLost := false
      nextAccept := true
      nextPendingNonce := 0
      nextReceipt := none
      nextLatestBlock := 0
      nextVerdict := .pass
      nextReason := ""
      nextScore := 0
      paidCalls := []
      chain := [] }

/-- What a statement can lock: a row, a unique key, or a worker's advisory lock. -/
inductive Lock where
  | worker (id : Nat)
  | bounty (id : Nat)
  | job (id : Nat)
  | submission (id : Nat)
  | verification (key : Nat × Nat)
  | reputation (workerId : Nat)
  | acceptedDedupe (key : Nat × Nat)
  | artifact (id : Nat)
  | payout (id : Nat)
  | payoutOf (submissionId : Nat)
  | transfer (key : Nat × TransferKind)
  | cryptoNonce
  | dispute (id : Nat)
  | outbox (key : OutboxKey)
  | account (orgId : Nat)
  | reservation (bountyId : Nat)
  | stripeEvent (id : Nat)
  | paymentIntent (id : Nat)
  /-- The id of the billing event of a Stripe event. -/
  | stripeTopup (stripeEventId : Nat)
  | advisory (workerId : Nat)
  deriving DecidableEq

/-- The Stripe event is booked. -/
def World.booked (w : World) (stripeEventId : Nat) : Bool :=
  w.billing.any fun b => decide (b.kind = .stripeTopup stripeEventId)

/-- A booked event stays booked. -/
theorem World.booked_of_suffix {w w' : World} {i : Nat} (h : w.billing <:+ w'.billing)
    (hw : w.booked i = true) : w'.booked i = true := by
  obtain ⟨b, hb, hkind⟩ := List.any_eq_true.mp hw
  exact List.any_eq_true.mpr ⟨b, h.mem hb, hkind⟩

/-- Two states agree on what lock `k` protects. -/
def World.same : Lock → World → World → Prop
  | .worker i, a, b => a.workers i = b.workers i
  | .bounty i, a, b => a.bounties i = b.bounties i
  | .job i, a, b => a.jobs i = b.jobs i
  | .submission i, a, b => a.submissions i = b.submissions i
  | .verification k, a, b => a.verifications k = b.verifications k
  | .reputation i, a, b => a.reputation i = b.reputation i
  | .acceptedDedupe k, a, b => a.acceptedDedupe k = b.acceptedDedupe k
  | .artifact i, a, b => a.artifacts i = b.artifacts i
  | .payout i, a, b => a.payouts i = b.payouts i
  | .payoutOf i, a, b => a.payoutOf i = b.payoutOf i
  | .transfer k, a, b => a.transfers k = b.transfers k
  | .cryptoNonce, a, b => a.cryptoNonce = b.cryptoNonce
  | .dispute i, a, b => a.disputes i = b.disputes i
  | .outbox k, a, b => a.outbox k = b.outbox k
  | .account i, a, b => a.accounts i = b.accounts i
  | .reservation i, a, b => a.reservations i = b.reservations i
  | .stripeEvent i, a, b => a.stripeEvents i = b.stripeEvents i
  | .paymentIntent i, a, b => a.paymentIntents i = b.paymentIntents i
  | .stripeTopup i, a, b => a.booked i = b.booked i
  | .advisory _, _, _ => True

theorem World.same_refl (k : Lock) (w : World) : World.same k w w := by
  cases k <;> simp [World.same]

theorem World.same_trans (k : Lock) (a b c : World) (hab : World.same k a b)
    (hbc : World.same k b c) : World.same k a c := by
  cases k <;> simp_all [World.same]

/-- Rewrite the row of one key, when it exists. -/
def modify {κ ρ : Type} [DecidableEq κ] (t : κ → Option ρ) (k : κ) (f : ρ → ρ) : κ → Option ρ :=
  Function.update t k ((t k).map f)

/-- Rewrite the rows of several keys. -/
def modifyAll {κ ρ : Type} [DecidableEq κ] (t : κ → Option ρ) (ks : List κ) (f : ρ → ρ) :
    κ → Option ρ :=
  fun k => if k ∈ ks then (t k).map f else t k

section Tables

variable {κ ρ : Type} [DecidableEq κ] {t : κ → Option ρ} {k k' : κ} {ks : List κ} {f : ρ → ρ}

@[simp] theorem modify_self : modify t k f k = (t k).map f := by simp [modify]

@[simp] theorem modify_of_ne (h : k' ≠ k) : modify t k f k' = t k' := by simp [modify, h]

@[simp] theorem modifyAll_nil : modifyAll t [] f = t := by
  funext k
  simp [modifyAll]

theorem modifyAll_of_notMem (h : k ∉ ks) : modifyAll t ks f k = t k := by simp [modifyAll, h]

/-- The row that is rewritten. -/
theorem modify_row {r : ρ} (hrow : t k = some r) : modify t k f k = some (f r) := by simp [hrow]

/-- A row of a table that is rewritten at one key. -/
theorem modify_eq_some {r : ρ} (hrow : t k' = some r) :
    modify t k f k' = some (if k' = k then f r else r) := by
  by_cases hk : k' = k
  · subst hk
    simp [hrow]
  · simp [hk, hrow]

theorem exists_of_modify {r : ρ} (h : modify t k f k' = some r) : ∃ r₀, t k' = some r₀ := by
  by_cases hk : k' = k
  · subst hk
    obtain ⟨r₀, hr₀, -⟩ := Option.map_eq_some_iff.mp (modify_self.symm.trans h)
    exact ⟨r₀, hr₀⟩
  · exact ⟨r, by simpa [hk] using h⟩

theorem exists_of_modifyAll {r : ρ} (h : modifyAll t ks f k = some r) : ∃ r₀, t k = some r₀ := by
  by_cases hk : k ∈ ks
  · obtain ⟨r₀, hr₀, -⟩ := Option.map_eq_some_iff.mp (by simpa [modifyAll, hk] using h)
    exact ⟨r₀, hr₀⟩
  · exact ⟨r, by rwa [modifyAll_of_notMem hk] at h⟩

/-- Every row of the table satisfies `P`. -/
def AllRows (P : κ → ρ → Prop) (t : κ → Option ρ) : Prop := ∀ k r, t k = some r → P k r

variable {P : κ → ρ → Prop} {new : ρ}

theorem AllRows.modify (h : AllRows P t) (hf : ∀ r, t k = some r → P k r → P k (f r)) :
    AllRows P (modify t k f) := by
  intro k' r hr
  by_cases hk : k' = k
  · subst hk
    rw [modify_self, Option.map_eq_some_iff] at hr
    obtain ⟨r₀, hr₀, rfl⟩ := hr
    exact hf r₀ hr₀ (h k' r₀ hr₀)
  · exact h k' r (by simpa [hk] using hr)

theorem AllRows.modifyAll (h : AllRows P t)
    (hf : ∀ k ∈ ks, ∀ r, t k = some r → P k r → P k (f r)) : AllRows P (modifyAll t ks f) := by
  intro k r hr
  by_cases hk : k ∈ ks
  · simp only [OpenUnion.modifyAll, hk, if_true, Option.map_eq_some_iff] at hr
    obtain ⟨r₀, hr₀, rfl⟩ := hr
    exact hf k hk r₀ hr₀ (h k r₀ hr₀)
  · exact h k r (by rwa [modifyAll_of_notMem hk] at hr)

theorem AllRows.update (h : AllRows P t) (hnew : P k new) :
    AllRows P (Function.update t k (some new)) := by
  intro k' r hr
  by_cases hk : k' = k
  · subst hk
    obtain rfl : new = r := by simpa using hr
    exact hnew
  · exact h k' r (by simpa [hk] using hr)

end Tables

end OpenUnion
