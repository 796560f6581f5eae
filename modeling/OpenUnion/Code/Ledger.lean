import OpenUnion.Code.Behaviour
import OpenUnion.Db.Frames

/-!
# What happens to a balance

A commit leaves balances and events alone, or books one event and moves the
balance of its account by the event's amount (`Tag.Effect.ledger`).  Which kind of
event is booked is settled by the commit's label (`Tag.Books`).  Outside
transactions only the admin top-up touches the two tables.
-/

namespace OpenUnion

open Interleave

/-- The balance of an organisation; without an account it is zero. -/
def balanceIn (t : Nat → Option Account) (orgId : Nat) : Int :=
  ((t orgId).map Account.balanceCents).getD 0

/-- The kind of event a commit may book. -/
def Tag.Books : Tag → BillingKind → Prop
  | .publishBounty b, kind => kind = .bountyBudgetReserve b
  | .closeBounty b _, kind => kind = .bountyBudgetRelease b
  | .resolveDispute d refund, kind => refund = true ∧ ∃ p, kind = .disputeRefund d p
  | .stripeWebhook i, kind => kind = .stripeTopup i
  | _, _ => False

/-- Balances and events are as they were, or one event of a kind `K` is booked and
its account's balance has moved by its amount. -/
def LedgerStep (K : BillingKind → Prop) (balance balance' : Nat → Int)
    (billing billing' : List BillingEvent) : Prop :=
  (balance' = balance ∧ billing' = billing) ∨
  ∃ e, K e.kind ∧ billing' = e :: billing ∧
    ∀ o, balance' o = balance o + if o = e.account then e.amountCents else 0

section Balances

variable {t t' : Nat → Option Account} {o : Nat}

/-- Moving a balance. -/
theorem balanceIn_modify {f : Account → Account} {n : Int} (hsome : (t o).isSome)
    (hf : ∀ a, (f a).balanceCents = a.balanceCents + n) (o' : Nat) :
    balanceIn (modify t o f) o' = balanceIn t o' + if o' = o then n else 0 := by
  obtain ⟨a, ha⟩ := Option.isSome_iff_exists.mp hsome
  by_cases ho : o' = o
  · subst ho
    simp [balanceIn, ha, hf]
  · simp [balanceIn, ho]

/-- A new account is empty. -/
theorem Ensures.balance (h : Ensures o t t') : balanceIn t' = balanceIn t := by
  obtain rfl | ⟨hfree, rfl⟩ := h
  · rfl
  · funext o'
    by_cases ho : o' = o
    · subst ho
      simp [balanceIn, hfree]
    · simp [balanceIn, ho]

/-- Booking an event together with its amount. -/
theorem LedgerStep.book {K : BillingKind → Prop} {e : BillingEvent} {f : Account → Account}
    {b : List BillingEvent} (hK : K e.kind) (hsome : (t e.account).isSome)
    (hf : ∀ a, (f a).balanceCents = a.balanceCents + e.amountCents) :
    LedgerStep K (balanceIn t) (balanceIn (modify t e.account f)) b (e :: b) :=
  Or.inr ⟨e, hK, rfl, balanceIn_modify hsome hf⟩

theorem Credits.ledger {kind : BillingKind} {n now : Nat} {b b' : List BillingEvent}
    {K : BillingKind → Prop} (h : Credits o kind n now t t' b b') (hK : K kind) :
    LedgerStep K (balanceIn t) (balanceIn t') b b' := by
  obtain ⟨-, rfl, rfl⟩ | ⟨t₀, -, -, hsome, rfl, rfl⟩ := h
  · exact Or.inl ⟨rfl, rfl⟩
  · exact .book (e := ⟨o, kind, n, t₀⟩) hK hsome fun _ => rfl

end Balances

section Commits

variable {cfg : Config} {hold : Lock → World → World → Prop} {w w' : World} {L : List Lock}
  {pid : Nat} {t : Tag}

/-- What a commit does to balances and events. -/
theorem Tag.Effect.ledger (h : t.Effect cfg hold pid L w w') :
    LedgerStep t.Books (balanceIn w.accounts) (balanceIn w'.accounts) w.billing w'.billing := by
  cases t with
  | leaseJob j k =>
      obtain rfl | ⟨-, e, n, t, w₀, -, -, -, -, -, rfl⟩ := h
      · exact Or.inl ⟨rfl, rfl⟩
      · exact Or.inl ⟨rfl, rfl⟩
  | publishBounty b =>
      obtain ⟨-, bounty, accounts, accounts', billing, reservations, jobs, t, -, hensures, hfunds, -,
        rfl⟩ := h
      have hbalance : balanceIn accounts = balanceIn w.accounts := hensures.balance
      obtain ⟨-, rfl, rfl, -⟩ | ⟨t', -, -, hcovers, rfl, rfl, -⟩ := hfunds
      · exact Or.inl ⟨hbalance, rfl⟩
      · obtain ⟨account, haccount, -⟩ := (Option.any_eq_true _ _).mp hcovers
        rw [← hbalance]
        refine .book (e := ⟨bounty.orgId, .bountyBudgetReserve b, -(bounty.reserveCents : Int), t'⟩)
          (by simp [Tag.Books]) (by simp [haccount]) fun a => rfl
  | setBountyStatus b st =>
      obtain rfl := h
      exact Or.inl ⟨rfl, rfl⟩
  | closeBounty b c =>
      obtain ⟨-, res, accounts, billing, w₀, -, -, -, -, hcredit, rfl⟩ := h
      obtain ⟨-, rfl, rfl⟩ | ⟨t, -, -, hsome, rfl, rfl⟩ := hcredit
      · exact Or.inl ⟨rfl, rfl⟩
      · exact .book (e := ⟨res.account, .bountyBudgetRelease b, (res.amountCents - c : Nat), t⟩)
          (by simp [Tag.Books]) hsome fun _ => rfl
  | createDispute d k =>
      obtain ⟨row, outbox, keys, now, -, -, -, -, -, -, -, rfl⟩ := h
      exact Or.inl ⟨rfl, rfl⟩
  | cancelDispute d =>
      obtain ⟨row, outbox, keys, now, payouts, -, -, -, rfl⟩ := h
      exact Or.inl ⟨rfl, rfl⟩
  | resolveDispute d refund =>
      obtain ⟨rfl, -⟩ | ⟨rfl, h⟩ | ⟨-, h⟩ := h
      · exact Or.inl ⟨rfl, rfl⟩
      · obtain ⟨row, k, payout, accounts, accounts', billing, submissions, now, -, -, -, -, -, -,
          hensures, hcredits, -, rfl⟩ := h
        have hledger := hcredits.ledger (K := Tag.Books (.resolveDispute d true)) ⟨rfl, k, rfl⟩
        rwa [hensures.balance] at hledger
      · obtain ⟨row, outbox, keys, now, payouts, -, -, -, rfl⟩ := h
        exact Or.inl ⟨rfl, rfl⟩
  | unblockPayouts worker =>
      obtain ⟨ps, outbox, keys, -, -, rfl⟩ := h
      exact Or.inl ⟨rfl, rfl⟩
  | claimOutboxBatch =>
      obtain ⟨outbox, -, rfl⟩ := h
      exact Or.inl ⟨rfl, rfl⟩
  | broadcast k hash =>
      obtain ⟨fees, address, nonce, outbox, keys, -, -, -, -, -, rfl⟩ := h
      exact Or.inl ⟨rfl, rfl⟩
  | stripeWebhook e =>
      obtain ⟨accounts, billing, intents, status, hbooks, rfl⟩ := h
      obtain ⟨rfl, rfl, -⟩ | ⟨o, n, t, -, -, hsome, rfl, rfl⟩ := hbooks
      · exact Or.inl ⟨rfl, rfl⟩
      · exact .book (e := ⟨o, .stripeTopup e, n, t⟩) (by simp [Tag.Books]) hsome fun _ => rfl

end Commits

section Statements

/-- Outside transactions only the admin top-up writes accounts. -/
theorem Request.executes_account {q : Request} {s : AccountStmt} (h : q.Executes (.account s)) :
    ∃ o n, q = .adminTopup o n ∧ (s = .insertOrIgnore o ∨ s = .credit o n) := by
  cases h.source (fun h => h) with
  | topup o n h =>
      cases s with
      | insertOrIgnore o' => exact ⟨o, n, rfl, Or.inl (congrArg _ h)⟩
      | credit o' n' =>
          obtain ⟨rfl, rfl⟩ := h
          exact ⟨o', n', rfl, Or.inr rfl⟩
      | debit o' n' => exact h.elim
  | _ =>
      rename_i h
      exact h.elim

/-- Outside transactions only the admin top-up books events. -/
theorem Request.executes_billing {q : Request} {e : BillingEvent} (h : q.Executes (.billing e)) :
    ∃ o n, q = .adminTopup o n ∧ e.account = o ∧ e.kind = .adminTopup ∧ e.amountCents = n := by
  cases h.source (fun h => h) with
  | topup o n h => exact ⟨o, n, rfl, h.1, h.2.1, h.2.2⟩
  | _ =>
      rename_i h
      exact h.elim

/-- Outside transactions only the webhook writes `stripe_webhook_events`. -/
theorem Request.executes_stripe {q : Request} {s : StripeStmt} (h : q.Executes (.stripe s)) :
    ∃ event, q = .stripeWebhook event := by
  cases h.source (fun h => h) with
  | webhook event _ => exact ⟨event, rfl⟩
  | _ =>
      rename_i h
      exact h.elim

end Statements

end OpenUnion
