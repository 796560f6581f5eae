import OpenUnion.Code.Behaviour
import OpenUnion.Db.Frames

/-!
# What happens to a payout

Outside transactions a payout is written by four statements
(`Request.executes_payout`), and each commit rewrites it in one of six ways
(`PayoutCommit`) or leaves it alone.  No commit creates a payout.
-/

namespace OpenUnion

open Interleave

/-- The statements on `payouts` outside transactions. -/
theorem Request.executes_payout {q : Request} {s : PayoutStmt} (h : q.Executes (.payout s)) :
    (∃ i p, s = .upsert i p ∧ p.status = .pending) ∨ (∃ i fees, s = .setFees i fees) ∨
      (∃ i st pr ref, s = .setStatus i st pr ref) ∨ ∃ i, s = .blockMissingAddress i := by
  cases h.source (fun h => h) with
  | verdict q body h =>
      cases s with
      | upsert i p => exact Or.inl ⟨i, p, rfl, h.2.2⟩
      | _ => exact h.elim
  | override i v score h =>
      cases s with
      | upsert i p => exact Or.inl ⟨i, p, rfl, h.2⟩
      | _ => exact h.elim
  | pay q p h =>
      cases s with
      | setFees i fees => exact Or.inr (Or.inl ⟨i, fees, rfl⟩)
      | setStatus i st pr ref => exact Or.inr (Or.inr (Or.inl ⟨i, st, pr, ref, rfl⟩))
      | blockMissingAddress i => exact Or.inr (Or.inr (Or.inr ⟨i, rfl⟩))
      | _ => exact h.elim
  | confirm q p h | retry p h | mark p st pr ref reason h =>
      cases s with
      | setStatus i st pr ref => exact Or.inr (Or.inr (Or.inl ⟨i, st, pr, ref, rfl⟩))
      | _ => exact h.elim
  | _ =>
      rename_i h
      exact h.elim

/-- The calls outside that no transaction contains. -/
theorem Request.executes_outside {q : Request} {s : OutsideStmt} (h : q.Executes (.outside s)) :
    ∃ mock p n, s = .createPayout mock p n := by
  cases h.source (fun h => h) with
  | pay q p h =>
      cases s with
      | createPayout mock p n => exact ⟨mock, p, n, rfl⟩
      | sendRawTransaction p call n => exact h.elim
  | _ =>
      rename_i h
      exact h.elim

/-- A payout after a broadcast. -/
def Payout.broadcast (p : Payout) (provider : Provider) (txHash : Nat) (fees : Fees) : Payout :=
  { p with provider := some provider, providerRef := some txHash, payoutChainIsBase := true, fees := fees }

/-- What a commit does to the row `p` of payout `i`. -/
inductive PayoutCommit (cfg : Config) (w : World) (i : Nat) (p : Payout) : Tag → Payout → Prop where
  | same (t : Tag) : PayoutCommit cfg w i p t p
  | disputed (d : Nat) :
      PayoutCommit cfg w i p (.createDispute d i) { p with blockedReason := some .disputeOpen }
  | cancelled (d : Nat) (row : Dispute) : w.disputes d = some row → row.status = .opened →
      row.payoutId = some i →
      PayoutCommit cfg w i p (.cancelDispute d) { p with blockedReason := none }
  | upheld (d : Nat) (row : Dispute) : w.disputes d = some row → row.status = .opened →
      row.payoutId = some i →
      PayoutCommit cfg w i p (.resolveDispute d false) { p with blockedReason := none }
  | refunded (d : Nat) (row : Dispute) : w.disputes d = some row → row.status = .opened →
      row.payoutId = some i → p.status ≠ .paid → p.status ≠ .refunded →
      PayoutCommit cfg w i p (.resolveDispute d true)
        { p with status := .refunded, blockedReason := some .disputeRefund }
  | unblocked (workerId : Nat) : PayoutStmt.waitsFor workerId p = true →
      PayoutCommit cfg w i p (.unblockPayouts workerId) { p with blockedReason := none }
  | sent (hash : Nat) (fees : Fees) : SplitOf cfg i fees w →
      PayoutCommit cfg w i p (.broadcast i hash) (p.broadcast cfg.paymentsProvider hash fees)

section Commits

variable {cfg : Config} {hold : Lock → World → World → Prop} {w w' : World} {L : List Lock}
  {pid i : Nat} {t : Tag} {p : Payout}

/-- What a commit does to a payout. -/
theorem Tag.Effect.payout (h : t.Effect cfg hold pid L w w') (hrow : w.payouts i = some p) :
    ∃ p', w'.payouts i = some p' ∧ PayoutCommit cfg w i p t p' := by
  have hsame : w'.payouts = w.payouts → ∃ p', w'.payouts i = some p' ∧ PayoutCommit cfg w i p t p' :=
    fun h => ⟨p, by rw [h, hrow], .same t⟩
  cases t with
  | leaseJob j k =>
      obtain rfl | ⟨-, e, n, t, w₀, -, -, -, -, -, rfl⟩ := h
      · exact hsame rfl
      · exact hsame rfl
  | publishBounty b =>
      obtain ⟨-, bounty, accounts, accounts', billing, reservations, jobs, t, -, -, -, -, rfl⟩ := h
      exact hsame rfl
  | setBountyStatus b st =>
      obtain rfl := h
      exact hsame rfl
  | closeBounty b c =>
      obtain ⟨-, res, accounts, billing, w₀, -, -, -, -, -, rfl⟩ := h
      exact hsame rfl
  | createDispute d k =>
      obtain ⟨row, outbox, keys, now, -, -, -, -, -, -, -, rfl⟩ := h
      refine ⟨_, modify_eq_some hrow, ?_⟩
      split_ifs with hk
      · subst hk
        exact .disputed d
      · exact .same _
  | cancelDispute d =>
      obtain ⟨row, outbox, keys, now, payouts, hdispute, hopen, ⟨-, rfl, -⟩ | ⟨k, hk, -, rfl⟩, rfl⟩ := h
      · exact hsame rfl
      · refine ⟨_, modify_eq_some hrow, ?_⟩
        split_ifs with hi
        · subst hi
          exact .cancelled d row hdispute hopen hk
        · exact .same _
  | resolveDispute d refund =>
      obtain ⟨rfl, -⟩ | ⟨rfl, h⟩ | ⟨rfl, h⟩ := h
      · exact hsame rfl
      · obtain ⟨row, k, payout, accounts, accounts', billing, submissions, now, hdispute, hopen, hk,
          hpayout, hpaid, hrefunded, -, -, -, rfl⟩ := h
        refine ⟨_, modify_eq_some hrow, ?_⟩
        split_ifs with hi
        · subst hi
          obtain rfl : p = payout := Option.some.inj (hrow.symm.trans hpayout)
          exact .refunded d row hdispute hopen hk hpaid hrefunded
        · exact .same _
      · obtain ⟨row, outbox, keys, now, payouts, hdispute, hopen, ⟨-, rfl, -⟩ | ⟨k, hk, -, rfl⟩,
          rfl⟩ := h
        · exact hsame rfl
        · refine ⟨_, modify_eq_some hrow, ?_⟩
          split_ifs with hi
          · subst hi
            exact .upheld d row hdispute hopen hk
          · exact .same _
  | unblockPayouts worker =>
      obtain ⟨ps, outbox, keys, hps, -, rfl⟩ := h
      by_cases hi : i ∈ ps
      · obtain ⟨row, e, hrow', hwaits, -, -⟩ := hps i hi
        obtain rfl : p = row := Option.some.inj (hrow.symm.trans hrow')
        exact ⟨{ p with blockedReason := none }, by simp [modifyAll, hi, hrow],
          .unblocked worker hwaits⟩
      · exact ⟨p, by simp [modifyAll, hi, hrow], .same _⟩
  | claimOutboxBatch =>
      obtain ⟨outbox, -, rfl⟩ := h
      exact hsame rfl
  | broadcast k hash =>
      obtain ⟨fees, address, nonce, outbox, keys, hsplit, -, -, -, -, rfl⟩ := h
      refine ⟨_, modify_eq_some hrow, ?_⟩
      split_ifs with hi
      · subst hi
        exact .sent hash fees hsplit
      · exact .same _
  | stripeWebhook e =>
      obtain ⟨accounts, billing, intents, status, -, rfl⟩ := h
      exact hsame rfl

/-- A commit creates no payout. -/
theorem Tag.Effect.payout_of (h : t.Effect cfg hold pid L w w') {p' : Payout}
    (hrow' : w'.payouts i = some p') : ∃ p, w.payouts i = some p ∧ PayoutCommit cfg w i p t p' := by
  have hfound : ∃ p, w.payouts i = some p := by
    cases t with
    | leaseJob j k =>
        obtain rfl | ⟨-, e, n, t, w₀, -, -, -, -, -, rfl⟩ := h
        · exact ⟨p', hrow'⟩
        · exact ⟨p', hrow'⟩
    | publishBounty b =>
        obtain ⟨-, bounty, accounts, accounts', billing, reservations, jobs, t, -, -, -, -, rfl⟩ := h
        exact ⟨p', hrow'⟩
    | setBountyStatus b st =>
        obtain rfl := h
        exact ⟨p', hrow'⟩
    | closeBounty b c =>
        obtain ⟨-, res, accounts, billing, w₀, -, -, -, -, -, rfl⟩ := h
        exact ⟨p', hrow'⟩
    | createDispute d k =>
        obtain ⟨row, outbox, keys, now, -, -, -, -, -, -, -, rfl⟩ := h
        exact exists_of_modify hrow'
    | cancelDispute d =>
        obtain ⟨row, outbox, keys, now, payouts, -, -, ⟨-, rfl, -⟩ | ⟨k, -, -, rfl⟩, rfl⟩ := h
        · exact ⟨p', hrow'⟩
        · exact exists_of_modify hrow'
    | resolveDispute d refund =>
        obtain ⟨rfl, -⟩ | ⟨-, h⟩ | ⟨-, h⟩ := h
        · exact ⟨p', hrow'⟩
        · obtain ⟨row, k, payout, accounts, accounts', billing, submissions, now, -, -, -, -, -, -,
            -, -, -, rfl⟩ := h
          exact exists_of_modify hrow'
        · obtain ⟨row, outbox, keys, now, payouts, -, -, ⟨-, rfl, -⟩ | ⟨k, -, -, rfl⟩, rfl⟩ := h
          · exact ⟨p', hrow'⟩
          · exact exists_of_modify hrow'
    | unblockPayouts worker =>
        obtain ⟨ps, outbox, keys, -, -, rfl⟩ := h
        exact exists_of_modifyAll hrow'
    | claimOutboxBatch =>
        obtain ⟨outbox, -, rfl⟩ := h
        exact ⟨p', hrow'⟩
    | broadcast k hash =>
        obtain ⟨fees, address, nonce, outbox, keys, -, -, -, -, -, rfl⟩ := h
        exact exists_of_modify hrow'
    | stripeWebhook e =>
        obtain ⟨accounts, billing, intents, status, -, rfl⟩ := h
        exact ⟨p', hrow'⟩
  obtain ⟨p, hrow⟩ := hfound
  obtain ⟨p'', hrow'', hcommit⟩ := h.payout hrow
  obtain rfl : p'' = p' := Option.some.inj (hrow''.symm.trans hrow')
  exact ⟨p, hrow, hcommit⟩

/-- A commit leaves the index of the payouts, the outside and the clock alone, and
records no Stripe event. -/
theorem Tag.Effect.frame (h : t.Effect cfg hold pid L w w') :
    w'.payoutOf = w.payoutOf ∧ w'.outside = w.outside ∧ w'.now = w.now ∧
      ∀ e, (w'.stripeEvents e).isSome = (w.stripeEvents e).isSome := by
  cases t with
  | leaseJob j k => obtain rfl | ⟨-, e, n, t, w₀, -, -, -, -, -, rfl⟩ := h <;>
      exact ⟨rfl, rfl, rfl, fun _ => rfl⟩
  | publishBounty b =>
      obtain ⟨-, bounty, accounts, accounts', billing, reservations, jobs, t, -, -, -, -, rfl⟩ := h
      exact ⟨rfl, rfl, rfl, fun _ => rfl⟩
  | setBountyStatus b st =>
      obtain rfl := h
      exact ⟨rfl, rfl, rfl, fun _ => rfl⟩
  | closeBounty b c =>
      obtain ⟨-, res, accounts, billing, w₀, -, -, -, -, -, rfl⟩ := h
      exact ⟨rfl, rfl, rfl, fun _ => rfl⟩
  | createDispute d k =>
      obtain ⟨row, outbox, keys, now, -, -, -, -, -, -, -, rfl⟩ := h
      exact ⟨rfl, rfl, rfl, fun _ => rfl⟩
  | cancelDispute d =>
      obtain ⟨row, outbox, keys, now, payouts, -, -, -, rfl⟩ := h
      exact ⟨rfl, rfl, rfl, fun _ => rfl⟩
  | resolveDispute d refund =>
      obtain ⟨rfl, -⟩ | ⟨-, h⟩ | ⟨-, h⟩ := h
      · exact ⟨rfl, rfl, rfl, fun _ => rfl⟩
      · obtain ⟨row, k, payout, accounts, accounts', billing, submissions, now, -, -, -, -, -, -,
          -, -, -, rfl⟩ := h
        exact ⟨rfl, rfl, rfl, fun _ => rfl⟩
      · obtain ⟨row, outbox, keys, now, payouts, -, -, -, rfl⟩ := h
        exact ⟨rfl, rfl, rfl, fun _ => rfl⟩
  | unblockPayouts worker =>
      obtain ⟨ps, outbox, keys, -, -, rfl⟩ := h
      exact ⟨rfl, rfl, rfl, fun _ => rfl⟩
  | claimOutboxBatch =>
      obtain ⟨outbox, -, rfl⟩ := h
      exact ⟨rfl, rfl, rfl, fun _ => rfl⟩
  | broadcast k hash =>
      obtain ⟨fees, address, nonce, outbox, keys, -, -, -, -, -, rfl⟩ := h
      exact ⟨rfl, rfl, rfl, fun _ => rfl⟩
  | stripeWebhook e =>
      obtain ⟨accounts, billing, intents, status, -, rfl⟩ := h
      refine ⟨rfl, rfl, rfl, fun e' => ?_⟩
      by_cases he : e' = e <;> simp [he]

end Commits

end OpenUnion
