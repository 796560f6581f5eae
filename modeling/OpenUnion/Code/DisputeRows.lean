import OpenUnion.Code.PayoutRows

/-!
# What happens to a dispute

Disputes are opened and closed by commits only.  A commit closes at most the one
open dispute its label names (`DisputeCommit`), and opens at most one
(`Tag.Effect.dispute_of`).
-/

namespace OpenUnion

open Interleave

/-- No request writes `disputes` outside a transaction. -/
theorem Request.executes_dispute {q : Request} {s : DisputeStmt} : ¬ q.Executes (.dispute s) := by
  intro h
  cases h.source (fun h => h) with
  | _ =>
      rename_i h
      exact h.elim

/-- What a commit does to the row of dispute `d`. -/
inductive DisputeCommit (d : Nat) (row : Dispute) : Tag → Dispute → Prop where
  | same (t : Tag) : DisputeCommit d row t row
  | cancelled (now : Nat) : row.status = .opened →
      DisputeCommit d row (.cancelDispute d) (DisputeStmt.closed .cancelled .cancelled now row)
  | upheld (now : Nat) : row.status = .opened →
      DisputeCommit d row (.resolveDispute d false) (DisputeStmt.closed .resolved .uphold now row)
  | refunded (now : Nat) : row.status = .opened →
      DisputeCommit d row (.resolveDispute d true) (DisputeStmt.closed .resolved .refund now row)

/-- A closed dispute stays as it is, an open one keeps its target. -/
theorem DisputeCommit.target {d : Nat} {row row' : Dispute} {t : Tag}
    (h : DisputeCommit d row t row') : row'.target = row.target := by
  cases h <;> rfl

theorem DisputeCommit.opened {d : Nat} {row row' : Dispute} {t : Tag}
    (h : DisputeCommit d row t row') (hopen : row'.status = .opened) : row' = row := by
  cases h with
  | same => rfl
  | cancelled | upheld | refunded => simp [DisputeStmt.closed] at hopen

section Commits

variable {cfg : Config} {hold : Lock → World → World → Prop} {w w' : World} {L : List Lock}
  {pid d : Nat} {t : Tag}

/-- A dispute after a commit was there before, or has just been opened for a payout
of its organisation. -/
theorem Tag.Effect.dispute_of (h : t.Effect cfg hold pid L w w') {row' : Dispute}
    (hrow' : w'.disputes d = some row') :
    (∃ row, w.disputes d = some row ∧ DisputeCommit d row t row') ∨
      ∃ p, t = .createDispute d p ∧ w.disputes d = none ∧ row'.payoutId = some p ∧
        row'.status = .opened ∧ w.payoutOwner p = some row'.orgId := by
  have hsame : w'.disputes = w.disputes → (∃ row, w.disputes d = some row ∧
      DisputeCommit d row t row') ∨ ∃ p, t = .createDispute d p ∧ w.disputes d = none ∧
        row'.payoutId = some p ∧ row'.status = .opened ∧ w.payoutOwner p = some row'.orgId :=
    fun h => Or.inl ⟨row', h ▸ hrow', .same t⟩
  -- a transaction that closes dispute `k` rewrites its row only
  have hclose : ∀ k st res now row, w.disputes k = some row →
      w'.disputes = modify w.disputes k (DisputeStmt.closed st res now) →
      DisputeCommit k row t (DisputeStmt.closed st res now row) →
      ∃ row, w.disputes d = some row ∧ DisputeCommit d row t row' := by
    intro k st res now row hrow hmodify hcommit
    rw [hmodify] at hrow'
    by_cases hk : d = k
    · subst hk
      rw [modify_self, hrow] at hrow'
      obtain rfl := Option.some.inj hrow'
      exact ⟨row, hrow, hcommit⟩
    · exact ⟨row', by simpa [hk] using hrow', .same t⟩
  cases t with
  | leaseJob j k =>
      obtain rfl | ⟨-, e, n, t, w₀, -, -, -, -, -, rfl⟩ := h
      · exact hsame rfl
      · exact hsame rfl
  | publishBounty b =>
      obtain ⟨-, bounty, accounts, accounts', billing, reservations, jobs, t, -, -, -, -, rfl⟩ := h
      exact hsame rfl
  | setBountyStatus b st =>
      obtain rfl := h
      exact hsame rfl
  | closeBounty b c =>
      obtain ⟨-, res, accounts, billing, w₀, -, -, -, -, -, rfl⟩ := h
      exact hsame rfl
  | createDispute k p =>
      obtain ⟨row, outbox, keys, now, hfree, hp, hopen, howner, -, -, -, rfl⟩ := h
      by_cases hk : d = k
      · subst hk
        obtain rfl : row = row' := by simpa using hrow'
        exact Or.inr ⟨p, rfl, hfree, hp, hopen, howner⟩
      · exact Or.inl ⟨row', by simpa [hk] using hrow', .same _⟩
  | cancelDispute k =>
      obtain ⟨row, outbox, keys, now, payouts, hrow, hopen, -, rfl⟩ := h
      exact Or.inl (hclose k _ _ now row hrow rfl (.cancelled now hopen))
  | resolveDispute k refund =>
      obtain ⟨rfl, -⟩ | ⟨rfl, h⟩ | ⟨rfl, h⟩ := h
      · exact hsame rfl
      · obtain ⟨row, p, payout, accounts, accounts', billing, submissions, now, hrow, hopen, -, -, -,
          -, -, -, -, rfl⟩ := h
        exact Or.inl (hclose k _ _ now row hrow rfl (.refunded now hopen))
      · obtain ⟨row, outbox, keys, now, payouts, hrow, hopen, -, rfl⟩ := h
        exact Or.inl (hclose k _ _ now row hrow rfl (.upheld now hopen))
  | unblockPayouts worker =>
      obtain ⟨ps, outbox, keys, -, -, rfl⟩ := h
      exact hsame rfl
  | claimOutboxBatch =>
      obtain ⟨outbox, -, rfl⟩ := h
      exact hsame rfl
  | broadcast k hash =>
      obtain ⟨fees, address, nonce, outbox, keys, -, -, -, -, -, rfl⟩ := h
      exact hsame rfl
  | stripeWebhook e =>
      obtain ⟨accounts, billing, intents, status, -, rfl⟩ := h
      exact hsame rfl

end Commits

end OpenUnion
