import OpenUnion.Code.Behaviour
import OpenUnion.Db.Frames

/-!
# Which code writes `submissions`

The submit route stores the submission of its request.  Verdicts, the duplicate mark
and the override rewrite one they have read, and what a commit changes of a submission
is its payout status.
-/

namespace OpenUnion

open Interleave

/-- The submissions after a transaction: the payout status of one may have changed. -/
inductive Reversed (t : Nat → Option Submission) : (Nat → Option Submission) → Prop where
  | same : Reversed t t
  | status (s : Nat) (st : SubmissionPayoutStatus) :
      Reversed t (modify t s fun row => { row with payoutStatus := some st })

/-- A column that is not the payout status is kept. -/
theorem Reversed.persists {t t' : Nat → Option Submission} {γ : Type} {f : Submission → γ}
    (h : Reversed t t') (hf : ∀ row st, f { row with payoutStatus := st } = f row) :
    Persists f t t' := by
  cases h with
  | same => exact .refl
  | status s st => exact .modify fun row => hf row _

/-- Every row after was there before. -/
theorem Reversed.row {t t' : Nat → Option Submission} {s : Nat} {row' : Submission}
    (h : Reversed t t') (hrow' : t' s = some row') :
    ∃ row st, t s = some row ∧ row' = { row with payoutStatus := st } := by
  cases h with
  | same => exact ⟨row', row'.payoutStatus, hrow', rfl⟩
  | status i st =>
      obtain ⟨row, hrow⟩ := exists_of_modify hrow'
      obtain rfl := Option.some.inj ((modify_eq_some hrow).symm.trans hrow')
      by_cases hs : s = i
      · exact ⟨row, some st, hrow, by rw [if_pos hs]⟩
      · exact ⟨row, row.payoutStatus, hrow, by rw [if_neg hs]⟩

/-- Commits change submissions in their payout status only, register no key and write no
verification. -/
theorem Tag.Effect.submissions {cfg : Config} {hold : Lock → World → World → Prop} {L : List Lock}
    {w w' : World} {pid : Nat} {t : Tag} (h : t.Effect cfg hold pid L w w') :
    Reversed w.submissions w'.submissions ∧ w'.acceptedDedupe = w.acceptedDedupe ∧
      w'.verifications = w.verifications := by
  cases t with
  | leaseJob j i =>
      obtain rfl | ⟨-, e, n, t, w₀, -, -, -, -, -, rfl⟩ := h
      · exact ⟨.same, rfl, rfl⟩
      · exact ⟨.same, rfl, rfl⟩
  | publishBounty b =>
      obtain ⟨-, bounty, accounts, accounts', billing, reservations, jobs, t, -, -, -, -, rfl⟩ := h
      exact ⟨.same, rfl, rfl⟩
  | setBountyStatus b st =>
      obtain rfl := h
      exact ⟨.same, rfl, rfl⟩
  | closeBounty b c =>
      obtain ⟨-, res, accounts, billing, w₀, -, -, -, -, -, rfl⟩ := h
      exact ⟨.same, rfl, rfl⟩
  | createDispute d p =>
      obtain ⟨row, outbox, keys, now, -, -, -, -, -, -, -, rfl⟩ := h
      exact ⟨.same, rfl, rfl⟩
  | cancelDispute d =>
      obtain ⟨row, outbox, keys, now, payouts, -, -, -, rfl⟩ := h
      exact ⟨.same, rfl, rfl⟩
  | resolveDispute d refund =>
      obtain ⟨rfl, -⟩ | ⟨-, h⟩ | ⟨-, h⟩ := h
      · exact ⟨.same, rfl, rfl⟩
      · obtain ⟨row, p, payout, accounts, accounts', billing, submissions, now, -, -, -, -, -, -,
          -, -, hsubmissions, rfl⟩ := h
        refine ⟨?_, rfl, rfl⟩
        obtain rfl | ⟨s, rfl⟩ := hsubmissions
        · exact .same
        · exact .status s _
      · obtain ⟨row, outbox, keys, now, payouts, -, -, -, rfl⟩ := h
        exact ⟨.same, rfl, rfl⟩
  | unblockPayouts worker =>
      obtain ⟨ps, outbox, keys, -, -, rfl⟩ := h
      exact ⟨.same, rfl, rfl⟩
  | claimOutboxBatch =>
      obtain ⟨outbox, -, rfl⟩ := h
      exact ⟨.same, rfl, rfl⟩
  | broadcast p hash =>
      obtain ⟨fees, address, nonce, outbox, keys, -, -, -, -, -, rfl⟩ := h
      exact ⟨.same, rfl, rfl⟩
  | stripeWebhook e =>
      obtain ⟨accounts, billing, intents, status, -, rfl⟩ := h
      exact ⟨.same, rfl, rfl⟩

/-- Requests that write no whole submission. -/
theorem Request.updates_submission {q : Request} {i : Nat} {new : Submission}
    (h : q.Executes (.submission (.update i new))) :
    (∃ body, q = .verifierVerdict body) ∨ (∃ s, q = .markDuplicate s) ∨
      (∃ s v score, q = .overrideVerdict s v score) ∨ q = .verificationRunner := by
  cases q with
  | verifierVerdict body => exact Or.inl ⟨body, rfl⟩
  | markDuplicate s => exact Or.inr (Or.inl ⟨s, rfl⟩)
  | overrideVerdict s v score => exact Or.inr (Or.inr (Or.inl ⟨s, v, score, rfl⟩))
  | verificationRunner => exact Or.inr (Or.inr (Or.inr rfl))
  | payoutRunner =>
      obtain h | ⟨key, htopic, hhandler | hfinal⟩ := h
      · exact h.elim
      · cases key with
        | verification i n => exact absurd htopic (by simp [payoutTopics, OutboxKey.topic])
        | _ => exact hhandler.elim
      · exact hfinal.elim
  | release i j n | reapLeases | payoutAddress i x | stripeWebhook e =>
      obtain h | h := h
      · exact h.elim
      · first | exact absurd h (by simp) | exact h.elim
  | _ => exact h.elim

/-- Only the submit route stores submissions. -/
theorem Request.inserts_submission {q : Request} {i : Nat} {new : Submission}
    (h : q.Executes (.submission (.insert i new))) : ∃ i j key body, q = .submit i j key body := by
  cases q with
  | submit i j key body => exact ⟨i, j, key, body, rfl⟩
  | payoutRunner | verificationRunner =>
      obtain h | ⟨key, -, hhandler | hfinal⟩ := h
      · exact h.elim
      · cases key with
        | verification i n =>
            obtain hclaim | ⟨body, -, -, hverdict⟩ := hhandler
            · exact hclaim.elim
            · exact hverdict.elim
        | _ => exact hhandler.elim
      · exact hfinal.elim
  | release i j n | reapLeases | payoutAddress i x | stripeWebhook e =>
      obtain h | h := h
      · exact h.elim
      · first | exact absurd h (by simp) | exact h.elim
  | _ => exact h.elim

end OpenUnion
