import OpenUnion.Code.Behaviour

/-!
# What happens to the jobs

Outside transactions a job is released, reaped, or written whole from a row that
was read before (`JobWrite`).  Commits lease a job or publish a bounty
(`JobsCommit`).  Either way a job stays in its bounty.
-/

namespace OpenUnion

open Interleave

/-- What a request writes to `jobs` outside transactions. -/
inductive JobWrite : Request → JobStmt → Prop where
  | release (i j n : Nat) : JobWrite (.release i j n) (.release j i n)
  | reap (t : Nat) : JobWrite .reapLeases (.reap t)
  | update (q : Request) (j : Nat) (new old : Job) :
      new.Rewrites old → JobWrite q (.update j new)

section Statements

variable {q : Request} {s : JobStmt}

theorem SubmitDoes.job {j i : Nat} {K : Job → Prop} (h : SubmitDoes j i K (.job s)) :
    ∃ new old, s = .update j new ∧ new.Rewrites old ∧ K old := by
  cases s with
  | update k new =>
      obtain ⟨rfl, old, hold, hrewrites⟩ := h
      exact ⟨new, old, rfl, hrewrites, hold⟩
  | _ => exact h.elim

theorem VerdictDoes.job {body : VerdictBody} (h : VerdictDoes body (.job s)) :
    ∃ j new old, s = .update j new ∧ new.Rewrites old := by
  cases s with
  | update j new =>
      obtain ⟨⟨old, hrewrites⟩, -⟩ := h
      exact ⟨j, new, old, rfl, hrewrites⟩
  | _ => exact h.elim

/-- Every write of jobs outside transactions is one of the three. -/
theorem Request.writes_job (h : q.Executes (.job s)) : JobWrite q s := by
  cases h.source (fun h => h) with
  | release i j n => exact .release i j n
  | reap t => exact .reap t
  | submit i j key body h =>
      obtain ⟨new, old, rfl, hrewrites, -⟩ := h.job
      exact .update _ j new old hrewrites
  | verdict q body h =>
      obtain ⟨j, new, old, rfl, hrewrites⟩ := h.job
      exact .update _ j new old hrewrites
  | markDuplicate i h =>
      cases s with
      | update j new =>
          obtain ⟨⟨old, hrewrites⟩, -⟩ := h
          exact .update _ j new old hrewrites
      | _ => exact h.elim
  | override i v score h =>
      cases s with
      | update j new =>
          obtain ⟨⟨old, hrewrites⟩, -⟩ := h
          exact .update _ j new old hrewrites
      | _ => exact h.elim
  | _ =>
      rename_i h
      exact h.elim

/-- No request writes `bounties` outside a transaction. -/
theorem Request.executes_bounty {s : BountyStmt} : ¬ q.Executes (.bounty s) := by
  intro h
  cases h.source (fun h => h) with
  | _ =>
      rename_i h
      exact h.elim

/-- No request writes `bounty_budget_reservations` outside a transaction. -/
theorem Request.executes_reservation {s : ReservationStmt} : ¬ q.Executes (.reservation s) := by
  intro h
  cases h.source (fun h => h) with
  | _ =>
      rename_i h
      exact h.elim

variable {w : World} {tbl : Nat → Option Job} {k : Nat} {row' : Job}

/-- A job after one of the writes was there before, in the same bounty. -/
theorem JobWrite.bounty (h : JobWrite q s) (hrow' : s.write w tbl k = some row') :
    ∃ row, tbl k = some row ∧ row'.bountyId = row.bountyId := by
  have hmodify : ∀ (j : Nat) (f : Job → Job), (∀ row, (f row).bountyId = row.bountyId) →
      modify tbl j f k = some row' → ∃ row, tbl k = some row ∧ row'.bountyId = row.bountyId := by
    intro j f hf hrow'
    obtain ⟨row, hrow⟩ := exists_of_modify hrow'
    rw [modify_eq_some hrow] at hrow'
    obtain rfl := Option.some.inj hrow'
    refine ⟨row, hrow, ?_⟩
    split_ifs
    · exact hf row
    · rfl
  cases h with
  | release i j n =>
      simp only [JobStmt.write] at hrow'
      split_ifs at hrow'
      · exact hmodify j (JobStmt.unlease .opened) (fun _ => rfl) hrow'
      · exact ⟨row', hrow', rfl⟩
  | reap t =>
      simp only [JobStmt.write] at hrow'
      by_cases hk : k ∈ JobStmt.reaped t w
      · simp only [OpenUnion.modifyAll, hk, if_true, Option.map_eq_some_iff] at hrow'
        obtain ⟨row, hrow, rfl⟩ := hrow'
        exact ⟨row, hrow, rfl⟩
      · exact ⟨row', by rwa [modifyAll_of_notMem hk] at hrow', rfl⟩
  | update _ j new old hrewrites => exact hmodify j (JobStmt.assign new) (fun _ => rfl) hrow'

end Statements

section Commits

variable {cfg : Config} {hold : Lock → World → World → Prop} {w w' : World} {L : List Lock}
  {pid : Nat} {t : Tag}

/-- What a commit does to `jobs`. -/
inductive JobsCommit (hold : Lock → World → World → Prop) (L : List Lock) (w w' : World) :
    Tag → Prop where
  | same (t : Tag) : w'.jobs = w.jobs → JobsCommit hold L w w' t
  | leased (j i : Nat) : .advisory i ∈ L → Leased hold j i w w' →
      JobsCommit hold L w w' (.leaseJob j i)
  | published (b : Nat) (bounty : Bounty) : w.bounties b = some bounty → .bounty b ∈ L →
      Populates hold b bounty w w'.jobs → JobsCommit hold L w w' (.publishBounty b)

/-- Commits lease a job or publish a bounty. -/
theorem Tag.Effect.jobsCommit (h : t.Effect cfg hold pid L w w') : JobsCommit hold L w w' t := by
  cases t with
  | leaseJob j i =>
      obtain rfl | ⟨hlock, hleased⟩ := h
      · exact .same _ rfl
      · exact .leased j i hlock hleased
  | publishBounty b =>
      obtain ⟨hlock, bounty, accounts, accounts', billing, reservations, jobs, t, hrow, -, -, hjobs,
        rfl⟩ := h
      exact .published b bounty hrow hlock hjobs
  | setBountyStatus b st =>
      obtain rfl := h
      exact .same _ rfl
  | closeBounty b c =>
      obtain ⟨-, res, accounts, billing, w₀, -, -, -, -, -, rfl⟩ := h
      exact .same _ rfl
  | createDispute d p =>
      obtain ⟨row, outbox, keys, now, -, -, -, -, -, -, -, rfl⟩ := h
      exact .same _ rfl
  | cancelDispute d =>
      obtain ⟨row, outbox, keys, now, payouts, -, -, -, rfl⟩ := h
      exact .same _ rfl
  | resolveDispute d refund =>
      obtain ⟨rfl, -⟩ | ⟨-, h⟩ | ⟨-, h⟩ := h
      · exact .same _ rfl
      · obtain ⟨row, p, payout, accounts, accounts', billing, submissions, now, -, -, -, -, -, -,
          -, -, -, rfl⟩ := h
        exact .same _ rfl
      · obtain ⟨row, outbox, keys, now, payouts, -, -, -, rfl⟩ := h
        exact .same _ rfl
  | unblockPayouts worker =>
      obtain ⟨ps, outbox, keys, -, -, rfl⟩ := h
      exact .same _ rfl
  | claimOutboxBatch =>
      obtain ⟨outbox, -, rfl⟩ := h
      exact .same _ rfl
  | broadcast p hash =>
      obtain ⟨fees, address, nonce, outbox, keys, -, -, -, -, -, rfl⟩ := h
      exact .same _ rfl
  | stripeWebhook e =>
      obtain ⟨accounts, billing, intents, status, -, rfl⟩ := h
      exact .same _ rfl

/-- Bounties and reservations are written by the transactions of a bounty only. -/
theorem Tag.Effect.bounties_reservations (h : t.Effect cfg hold pid L w w')
    (hpublish : ∀ b, t ≠ .publishBounty b) (hstatus : ∀ b st, t ≠ .setBountyStatus b st)
    (hclose : ∀ b c, t ≠ .closeBounty b c) :
    w'.bounties = w.bounties ∧ w'.reservations = w.reservations := by
  cases t with
  | leaseJob j i =>
      obtain rfl | ⟨-, e, n, t, w₀, -, -, -, -, -, rfl⟩ := h
      · exact ⟨rfl, rfl⟩
      · exact ⟨rfl, rfl⟩
  | publishBounty b => exact absurd rfl (hpublish b)
  | setBountyStatus b st => exact absurd rfl (hstatus b st)
  | closeBounty b c => exact absurd rfl (hclose b c)
  | createDispute d p =>
      obtain ⟨row, outbox, keys, now, -, -, -, -, -, -, -, rfl⟩ := h
      exact ⟨rfl, rfl⟩
  | cancelDispute d =>
      obtain ⟨row, outbox, keys, now, payouts, -, -, -, rfl⟩ := h
      exact ⟨rfl, rfl⟩
  | resolveDispute d refund =>
      obtain ⟨rfl, -⟩ | ⟨-, h⟩ | ⟨-, h⟩ := h
      · exact ⟨rfl, rfl⟩
      · obtain ⟨row, p, payout, accounts, accounts', billing, submissions, now, -, -, -, -, -, -,
          -, -, -, rfl⟩ := h
        exact ⟨rfl, rfl⟩
      · obtain ⟨row, outbox, keys, now, payouts, -, -, -, rfl⟩ := h
        exact ⟨rfl, rfl⟩
  | unblockPayouts worker =>
      obtain ⟨ps, outbox, keys, -, -, rfl⟩ := h
      exact ⟨rfl, rfl⟩
  | claimOutboxBatch =>
      obtain ⟨outbox, -, rfl⟩ := h
      exact ⟨rfl, rfl⟩
  | broadcast p hash =>
      obtain ⟨fees, address, nonce, outbox, keys, -, -, -, -, -, rfl⟩ := h
      exact ⟨rfl, rfl⟩
  | stripeWebhook e =>
      obtain ⟨accounts, billing, intents, status, -, rfl⟩ := h
      exact ⟨rfl, rfl⟩

end Commits

end OpenUnion
