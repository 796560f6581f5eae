import OpenUnion.Db.Engine

/-!
# What never changes

Rows are never deleted, and some of their columns are never written again: a
job stays in its bounty, a payout keeps its submission and its amount.
`World.Grows` collects these facts together with the two counters that only go
up, the clock and the source of identifiers.  It is a preorder, every statement
outside a transaction respects it, and so do the moves of the outside.
-/

namespace OpenUnion

open Interleave

section Persistence

variable {κ ρ γ : Type}

/-- The rows of `t` are still in `t'`, with the same value of `f`. -/
def Persists (f : ρ → γ) (t t' : κ → Option ρ) : Prop :=
  ∀ k r, t k = some r → ∃ r', t' k = some r' ∧ f r' = f r

variable {f : ρ → γ} {t t' t'' : κ → Option ρ}

theorem Persists.refl : Persists f t t := fun _ r h => ⟨r, h, rfl⟩

theorem Persists.trans (h : Persists f t t') (h' : Persists f t' t'') : Persists f t t'' := by
  intro k r hr
  obtain ⟨r', hr', hf⟩ := h k r hr
  obtain ⟨r'', hr'', hf'⟩ := h' k r' hr'
  exact ⟨r'', hr'', hf'.trans hf⟩

theorem Persists.ite {c : Prop} [Decidable c] (h : c → Persists f t t') :
    Persists f t (if c then t' else t) := by
  split_ifs with hc
  · exact h hc
  · exact .refl

theorem Persists.ite_not {c : Prop} [Decidable c] (h : ¬ c → Persists f t t') :
    Persists f t (if c then t else t') := by
  split_ifs with hc
  · exact .refl
  · exact h hc

variable [DecidableEq κ]

theorem Persists.modify {k : κ} {g : ρ → ρ} (hg : ∀ r, f (g r) = f r) :
    Persists f t (modify t k g) := by
  intro k' r hr
  by_cases hk : k' = k
  · subst hk
    exact ⟨g r, by simp [hr], hg r⟩
  · exact ⟨r, by simp [hk, hr], rfl⟩

theorem Persists.modifyAll {ks : List κ} {g : ρ → ρ} (hg : ∀ r, f (g r) = f r) :
    Persists f t (modifyAll t ks g) := by
  intro k r hr
  by_cases hk : k ∈ ks
  · exact ⟨g r, by simp [OpenUnion.modifyAll, hk, hr], hg r⟩
  · exact ⟨r, by simp [OpenUnion.modifyAll, hk, hr], rfl⟩

/-- A new row. -/
theorem Persists.insert {k : κ} {new : ρ} (hfree : t k = none) :
    Persists f t (Function.update t k (some new)) := by
  intro k' r hr
  have hne : k' ≠ k := by
    rintro rfl
    rw [hfree] at hr
    exact absurd hr (by simp)
  exact ⟨r, by simp [hne, hr], rfl⟩

/-- A rewritten row. -/
theorem Persists.update {k : κ} {new : ρ} (hnew : ∀ r, t k = some r → f new = f r) :
    Persists f t (Function.update t k (some new)) := by
  intro k' r hr
  by_cases hk : k' = k
  · subst hk
    exact ⟨new, by simp, hnew r hr⟩
  · exact ⟨r, by simp [hk, hr], rfl⟩

end Persistence

/-- What is fixed when a bounty is created. -/
def Bounty.terms (b : Bounty) : Nat × List Nat × Nat × Nat :=
  (b.orgId, b.fingerprintClasses, b.payoutCents, b.disputeWindowSec)

/-- What is fixed when a submission is made. -/
def Submission.origin (s : Submission) : Nat × Nat := (s.jobId, s.workerId)

/-- What is fixed when a payout is created. -/
def Payout.terms (p : Payout) : Nat × Nat × Nat := (p.submissionId, p.workerId, p.amountCents)

/-- What is fixed when a dispute is opened. -/
def Dispute.target (d : Dispute) : Nat × Nat × Option Nat × Option Nat :=
  (d.orgId, d.bountyId, d.submissionId, d.payoutId)

/-- What is fixed when a budget is reserved. -/
def Reservation.terms (r : Reservation) : Nat × Nat := (r.account, r.amountCents)

/-- What is fixed when the chain accepts a transaction. -/
def ChainTx.content (tx : ChainTx) : Nat × Nat × Nat × SplitterCall :=
  (tx.hash, tx.nonce, tx.payoutId, tx.call)

/-- Accepted transactions stay, and a reverted one stays reverted. -/
def Accepted (txs txs' : List ChainTx) : Prop :=
  ∀ tx ∈ txs, ∃ tx' ∈ txs', tx'.content = tx.content ∧ (tx.reverted = true → tx'.reverted = true)

theorem Accepted.refl (txs : List ChainTx) : Accepted txs txs := fun tx h => ⟨tx, h, rfl, id⟩

theorem Accepted.trans {txs txs' txs'' : List ChainTx} (h : Accepted txs txs')
    (h' : Accepted txs' txs'') : Accepted txs txs'' := by
  intro tx hmem
  obtain ⟨tx', hmem', hcontent, hreverted⟩ := h tx hmem
  obtain ⟨tx'', hmem'', hcontent', hreverted'⟩ := h' tx' hmem'
  exact ⟨tx'', hmem'', hcontent'.trans hcontent, fun hr => hreverted' (hreverted hr)⟩

/-- What every step keeps. -/
structure World.Grows (w w' : World) : Prop where
  now : w.now ≤ w'.now
  nextId : w.nextId ≤ w'.nextId
  bounties : Persists Bounty.terms w.bounties w'.bounties
  jobs : Persists Job.bountyId w.jobs w'.jobs
  submissions : Persists Submission.origin w.submissions w'.submissions
  verifications : Persists (fun _ => ()) w.verifications w'.verifications
  payouts : Persists Payout.terms w.payouts w'.payouts
  disputes : Persists Dispute.target w.disputes w'.disputes
  reservations : Persists Reservation.terms w.reservations w'.reservations
  accounts : Persists (fun _ => ()) w.accounts w'.accounts
  outbox : Persists (fun _ => ()) w.outbox w'.outbox
  billing : w.billing <:+ w'.billing
  chain : Accepted w.outside.chain w'.outside.chain

namespace World.Grows

variable {w w' w'' : World}

theorem refl (w : World) : w.Grows w where
  now := Nat.le_refl _
  nextId := Nat.le_refl _
  bounties := .refl
  jobs := .refl
  submissions := .refl
  verifications := .refl
  payouts := .refl
  disputes := .refl
  reservations := .refl
  accounts := .refl
  outbox := .refl
  billing := List.suffix_refl _
  chain := .refl _

theorem trans (h : w.Grows w') (h' : w'.Grows w'') : w.Grows w'' where
  now := Nat.le_trans h.now h'.now
  nextId := Nat.le_trans h.nextId h'.nextId
  bounties := h.bounties.trans h'.bounties
  jobs := h.jobs.trans h'.jobs
  submissions := h.submissions.trans h'.submissions
  verifications := h.verifications.trans h'.verifications
  payouts := h.payouts.trans h'.payouts
  disputes := h.disputes.trans h'.disputes
  reservations := h.reservations.trans h'.reservations
  accounts := h.accounts.trans h'.accounts
  outbox := h.outbox.trans h'.outbox
  billing := h.billing.trans h'.billing
  chain := h.chain.trans h'.chain

end World.Grows

/-- The organisation whose bounty a payout belongs to. -/
def World.payoutOwner (w : World) (payoutId : Nat) : Option Nat :=
  (w.payouts payoutId).bind fun p => (w.submissions p.submissionId).bind fun s =>
    (w.jobs s.jobId).bind fun j => (w.bounties j.bountyId).map Bounty.orgId

theorem World.payoutOwner_eq_some {w : World} {p o : Nat} :
    w.payoutOwner p = some o ↔ ∃ row sub job bounty, w.payouts p = some row ∧
      w.submissions row.submissionId = some sub ∧ w.jobs sub.jobId = some job ∧
      w.bounties job.bountyId = some bounty ∧ bounty.orgId = o := by
  simp only [World.payoutOwner, Option.bind_eq_some_iff, Option.map_eq_some_iff]
  constructor
  · rintro ⟨row, hrow, sub, hsub, job, hjob, bounty, hbounty, horg⟩
    exact ⟨row, sub, job, bounty, hrow, hsub, hjob, hbounty, horg⟩
  · rintro ⟨row, sub, job, bounty, hrow, hsub, hjob, hbounty, horg⟩
    exact ⟨row, hrow, sub, hsub, job, hjob, bounty, hbounty, horg⟩

/-- A payout keeps its organisation. -/
theorem World.Grows.payoutOwner {w w' : World} (h : w.Grows w') {p o : Nat}
    (hp : w.payoutOwner p = some o) : w'.payoutOwner p = some o := by
  obtain ⟨row, sub, job, bounty, hrow, hsub, hjob, hbounty, horg⟩ := World.payoutOwner_eq_some.mp hp
  obtain ⟨row', hrow', hterms⟩ := h.payouts p row hrow
  obtain ⟨sub', hsub', horigin⟩ := h.submissions _ sub hsub
  obtain ⟨job', hjob', hbountyId⟩ := h.jobs _ job hjob
  obtain ⟨bounty', hbounty', hterms'⟩ := h.bounties _ bounty hbounty
  have hsubmission : row'.submissionId = row.submissionId := congrArg Prod.fst hterms
  have hjobId : sub'.jobId = sub.jobId := congrArg Prod.fst horigin
  have horg' : bounty'.orgId = bounty.orgId := congrArg Prod.fst hterms'
  refine World.payoutOwner_eq_some.mpr ⟨row', sub', job', bounty', hrow', ?_, ?_, ?_, ?_⟩
  · rw [hsubmission, hsub']
  · rw [hjobId, hjob']
  · rw [hbountyId, hbounty']
  · rw [horg', horg]

section Statements

variable {busy : Lock → Bool} {w : World}

theorem JobStmt.persists (s : JobStmt) : Persists Job.bountyId w.jobs (s.write w w.jobs) := by
  cases s with
  | lease j i e n t => exact Persists.ite fun _ => .modify fun _ => rfl
  | release j i n => exact Persists.ite fun _ => .modify fun _ => rfl
  | reap t => exact .modifyAll fun _ => rfl
  | update j row => exact .modify fun _ => rfl
  | insert j row =>
      exact Persists.ite fun hfree => .insert (Option.isNone_iff_eq_none.mp hfree)

theorem VerificationStmt.persists (s : VerificationStmt) :
    Persists (fun _ => ()) w.verifications (s.write w w.verifications) := by
  cases s with
  | insert k v => exact Persists.ite fun hfree => .insert (Option.isNone_iff_eq_none.mp hfree)
  | update k v => exact .modify fun _ => rfl

theorem SubmissionStmt.persists (s : SubmissionStmt) :
    Persists Submission.origin w.submissions (s.write w w.submissions) := by
  cases s with
  | insert i row =>
      refine Persists.ite fun hfree => .insert ?_
      simp only [SubmissionStmt.free, Bool.and_eq_true] at hfree
      exact Option.isNone_iff_eq_none.mp hfree.1
  | update i row => exact .modify fun _ => rfl
  | setPayoutStatus i st => exact .modify fun _ => rfl

theorem PayoutStmt.persists (s : PayoutStmt) :
    Persists Payout.terms w.payouts (s.write w w.payouts) := by
  cases s with
  | lock i => exact .refl
  | upsert i p =>
      refine Persists.ite_not fun _ => .update fun r hr => ?_
      simp [PayoutStmt.upserted, hr, Payout.terms]
  | setFees i fees => exact .modify fun _ => rfl
  | setStatus i st pr ref => exact .modify fun _ => rfl
  | block i => exact .modify fun _ => rfl
  | unblock i => exact .modify fun _ => rfl
  | refund i => exact .modify fun _ => rfl
  | blockMissingAddress i =>
      refine .modify fun r => ?_
      split_ifs <;> rfl
  | unblockWorker i => exact .modifyAll fun _ => rfl
  | setBroadcast i pr hash fees => exact .modify fun _ => rfl

theorem DisputeStmt.persists (s : DisputeStmt) :
    Persists Dispute.target w.disputes (s.write w w.disputes) := by
  cases s with
  | lock i => exact .refl
  | insert i row =>
      exact Persists.ite fun hfree => .insert (Option.isNone_iff_eq_none.mp hfree)
  | close i st r now => exact .modify fun _ => rfl

theorem ReservationStmt.persists (s : ReservationStmt) :
    Persists Reservation.terms w.reservations (s.write w w.reservations) := by
  cases s with
  | insert b row =>
      exact Persists.ite fun hfree => .insert (Option.isNone_iff_eq_none.mp hfree)
  | release b => exact .modify fun _ => rfl

theorem AccountStmt.persists (s : AccountStmt) :
    Persists (fun _ => ()) w.accounts (s.write w w.accounts) := by
  cases s with
  | insertOrIgnore o =>
      exact Persists.ite fun hfree => .insert (Option.isNone_iff_eq_none.mp hfree)
  | credit o n => exact .modify fun _ => rfl
  | debit o n => exact Persists.ite fun _ => .modify fun _ => rfl

theorem OutboxStmt.persists (s : OutboxStmt) :
    Persists (fun _ => ()) w.outbox (s.write busy w w.outbox) := by
  cases s with
  | insert k a c =>
      exact Persists.ite fun hfree => .insert (Option.isNone_iff_eq_none.mp hfree)
  | insertOrIgnore k a c =>
      exact Persists.ite fun hfree => .insert (Option.isNone_iff_eq_none.mp hfree)
  | upsert k a c => exact .update fun _ _ => rfl
  | stop k now => exact .modify fun _ => rfl
  | reopen k a reset clear => exact .modify fun _ => rfl
  | releaseStale now d => exact .modifyAll fun _ => rfl
  | select ts n now => exact .refl
  | take ks i now => exact .modifyAll fun _ => rfl
  | markSent k => exact .modify fun _ => rfl
  | reschedule k err d => exact .modify fun _ => rfl
  | markDead k err => exact .modify fun _ => rfl

/-- What a statement does outside the database. -/
theorem Stmt.effect_grows (s : Stmt) (seen : World) : w.Grows (s.effect busy seen w) := by
  cases s with
  | nanoid => exact { World.Grows.refl w with nextId := Nat.le_succ _ }
  | outside s =>
      cases s with
      | createPayout mock p n =>
          simp only [Stmt.effect, OutsideStmt.effect]
          split_ifs
          · exact { World.Grows.refl w with }
          · exact .refl w
      | sendRawTransaction p ks n =>
          simp only [Stmt.effect, OutsideStmt.effect]
          split_ifs
          · exact { World.Grows.refl w with
              nextId := Nat.le_succ _
              chain := fun tx htx => ⟨tx, List.mem_cons_of_mem _ htx, rfl, id⟩ }
          · exact .refl w
  | _ => exact .refl w

/-- What a statement executed on the committed state writes. -/
theorem Stmt.write_grows (s : Stmt) : w.Grows (s.write busy w w) := by
  cases s with
  | bounty s =>
      cases s with
      | setStatus b st at? =>
          exact { World.Grows.refl w with bounties := .modify fun _ => rfl }
  | job s => exact { World.Grows.refl w with jobs := s.persists }
  | submission s => exact { World.Grows.refl w with submissions := s.persists }
  | verification s => exact { World.Grows.refl w with verifications := s.persists }
  | payout s => exact { World.Grows.refl w with payouts := s.persists }
  | dispute s => exact { World.Grows.refl w with disputes := s.persists }
  | reservation s => exact { World.Grows.refl w with reservations := s.persists }
  | account s => exact { World.Grows.refl w with accounts := s.persists }
  | outbox s => exact { World.Grows.refl w with outbox := s.persists }
  | billing e =>
      refine { World.Grows.refl w with billing := ?_ }
      simp only [Stmt.write]
      split_ifs
      · exact List.suffix_cons e w.billing
      · exact List.suffix_refl _
  | _ => exact { World.Grows.refl w with }

/-- Every statement outside a transaction. -/
theorem Stmt.grows (s : Stmt) : w.Grows (s.write busy w (s.effect busy w w)) := by
  cases s with
  | nanoid => exact @Stmt.effect_grows busy w .nanoid w
  | outside s => exact @Stmt.effect_grows busy w (.outside s) w
  | bounty s => exact Stmt.write_grows (.bounty s)
  | job s => exact Stmt.write_grows (.job s)
  | submission s => exact Stmt.write_grows (.submission s)
  | verification s => exact Stmt.write_grows (.verification s)
  | payout s => exact Stmt.write_grows (.payout s)
  | dispute s => exact Stmt.write_grows (.dispute s)
  | reservation s => exact Stmt.write_grows (.reservation s)
  | account s => exact Stmt.write_grows (.account s)
  | outbox s => exact Stmt.write_grows (.outbox s)
  | billing e => exact Stmt.write_grows (.billing e)
  | _ => exact { World.Grows.refl w with }

end Statements

/-- The outside moves only forward. -/
theorem Outdoors.apply_grows (e : Outdoors) (w : World) : w.Grows (e.apply w) := by
  cases e with
  | tick ms => exact { World.Grows.refl w with now := Nat.le_add_right _ _ }
  | answers o => exact { World.Grows.refl w with }
  | revert h =>
      refine { World.Grows.refl w with chain := fun tx htx => ?_ }
      refine ⟨_, List.mem_map_of_mem htx, ?_, ?_⟩ <;> split_ifs <;> simp [ChainTx.content]

end OpenUnion
