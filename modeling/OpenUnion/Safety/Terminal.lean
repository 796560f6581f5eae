import OpenUnion.Safety.Basic

/-!
# Paid and refunded payouts

`resolveDisputeAdmin` looks at the status of a payout under the row lock before it
refunds it.  The other writers of the row, `addPayout`, `markPayoutStatus`, the
provider branch of `handlePayoutRequested` and the broadcast, write by id after an
earlier read, so what they write is right only as long as the payout has not become
paid or refunded since.

* `terminal_immutable`: in any run in which each of these writes meets a payout that
  is neither, a paid or refunded payout keeps its status, amount, split and hold
  window for good.
* `late_failure_overwrites_paid`: a run in which a late `markPayoutStatus` turns a
  paid payout into a failed one.
-/

namespace OpenUnion

open Interleave

/-- Paid or refunded. -/
def Payout.terminal (p : Payout) : Bool := decide (p.status = .paid ∨ p.status = .refunded)

/-- What is settled when a payout is paid or refunded. -/
def Payout.settlement (p : Payout) : PayoutStatus × Nat × (Nat × Nat × Nat) × Option Nat :=
  (p.status, p.amountCents,
    (p.fees.netAmountCents, p.fees.platformFeeCents, p.fees.proofworkFeeCents), p.holdUntil)

/-- Payout `i` is neither paid nor refunded. -/
def World.unsettled (w : World) (i : Nat) : Bool := (w.payouts i).all fun p => !p.terminal

/-- The write meets a payout that is neither paid nor refunded, or sets the status it has. -/
def PayoutStmt.sparesTerminal (w : World) : PayoutStmt → Bool
  | .upsert i p => w.unsettled (PayoutStmt.target i p w)
  | .setFees i _ => w.unsettled i
  | .setStatus i st _ _ => (w.payouts i).all fun p => !p.terminal || decide (st = p.status)
  | _ => true

/-- No payout is written without a look at its status once it is paid or refunded. -/
def sparesTerminal : Step → Glob World Unit → Bool
  | .event _ (.stmt (.payout s) _), g => s.sparesTerminal g.world
  | .event _ (.commit (.broadcast i _)), g => g.world.unsettled i
  | _, _ => true

/-- Settled payouts stay as they are. -/
def Settles (payouts payouts' : Nat → Option Payout) : Prop :=
  ∀ i p, payouts i = some p → p.terminal = true →
    ∃ p', payouts' i = some p' ∧ p'.settlement = p.settlement

section Steps

variable {t t' t'' : Nat → Option Payout} {w : World}

theorem Settles.refl : Settles t t := fun _ p hp _ => ⟨p, hp, rfl⟩

theorem Payout.terminal_of_settlement {p p' : Payout} (h : p'.settlement = p.settlement) :
    p'.terminal = p.terminal := by
  have hstatus : p'.status = p.status := congrArg Prod.fst h
  simp [Payout.terminal, hstatus]

theorem Settles.trans (h : Settles t t') (h' : Settles t' t'') : Settles t t'' := by
  intro i p hp hterminal
  obtain ⟨p', hp', hsame⟩ := h i p hp hterminal
  obtain ⟨p'', hp'', hsame'⟩ := h' i p' hp' ((Payout.terminal_of_settlement hsame).trans hterminal)
  exact ⟨p'', hp'', hsame'.trans hsame⟩

theorem Settles.modify {k : Nat} {f : Payout → Payout}
    (hf : ∀ p, t k = some p → p.terminal = true → (f p).settlement = p.settlement) :
    Settles t (modify t k f) := by
  intro i p hp hterminal
  refine ⟨_, modify_eq_some hp, ?_⟩
  split_ifs with hk
  · subst hk
    exact hf p hp hterminal
  · rfl

theorem not_terminal_of_unsettled {i : Nat} {p : Payout} (h : w.unsettled i = true)
    (hp : w.payouts i = some p) : p.terminal = false := by
  simpa [World.unsettled, hp] using h

/-- A statement on `payouts` that spares settled payouts. -/
theorem Settles.stmt {q : Request} {s : PayoutStmt} (hexec : q.Executes (.payout s))
    (hok : s.sparesTerminal w = true) : Settles w.payouts (s.write w w.payouts) := by
  obtain ⟨id, new, rfl, -⟩ | ⟨i, fees, rfl⟩ | ⟨i, st, pr, ref, rfl⟩ | ⟨i, rfl⟩ :=
    Request.executes_payout hexec
  · intro i p hp hterminal
    simp only [PayoutStmt.write]
    split_ifs with hclash
    · exact ⟨p, hp, rfl⟩
    · have hne : i ≠ PayoutStmt.target id new w := by
        rintro rfl
        rw [not_terminal_of_unsettled hok hp] at hterminal
        exact absurd hterminal (by simp)
      exact ⟨p, by simpa [hne] using hp, rfl⟩
  · refine Settles.modify fun p hp hterminal => ?_
    rw [not_terminal_of_unsettled hok hp] at hterminal
    exact absurd hterminal (by simp)
  · refine Settles.modify fun p hp hterminal => ?_
    have hstatus : st = p.status := by
      simpa [PayoutStmt.sparesTerminal, hp, hterminal] using hok
    simp [Payout.settlement, PayoutStmt.setStatus', hstatus]
  · refine Settles.modify fun p hp hterminal => ?_
    split_ifs <;> rfl

/-- A commit that spares settled payouts. -/
theorem Settles.commit {cfg : Config} {hold : Lock → World → World → Prop} {pid : Nat}
    {tag : Tag} {L : List Lock} {w' : World} (h : tag.Effect cfg hold pid L w w')
    (hok : ∀ i hash, tag = .broadcast i hash → w.unsettled i = true) :
    Settles w.payouts w'.payouts := by
  intro i p hp hterminal
  obtain ⟨p', hp', hcommit⟩ := h.payout hp
  refine ⟨p', hp', ?_⟩
  have hopen : p.status ≠ .paid → p.status ≠ .refunded → False := fun hpaid hrefunded => by
    simp [Payout.terminal, hpaid, hrefunded] at hterminal
  cases hcommit with
  | refunded d row _ _ _ hpaid hrefunded => exact (hopen hpaid hrefunded).elim
  | sent hash fees _ =>
      rw [not_terminal_of_unsettled (hok i hash rfl) hp] at hterminal
      exact absurd hterminal (by simp)
  | _ => rfl

end Steps

/-- The plan: nothing is needed but the condition. -/
def terminalPlan (cfg : Config) : Plan (system cfg noNotes) :=
  systemPlan cfg noNotes sparesTerminal (fun _ => True) (fun _ => True) (fun _ _ _ => True)
    fun _ _ _ => True

theorem terminalPlan_valid (cfg : Config) : (terminalPlan cfg).Valid :=
  systemPlan_valid (fun _ _ _ => trivial) (fun _ _ _ _ _ => trivial) (fun _ _ _ _ _ _ => trivial)
    (fun _ _ _ _ _ _ _ => trivial)

/-- Every step leaves settled payouts as they are. -/
theorem terminalPlan_step {cfg : Config} {l : Step} {L : List Lock} {g g' : Glob World Unit}
    (h : (terminalPlan cfg).Move l L g g') : Settles g.world.payouts g'.world.payouts := by
  obtain ⟨-, hok, hstep⟩ := h
  cases hstep with
  | stmt a s busy _ _ _ hout =>
      have hpayouts := s.apply_payouts busy g.world
      cases s with
      | payout s =>
          change Settles g.world.payouts ((Stmt.payout s).apply busy g.world).payouts
          rw [hpayouts]
          exact Settles.stmt hout.1 hok
      | _ => exact hpayouts ▸ Settles.refl
  | inner a s busy v _ _ _ =>
      exact (Stmt.effect_payouts s busy (v g.world) g.world).symm ▸ Settles.refl
  | commit a t L v _ _ hcom =>
      refine Settles.commit hcom.2 fun i hash ht => ?_
      subst ht
      exact hok
  | reply a x _ _ => exact .refl
  | env e _ => cases e <;> exact .refl

/-- **Paid and refunded payouts are immutable** in every run in which no write that
does not look meets one. -/
theorem terminal_immutable {cfg : Config} {w : World} {cs cs' : List Pick} {c c' : State Unit}
    {i : Nat} {p : Payout} (hrun : (system cfg noNotes).exec sparesTerminal cs (Sys.start w) = some c)
    (hp : c.glob.world.payouts i = some p) (hterminal : p.terminal = true)
    (hrun' : (system cfg noNotes).exec sparesTerminal cs' c = some c') :
    ∃ p', c'.glob.world.payouts i = some p' ∧ p'.settlement = p.settlement := by
  have hsettles : Settles c.glob.world.payouts c'.glob.world.payouts :=
    (terminalPlan_valid cfg).exec_rel
      (r := fun g g' : Glob World Unit => Settles g.world.payouts g'.world.payouts)
      (fun _ => .refl) (fun _ _ _ => Settles.trans) (fun _ _ _ _ h => terminalPlan_step h) trivial hrun hrun'
  exact hsettles i p hp hterminal

/-- A payout is paid; then its event is marked sent and the round ends. -/
theorem terminal_immutable_paid :
    ∃ c c' p p',
      (system Config.default noNotes).exec sparesTerminal
        (.spawn .payoutRunner :: List.replicate 12 (.run 0)) (Sys.start payoutWorld) = some c ∧
      (system Config.default noNotes).exec sparesTerminal (List.replicate 2 (.run 0)) c = some c' ∧
      c.glob.world.payouts 1 = some p ∧ p.status = .paid ∧ c'.glob.world.payouts 1 = some p' ∧
      p'.settlement = p.settlement := by
  obtain ⟨c, hrun, h⟩ := runs Config.default noNotes sparesTerminal
    (.spawn .payoutRunner :: List.replicate 12 (.run 0)) payoutWorld
    (fun c => ((c.glob.world.payouts 1).any fun p : Payout => decide (p.status = .paid)) &&
      ((system Config.default noNotes).exec sparesTerminal (List.replicate 2 (.run 0)) c).isSome)
    (by decide)
  simp only [Bool.and_eq_true] at h
  obtain ⟨p, hp, hpaid⟩ := (Option.any_eq_true _ _).mp h.1
  obtain ⟨c', hrun'⟩ := Option.isSome_iff_exists.mp h.2
  rw [decide_eq_true_eq] at hpaid
  obtain ⟨p', hp', hsame⟩ :=
    terminal_immutable hrun hp (by simp [Payout.terminal, hpaid]) hrun'
  exact ⟨c, c', p, p', hrun, hrun', hp, hpaid, hp', hsame⟩

/-- No break-glass route is asked for. -/
def noBreakGlass : Step → Glob World Unit → Bool
  | .spawn (.markPayout _ _ _ _ _), _ | .spawn (.overrideVerdict _ _ _), _ => false
  | _, _ => true

/-- Payouts through a provider over HTTP. -/
def Config.http : Config := { Config.default with paymentsProvider := .http }

/-- The provider answers the first call that the payout has failed; before that is
written down the lock of the event gets stale and a second delivery is answered that
the payout is paid. -/
def lateFailure : List Pick :=
  .spawn .payoutRunner :: .env (.answers { World.empty.outside with nextProvider := .failed }) ::
    @List.replicate Pick 11 (.run 0) ++
  .env (.answers World.empty.outside) :: .env (.tick 600001) ::
    .spawn .payoutRunner :: @List.replicate Pick 14 (.run 1)

/-- The first delivery marks the paid payout failed. -/
theorem late_failure_overwrites_paid :
    ∃ c l c' p p',
      (system Config.http noNotes).exec noBreakGlass lateFailure (Sys.start payoutWorld) = some c ∧
      (system Config.http noNotes).move (.run 0) c = some (l, c') ∧ noBreakGlass l c.glob = true ∧
      c.glob.world.payouts 1 = some p ∧ p.status = .paid ∧ p.terminal = true ∧
      c'.glob.world.payouts 1 = some p' ∧ p'.status = .failed ∧ p'.settlement ≠ p.settlement := by
  obtain ⟨c, l, c', hrun, hmove, h⟩ := runs_and_moves Config.http noNotes noBreakGlass lateFailure
    payoutWorld (.run 0)
    (fun l c c' => noBreakGlass l c.glob &&
      ((c.glob.world.payouts 1).any fun p : Payout => decide (p.status = .paid)) &&
      (c'.glob.world.payouts 1).any fun p' : Payout => decide (p'.status = .failed))
    (by decide)
  simp only [Bool.and_eq_true] at h
  obtain ⟨⟨hok, hany⟩, hany'⟩ := h
  obtain ⟨p, hp, hpaid⟩ := (Option.any_eq_true _ _).mp hany
  obtain ⟨p', hp', hfailed⟩ := (Option.any_eq_true _ _).mp hany'
  rw [decide_eq_true_eq] at hpaid hfailed
  refine ⟨c, l, c', p, p', hrun, hmove, hok, hp, hpaid, by simp [Payout.terminal, hpaid], hp',
    hfailed, fun hsame => ?_⟩
  have hstatus : p'.status = p.status := congrArg Prod.fst hsame
  rw [hfailed, hpaid] at hstatus
  exact absurd hstatus (by decide)

end OpenUnion
