import OpenUnion.Safety.Splits

/-!
# A payout is refunded once

`resolveDisputeAdmin` locks the dispute and its payout, and credits the organisation
only if the payout is neither paid nor refunded; the credit, the billing event, the
payout and the dispute are written by one transaction.  If the payout is refunded
already it returns the dispute as it is, which is then still open.

* `refund_exact`: as long as no refund resolution meets a payout that is refunded
  already, and no `markPayoutStatus` overwrites a refunded payout, each refund
  resolution credits the organisation of the payout with exactly the amount less the
  proofwork fee, closes the dispute and leaves the payout refunded, and no payout has
  two refunds booked.
* `second_dispute_stays_open`: a run in which a resolution meets a refunded payout.
-/

namespace OpenUnion

open Interleave

/-- The event is the refund of payout `p`. -/
def BillingEvent.refunds (p : Nat) (e : BillingEvent) : Bool :=
  match e.kind with
  | .disputeRefund _ q => decide (q = p)
  | _ => false

/-- The refunds booked for payout `p`. -/
def refundsOf (p : Nat) (billing : List BillingEvent) : List BillingEvent :=
  billing.filter (BillingEvent.refunds p)

/-- The cents refunded for payout `p`. -/
def refundedCents (p : Nat) (billing : List BillingEvent) : Int :=
  ((refundsOf p billing).map BillingEvent.amountCents).sum

/-- No payout has two refunds booked, and one that has a refund booked is refunded. -/
def RefundedOnce (w : World) : Prop :=
  ∀ p, refundsOf p w.billing = [] ∨
    ∃ e row, refundsOf p w.billing = [e] ∧ w.payouts p = some row ∧ row.status = .refunded

/-- Disputes belong to the organisation of their payout. -/
def DisputesOwned (w : World) : Prop :=
  AllRows (fun _ row => ∀ p, row.payoutId = some p → w.payoutOwner p = some row.orgId) w.disputes

/-- The payout of dispute `d` is not refunded. -/
def World.refundable (w : World) (d : Nat) : Bool :=
  (w.disputes d).all fun row => row.payoutId.all fun p =>
    (w.payouts p).all fun payout => !decide (payout.status = .refunded)

/-- No refund resolution meets a refunded payout, and no refunded payout gets another
status. -/
def refundsOnce : Step → Glob World Unit → Bool
  | .event _ (.commit (.resolveDispute d true)), g => g.world.refundable d
  | .event _ (.stmt (.payout (.setStatus i st _ _)) _), g =>
      (g.world.payouts i).all fun p => !decide (p.status = .refunded) || decide (st = .refunded)
  | _, _ => true

/-- A refund resolution: the organisation of the payout is credited with the amount
less the proofwork fee, the dispute is closed and the payout refunded. -/
def Refunds (d : Nat) (w w' : World) : Prop :=
  ∃ row p payout, w.disputes d = some row ∧ row.payoutId = some p ∧ w.payouts p = some payout ∧
    w.payoutOwner p = some row.orgId ∧ refundedCents p w.billing = 0 ∧
    (∀ o, balanceIn w'.accounts o =
      balanceIn w.accounts o + if o = row.orgId then (payout.refundCents : Int) else 0) ∧
    refundedCents p w'.billing = payout.refundCents ∧
    (∃ row', w'.disputes d = some row' ∧ row'.status ≠ .opened) ∧
    ∃ payout', w'.payouts p = some payout' ∧ payout'.status = .refunded

section Steps

variable {w w' : World} {p : Nat}

/-- Refunded payouts stay refunded. -/
def StaysRefunded (payouts payouts' : Nat → Option Payout) : Prop :=
  ∀ i p, payouts i = some p → p.status = .refunded →
    ∃ p', payouts' i = some p' ∧ p'.status = .refunded

theorem RefundedOnce.kept (h : RefundedOnce w) (hstays : StaysRefunded w.payouts w'.payouts)
    (hrefunds : ∀ p, refundsOf p w'.billing = refundsOf p w.billing) : RefundedOnce w' := by
  intro p
  rw [hrefunds p]
  obtain hnone | ⟨e, row, hone, hrow, hstatus⟩ := h p
  · exact Or.inl hnone
  · obtain ⟨row', hrow', hstatus'⟩ := hstays p row hrow hstatus
    exact Or.inr ⟨e, row', hone, hrow', hstatus'⟩

theorem refundsOf_cons {e : BillingEvent} {b : List BillingEvent} (h : e.refunds p = false) :
    refundsOf p (e :: b) = refundsOf p b := by
  simp [refundsOf, h]

/-- A statement that sets no other status on a refunded payout. -/
theorem StaysRefunded.stmt {q : Request} {s : PayoutStmt} (hexec : q.Executes (.payout s))
    (hok : ∀ i st pr ref, s = .setStatus i st pr ref → ∀ p, w.payouts i = some p →
      p.status = .refunded → st = .refunded) :
    StaysRefunded w.payouts (s.write w w.payouts) := by
  intro k p hp hrefunded
  obtain ⟨id, new, rfl, -⟩ | ⟨i, fees, rfl⟩ | ⟨i, st, pr, ref, rfl⟩ | ⟨i, rfl⟩ :=
    Request.executes_payout hexec
  · simp only [PayoutStmt.write]
    split_ifs with hclash
    · exact ⟨p, hp, hrefunded⟩
    · by_cases hk : k = PayoutStmt.target id new w
      · subst hk
        exact ⟨_, Function.update_self .., by simpa [PayoutStmt.upserted, hp] using hrefunded⟩
      · exact ⟨p, by simpa [hk] using hp, hrefunded⟩
  · exact ⟨_, modify_eq_some hp, by split_ifs <;> exact hrefunded⟩
  · refine ⟨_, modify_eq_some hp, ?_⟩
    split_ifs with hk
    · subst hk
      exact hok k st pr ref rfl p hp hrefunded
    · exact hrefunded
  · refine ⟨_, modify_eq_some hp, ?_⟩
    split_ifs <;> exact hrefunded

theorem StaysRefunded.commit {cfg : Config} {hold : Lock → World → World → Prop} {pid : Nat}
    {t : Tag} {L : List Lock} (h : t.Effect cfg hold pid L w w') :
    StaysRefunded w.payouts w'.payouts := by
  intro i p hp hrefunded
  obtain ⟨p', hp', hcommit⟩ := h.payout hp
  refine ⟨p', hp', ?_⟩
  cases hcommit with
  | refunded d row _ _ _ _ _ => rfl
  | _ => exact hrefunded

/-- What a refund resolution does when the payout is not refunded yet. -/
theorem DisputeRefunded.refunds {d : Nat} (h : DisputeRefunded d w w') (honce : RefundedOnce w)
    (howned : DisputesOwned w) : Refunds d w w' ∧ RefundedOnce w' := by
  obtain ⟨row, p, payout, accounts, accounts', billing, submissions, now, hrow, -, hp, hpayout, -,
    hrefunded, hensures, hcredits, -, rfl⟩ := h
  have hnone : refundsOf p w.billing = [] := by
    obtain hnone | ⟨e, row', -, hrow', hstatus⟩ := honce p
    · exact hnone
    · obtain rfl := Option.some.inj (hpayout.symm.trans hrow')
      exact absurd hstatus hrefunded
  have hbalance : balanceIn accounts = balanceIn w.accounts := hensures.balance
  have hledger : (∀ o, balanceIn accounts' o =
        balanceIn w.accounts o + if o = row.orgId then (payout.refundCents : Int) else 0) ∧
      refundedCents p billing = payout.refundCents ∧
      (∀ q, q ≠ p → refundsOf q billing = refundsOf q w.billing) ∧
      (refundsOf p billing = [] ∨ ∃ e, refundsOf p billing = [e]) := by
    obtain ⟨hzero, rfl, rfl⟩ | ⟨t, -, -, hsome, rfl, rfl⟩ := hcredits
    · refine ⟨fun o => ?_, ?_, fun _ _ => rfl, Or.inl hnone⟩
      · rw [hbalance, hzero]
        simp
      · simp [refundedCents, hnone, hzero]
    · refine ⟨fun o => ?_, ?_, fun q hq => ?_,
        Or.inr ⟨⟨row.orgId, .disputeRefund d p, payout.refundCents, t⟩, ?_⟩⟩
      · rw [← hbalance]
        exact balanceIn_modify hsome (fun _ => rfl) o
      · have hrest : refundsOf p w.billing = [] := hnone
        simp only [refundedCents, refundsOf] at hrest ⊢
        simp [BillingEvent.refunds, hrest]
      · exact refundsOf_cons (by simp [BillingEvent.refunds, Ne.symm hq])
      · simp only [refundsOf] at hnone ⊢
        rw [List.filter_cons_of_pos (by simp [BillingEvent.refunds]), hnone]
  obtain ⟨hbalances, hcents, hothers, hone⟩ := hledger
  refine ⟨⟨row, p, payout, hrow, hp, hpayout, howned d row hrow p hp, ?_, hbalances, hcents, ?_, ?_⟩,
    fun q => ?_⟩
  · simp [refundedCents, hnone]
  · exact ⟨_, modify_row hrow, by simp [DisputeStmt.closed]⟩
  · exact ⟨_, modify_row hpayout, rfl⟩
  · by_cases hq : q = p
    · subst hq
      obtain h | ⟨e, he⟩ := hone
      · exact Or.inl h
      · exact Or.inr ⟨e, _, he, modify_row hpayout, rfl⟩
    · have hrow' : modify w.payouts p (fun r => { r with
          status := .refunded, blockedReason := some .disputeRefund }) q = w.payouts q :=
        modify_of_ne hq
      rw [hothers q hq]
      obtain h | ⟨e, row', he, hrow₀, hstatus⟩ := honce q
      · exact Or.inl h
      · exact Or.inr ⟨e, row', he, hrow'.trans hrow₀, hstatus⟩

/-- Disputes as they were keep their organisation. -/
theorem DisputesOwned.kept (h : DisputesOwned w) (hgrow : w.Grows w')
    (hdisputes : w'.disputes = w.disputes) : DisputesOwned w' := by
  intro d row hrow p hp
  rw [hdisputes] at hrow
  exact hgrow.payoutOwner (h d row hrow p hp)

theorem DisputesOwned.commit {cfg : Config} {hold : Lock → World → World → Prop} {pid : Nat}
    {t : Tag} {L : List Lock} (howned : DisputesOwned w) (h : t.Effect cfg hold pid L w w') :
    DisputesOwned w' := by
  intro d row' hrow' p hp
  refine h.grows.payoutOwner ?_
  obtain ⟨row, hrow, hcommit⟩ | ⟨p', -, -, hp', -, howner⟩ := h.dispute_of hrow'
  · have htarget := hcommit.target
    have horg : row'.orgId = row.orgId := congrArg Prod.fst htarget
    have hpayout : row'.payoutId = row.payoutId := congrArg (fun t => t.2.2.2) htarget
    rw [horg]
    exact howned d row hrow p (hpayout ▸ hp)
  · obtain rfl : p' = p := Option.some.inj (hp'.symm.trans hp)
    exact howner

/-- A commit that books no refund. -/
theorem refundsOf_commit {cfg : Config} {hold : Lock → World → World → Prop} {pid : Nat}
    {t : Tag} {L : List Lock} (h : t.Effect cfg hold pid L w w')
    (ht : ∀ d, t ≠ .resolveDispute d true) : refundsOf p w'.billing = refundsOf p w.billing := by
  obtain ⟨-, hsame⟩ | ⟨e, hkind, hbilling, -⟩ := h.ledger
  · rw [hsame]
  · rw [hbilling]
    refine refundsOf_cons ?_
    cases t with
    | resolveDispute d refund =>
        obtain ⟨rfl, -⟩ := hkind
        exact absurd rfl (ht d)
    | publishBounty b | closeBounty b c | stripeWebhook i =>
        have hkind : e.kind = _ := hkind
        simp [BillingEvent.refunds, hkind]
    | _ => exact hkind.elim

end Steps

/-- The plan: refunds are booked once, disputes are those of the payout's organisation. -/
def refundPlan (cfg : Config) : Plan (system cfg noNotes) :=
  systemPlan cfg noNotes refundsOnce (fun _ => True)
    (fun g => RefundedOnce g.world ∧ DisputesOwned g.world) (fun _ _ _ => True) fun _ _ _ => True

/-- A step books no refund, or is a refund resolution. -/
theorem refundPlan_step {cfg : Config} {l : Step} {L : List Lock} {g g' : Glob World Unit}
    (h : (refundPlan cfg).Move l L g g') :
    (RefundedOnce g'.world ∧ DisputesOwned g'.world) ∧
      (∀ a d, l = .event a (.commit (.resolveDispute d true)) → Refunds d g.world g'.world) ∧
      ((∀ a d, l ≠ .event a (.commit (.resolveDispute d true))) →
        ∀ p, refundsOf p g'.world.billing = refundsOf p g.world.billing) := by
  have hgrown := Conducted.grows (fun a g t L w
    (hcom : a.req.Ends t ∧ t.Effect cfg (fun _ _ _ => True) a.pid L g.world w) => hcom.2.grows)
    h.conducted
  obtain ⟨hinv, hok, hstep⟩ := h
  obtain ⟨honce, howned⟩ : RefundedOnce g.world ∧ DisputesOwned g.world := hinv
  have hquiet : StaysRefunded g.world.payouts g'.world.payouts →
      (∀ p, refundsOf p g'.world.billing = refundsOf p g.world.billing) →
      g'.world.disputes = g.world.disputes → (∀ a d, l ≠ .event a (.commit (.resolveDispute d true))) →
      (RefundedOnce g'.world ∧ DisputesOwned g'.world) ∧
        (∀ a d, l = .event a (.commit (.resolveDispute d true)) → Refunds d g.world g'.world) ∧
        ((∀ a d, l ≠ .event a (.commit (.resolveDispute d true))) →
          ∀ p, refundsOf p g'.world.billing = refundsOf p g.world.billing) :=
    fun hstays hrefunds hdisputes hl => ⟨⟨honce.kept hstays hrefunds, howned.kept hgrown hdisputes⟩,
      fun a d h => absurd h (hl a d), fun _ => hrefunds⟩
  have hsame : g'.world.payouts = g.world.payouts → StaysRefunded g.world.payouts g'.world.payouts :=
    fun h i p hp hrefunded => ⟨p, by rw [h, hp], hrefunded⟩
  cases hstep with
  | stmt a s busy _ _ _ hout =>
      have hpayouts := s.apply_payouts busy g.world
      have hbilling := s.apply_billing busy g.world
      have hdisputes := s.apply_disputes busy g.world
      cases s with
      | payout s =>
          refine hquiet ?_ (fun p => congrArg (refundsOf p) hbilling) hdisputes (by simp)
          change StaysRefunded g.world.payouts ((Stmt.payout s).apply busy g.world).payouts
          rw [hpayouts]
          refine StaysRefunded.stmt hout.1 fun i st pr ref hs p hp hrefunded => ?_
          subst hs
          have hok : (g.world.payouts i).all (fun p => !decide (p.status = .refunded) ||
              decide (st = .refunded)) = true := hok
          simpa [hp, hrefunded] using hok
      | billing e =>
          obtain ⟨o, n, -, -, hkind, -⟩ := Request.executes_billing hout.1
          refine hquiet (hsame hpayouts) (fun p => ?_) hdisputes (by simp)
          change refundsOf p ((Stmt.billing e).apply busy g.world).billing = _
          rw [hbilling]
          dsimp only
          split_ifs
          · exact refundsOf_cons (by simp [BillingEvent.refunds, hkind])
          · rfl
      | dispute s => exact absurd hout.1 Request.executes_dispute
      | _ => exact hquiet (hsame hpayouts) (fun p => congrArg (refundsOf p) hbilling) hdisputes (by simp)
  | inner a s busy v _ _ _ =>
      exact hquiet (hsame (Stmt.effect_payouts s busy _ _))
        (fun p => congrArg (refundsOf p) (Stmt.effect_billing s busy _ _))
        (Stmt.effect_disputes s busy _ _) (by simp)
  | commit a t L v _ _ hcom =>
      obtain ⟨-, heffect⟩ := hcom
      by_cases ht : ∃ d, t = .resolveDispute d true
      · obtain ⟨d, rfl⟩ := ht
        obtain ⟨-, hrefunded⟩ | ⟨-, hrefunded⟩ | ⟨hfalse, -⟩ := id heffect
        · -- the condition excludes a payout that is refunded already
          obtain ⟨row, p, payout, hrow, -, hp, hpayout, hstatus⟩ := hrefunded
          have hok : g.world.refundable d = true := hok
          simp [World.refundable, hrow, hp, hpayout, hstatus] at hok
        · obtain ⟨hrefunds, honce'⟩ := hrefunded.refunds honce howned
          refine ⟨⟨honce', howned.commit heffect⟩, fun a' d' h => ?_, fun h => absurd rfl (h a d)⟩
          obtain ⟨-, rfl⟩ : a = a' ∧ d = d' := by simpa using h
          exact hrefunds
        · exact absurd hfalse (by simp)
      · have hrefunds : ∀ p, refundsOf p (v g.world).billing = refundsOf p g.world.billing :=
          fun p => refundsOf_commit heffect fun d h => ht ⟨d, h⟩
        have hstays : StaysRefunded g.world.payouts (v g.world).payouts := .commit heffect
        refine ⟨⟨honce.kept hstays hrefunds, howned.commit heffect⟩, fun a' d h => ?_, fun _ => hrefunds⟩
        exact absurd ⟨d, (by simpa using h : a = a' ∧ t = .resolveDispute d true).2⟩ ht
  | reply a x _ _ => exact hquiet (hsame rfl) (fun _ => rfl) rfl (by simp)
  | env e _ =>
      cases e <;> exact hquiet (hsame rfl) (fun _ => rfl) rfl (by simp)

theorem refundPlan_valid (cfg : Config) : (refundPlan cfg).Valid :=
  systemPlan_valid (fun _ _ _ => trivial) (fun _ _ _ _ h => (refundPlan_step h).1)
    (fun _ _ _ _ _ _ => trivial) (fun _ _ _ _ _ _ _ => trivial)

/-- **A payout is refunded once and exactly**, in every run in which no refund
resolution meets a refunded payout and no refunded payout gets another status. -/
theorem refund_exact {cfg : Config} {w : World} {cs : List Pick} {c c' : State Unit} {ch : Pick}
    {l : Step} (honce : RefundedOnce w) (howned : DisputesOwned w)
    (hrun : (system cfg noNotes).exec refundsOnce cs (Sys.start w) = some c)
    (hmove : (system cfg noNotes).move ch c = some (l, c')) (hok : refundsOnce l c.glob = true) :
    RefundedOnce c.glob.world ∧
      (∀ a d, l = .event a (.commit (.resolveDispute d true)) → Refunds d c.glob.world c'.glob.world) ∧
      ((∀ a d, l ≠ .event a (.commit (.resolveDispute d true))) → ∀ p,
        refundedCents p c'.glob.world.billing = refundedCents p c.glob.world.billing) := by
  refine ⟨((refundPlan_valid cfg).exec_inv ⟨honce, howned⟩ hrun).1, ?_⟩
  obtain ⟨hsame, hquiet⟩ | ⟨a, x, L, rfl, h⟩ | ⟨e, rfl, h⟩ :=
    (refundPlan_valid cfg).exec_step ⟨honce, howned⟩ hrun hmove hok
  · exact ⟨fun a d h => absurd h (hquiet a _), fun _ p => by rw [hsame]⟩
  · obtain ⟨-, hrefunds, hkept⟩ := refundPlan_step h
    exact ⟨hrefunds, fun hl p => by rw [refundedCents, hkept hl p, refundedCents]⟩
  · obtain ⟨-, hrefunds, hkept⟩ := refundPlan_step h
    exact ⟨hrefunds, fun hl p => by rw [refundedCents, hkept hl p, refundedCents]⟩

/-- A payout of 10 dollars in its hold window; nothing is booked yet. -/
def disputeWorld : World :=
  { cryptoWorld with
    payouts := Function.update World.empty.payouts 1
      (some ⟨1, 1, 1000, .pending, none, none, false, ⟨941, 50, 500, some 8, 9, 100, some 9⟩,
        some 100000, none⟩)
    accounts := Function.update World.empty.accounts 1 (some ⟨0⟩) }

theorem disputeWorld_refundedOnce : RefundedOnce disputeWorld := fun _ => Or.inl rfl

theorem disputeWorld_disputesOwned : DisputesOwned disputeWorld :=
  fun d row h => absurd h (by simp [disputeWorld, cryptoWorld, World.empty])

/-- The organisation opens a dispute on the payout and an admin refunds it. -/
def disputeAndRefund : List Pick :=
  .spawn (.createDispute 1 (some 1) none) :: @List.replicate Pick 12 (.run 0) ++
    .spawn (.resolveDispute 5 true) :: @List.replicate Pick 11 (.run 1)

/-- The commit of the resolution of a dispute with a refund. -/
def resolves (d : Nat) : Step → Bool
  | .event _ (.commit (.resolveDispute i true)) => decide (i = d)
  | _ => false

theorem refund_exact_dispute :
    ∃ c l c', (system Config.default noNotes).exec refundsOnce disputeAndRefund
        (Sys.start disputeWorld) = some c ∧
      (system Config.default noNotes).move (.run 1) c = some (l, c') ∧
      Refunds 5 c.glob.world c'.glob.world := by
  obtain ⟨c, l, c', hrun, hmove, h⟩ := runs_and_moves Config.default noNotes refundsOnce
    disputeAndRefund disputeWorld (.run 1)
    (fun l c _ => refundsOnce l c.glob && resolves 5 l) (by decide)
  obtain ⟨hok, hl⟩ := (Bool.and_eq_true _ _).mp h
  obtain ⟨-, hrefunds, -⟩ := refund_exact disputeWorld_refundedOnce disputeWorld_disputesOwned
    hrun hmove hok
  refine ⟨c, l, c', hrun, hmove, ?_⟩
  unfold resolves at hl
  split at hl
  · obtain rfl := of_decide_eq_true hl
    exact hrefunds _ 5 rfl
  · exact absurd hl (by simp)

/-- After the refund the organisation disputes the same payout again, and an admin
resolves the second dispute. -/
def secondDispute : List Pick :=
  disputeAndRefund ++ @List.replicate Pick 2 (.run 1) ++
    .spawn (.createDispute 1 (some 1) none) :: @List.replicate Pick 12 (.run 2) ++
    .spawn (.resolveDispute 6 true) :: @List.replicate Pick 4 (.run 3)

/-- The resolution of the second dispute commits and leaves it open. -/
theorem second_dispute_stays_open :
    ∃ c l c' a row, (system Config.default noNotes).exec (fun _ _ => true) secondDispute
        (Sys.start disputeWorld) = some c ∧
      (system Config.default noNotes).move (.run 3) c = some (l, c') ∧
      l = .event a (.commit (.resolveDispute 6 true)) ∧
      c'.glob.world.disputes 6 = some row ∧ row.status = .opened := by
  obtain ⟨c, l, c', hrun, hmove, h⟩ := runs_and_moves Config.default noNotes (fun _ _ => true)
    secondDispute disputeWorld (.run 3)
    (fun l _ c' => resolves 6 l &&
      (c'.glob.world.disputes 6).any fun row : Dispute => decide (row.status = .opened))
    (by decide)
  obtain ⟨hl, hany⟩ := (Bool.and_eq_true _ _).mp h
  obtain ⟨row, hrow, hopen⟩ := (Option.any_eq_true _ _).mp hany
  rw [decide_eq_true_eq] at hopen
  unfold resolves at hl
  split at hl
  · obtain rfl := of_decide_eq_true hl
    exact ⟨c, _, c', _, row, hrun, hmove, rfl, hrow, hopen⟩
  · exact absurd hl (by simp)

end OpenUnion
