import OpenUnion.Interleave.Progress
import OpenUnion.Safety.Disputes
import OpenUnion.Safety.Refunds

/-!
# No payout is both paid and refunded

A refund needs an open dispute and a payment needs a payout that no dispute blocks, so
the two exclude each other as long as open disputes block (`open_dispute_blocks`), and
as long as no dispute is opened on a payout that has been settled either way.  The
code does not check the latter: `createDispute` rejects paid payouts only.

* `never_paid_and_refunded`: under these conditions no payout has both a refund booked
  and money sent.
* `refunded_payout_is_paid`: a run in which a second dispute on a refunded payout is
  cancelled, which unblocks the payout.
-/

namespace OpenUnion

open Interleave

/-- Money has been sent for the payout: the provider has answered `paid`, or the chain
has accepted a transaction. -/
def World.sentFor (w : World) (p : Nat) : Bool :=
  decide (p ∈ w.outside.paidCalls) || w.outside.chain.any fun tx => decide (tx.payoutId = p)

/-- Disputes and deliveries keep apart, and no dispute is opened on a payout that is
refunded or for which money has been sent. -/
def disputesUnsettled : Step → Glob World Challenge → Bool
  | .event a (.commit (.createDispute d p)), g =>
      disputesApart (.event a (.commit (.createDispute d p))) g &&
        (refundsOf p g.world.billing).isEmpty && !g.world.sentFor p
  | l, g => disputesApart l g

/-- Refunded payouts stay blocked, and payouts for which money has been sent are neither
refunded nor disputed. -/
structure Settled (w : World) : Prop where
  refunded : ∀ p, refundsOf p w.billing ≠ [] →
    ∃ row, w.payouts p = some row ∧ row.blockedReason = some .disputeRefund
  sent : ∀ p, w.sentFor p = true → refundsOf p w.billing = [] ∧ ∀ d, ¬ OpenOn d p w

theorem disputesApart_of_unsettled {l : Step} {g : Glob World Challenge}
    (h : disputesUnsettled l g = true) : disputesApart l g = true := by
  simp only [disputesUnsettled] at h
  split at h
  · simp only [Bool.and_eq_true] at h
    exact h.1.1
  · exact h

section Steps

variable {w w' : World} {p : Nat}

theorem Undisputed.not_refunded (h : Undisputed p w) (hsettled : Settled w) :
    refundsOf p w.billing = [] := by
  by_contra hrefunded
  obtain ⟨row, hrow, hundisputed⟩ := h
  obtain ⟨row', hrow', hreason⟩ := hsettled.refunded p hrefunded
  obtain rfl := Option.some.inj (hrow.symm.trans hrow')
  simp [Payout.undisputed, hreason] at hundisputed

/-- Money is sent by the two calls outside. -/
theorem Stmt.sentFor_effect (s : Stmt) (busy : Lock → Bool) (seen : World)
    (h : (s.effect busy seen w).sentFor p = true) : w.sentFor p = true ∨ s.actsOn = some p := by
  cases s with
  | outside s =>
      cases s with
      | createPayout mock k n =>
          simp only [Stmt.effect, OutsideStmt.effect] at h
          split_ifs at h
          · by_cases hk : k = p
            · exact Or.inr (congrArg some hk)
            · exact Or.inl (by simpa [World.sentFor, Ne.symm hk] using h)
          · exact Or.inl h
      | sendRawTransaction k call n =>
          simp only [Stmt.effect, OutsideStmt.effect] at h
          split_ifs at h
          · by_cases hk : k = p
            · exact Or.inr (congrArg some hk)
            · exact Or.inl (by simpa [World.sentFor, hk] using h)
          · exact Or.inl h
  | _ => exact Or.inl h

/-- A step that books no refund, opens no dispute and sends money for undisputed payouts
only. -/
theorem Settled.quiet (h : Settled w) (hblock : DisputesBlock w)
    (hbilling : ∀ p, refundsOf p w'.billing = refundsOf p w.billing)
    (hdisputes : w'.disputes = w.disputes)
    (hblocked : ∀ p row, w.payouts p = some row → row.blockedReason = some .disputeRefund →
      ∃ row', w'.payouts p = some row' ∧ row'.blockedReason = some .disputeRefund)
    (hsent : ∀ p, w'.sentFor p = true → w.sentFor p = true ∨ Undisputed p w) : Settled w' where
  refunded p hp := by
    rw [hbilling p] at hp
    obtain ⟨row, hrow, hreason⟩ := h.refunded p hp
    exact hblocked p row hrow hreason
  sent p hp := by
    have hopen : ∀ d, OpenOn d p w' → OpenOn d p w := by
      rintro d ⟨row, hrow, hrest⟩
      exact ⟨row, hdisputes ▸ hrow, hrest⟩
    rw [hbilling p]
    obtain hbefore | hundisputed := hsent p hp
    · exact ⟨(h.sent p hbefore).1, fun d hd => (h.sent p hbefore).2 d (hopen d hd)⟩
    · exact ⟨hundisputed.not_refunded h, fun d hd => hundisputed.not_open hblock d (hopen d hd)⟩

theorem Settled.stmt {q : Request} {s : Stmt} {busy : Lock → Bool} (h : Settled w)
    (hblock : DisputesBlock w) (hexec : q.Executes s)
    (hacts : ∀ p, s.actsOn = some p → Undisputed p w) : Settled (s.apply busy w) := by
  have hbilling := s.apply_billing busy w
  have hpayouts := s.apply_payouts busy w
  refine h.quiet hblock (fun p => ?_) ?_ (fun p row hrow hreason => ?_) fun p hp => ?_
  · cases s with
    | billing e =>
        obtain ⟨o, n, -, -, hkind, -⟩ := Request.executes_billing hexec
        rw [hbilling]
        dsimp only
        split_ifs
        · exact refundsOf_cons (by simp [BillingEvent.refunds, hkind])
        · rfl
    | _ => exact congrArg (refundsOf p) hbilling
  · rw [s.apply_disputes busy w]
    cases s with
    | dispute s => exact absurd hexec Request.executes_dispute
    | _ => rfl
  · cases s with
    | payout s =>
        obtain ⟨row', hrow', hsame | ⟨rfl, -⟩⟩ := PayoutStmt.row_after hexec hrow
        · exact ⟨row', (congrFun hpayouts p).trans hrow', hsame.trans hreason⟩
        · obtain ⟨row'', hrow'', hundisputed⟩ := hacts p rfl
          obtain rfl := Option.some.inj (hrow.symm.trans hrow'')
          simp [Payout.undisputed, hreason] at hundisputed
    | _ => exact ⟨row, (congrFun hpayouts p).trans hrow, hreason⟩
  · have houtside : w.sentFor p = true ∨ s.actsOn = some p := by
      refine s.sentFor_effect busy w ?_
      simpa only [World.sentFor, s.apply_outside busy w] using hp
    exact houtside.imp_right (hacts p)

/-- A refund is booked for the payout of an open dispute. -/
theorem DisputeRefunded.books {d : Nat} (h : DisputeRefunded d w w') :
    ∃ k, OpenOn d k w ∧
      (∃ row, w'.payouts k = some row ∧ row.blockedReason = some .disputeRefund) ∧
      ∀ q, q ≠ k → refundsOf q w'.billing = refundsOf q w.billing := by
  obtain ⟨row, k, payout, accounts, accounts', billing, submissions, now, hrow, hopened, hk, hpayout,
    -, -, -, hcredits, -, rfl⟩ := h
  refine ⟨k, ⟨row, hrow, hk, hopened⟩, ⟨_, modify_row hpayout, rfl⟩, fun q hq => ?_⟩
  obtain ⟨-, -, rfl⟩ | ⟨t, -, -, -, -, rfl⟩ := hcredits
  · rfl
  · exact refundsOf_cons (by simp [BillingEvent.refunds, Ne.symm hq])

variable {cfg : Config} {hold : Lock → World → World → Prop} {pid : Nat} {t : Tag} {L : List Lock}

theorem Settled.commit (h : Settled w) (hblock : DisputesBlock w)
    (heffect : t.Effect cfg hold pid L w w')
    (hok : ∀ d p, t = .createDispute d p → refundsOf p w.billing = [] ∧ w.sentFor p = false) :
    Settled w' := by
  have hsent : ∀ p, w'.sentFor p = w.sentFor p := by
    intro p
    simp only [World.sentFor, heffect.frame.2.1]
  -- a dispute that is open afterwards was open before, or the payout is not settled
  have hopen : ∀ d p, OpenOn d p w' → OpenOn d p w ∨ w.sentFor p = false := by
    rintro d p ⟨row', hrow', hp, hopened⟩
    obtain ⟨row, hrow, hcommit⟩ | ⟨p', rfl, -, hp', -, -⟩ := heffect.dispute_of hrow'
    · obtain rfl := hcommit.opened hopened
      exact Or.inl ⟨row', hrow, hp, hopened⟩
    · obtain rfl : p' = p := Option.some.inj (hp'.symm.trans hp)
      exact Or.inr (hok d p' rfl).2
  -- a refund is booked only for a payout with an open dispute
  have hrefunds : ∀ p, refundsOf p w'.billing = refundsOf p w.billing ∨
      (∃ d, OpenOn d p w) ∧ ∃ row, w'.payouts p = some row ∧ row.blockedReason = some .disputeRefund := by
    intro p
    by_cases ht : ∃ d, t = .resolveDispute d true
    · obtain ⟨d, rfl⟩ := ht
      obtain ⟨rfl, -⟩ | ⟨-, hrefunded⟩ | ⟨hfalse, -⟩ := heffect
      · exact Or.inl rfl
      · obtain ⟨k, hopened, hrow, hothers⟩ := hrefunded.books
        by_cases hp : p = k
        · subst hp
          exact Or.inr ⟨⟨d, hopened⟩, hrow⟩
        · exact Or.inl (hothers p hp)
      · exact absurd hfalse (by simp)
    · exact Or.inl (refundsOf_commit heffect fun d hd => ht ⟨d, hd⟩)
  refine ⟨fun p hp => ?_, fun p hp => ?_⟩
  · obtain hsame | ⟨-, hrow⟩ := hrefunds p
    · rw [hsame] at hp
      obtain ⟨row, hrow, hreason⟩ := h.refunded p hp
      obtain ⟨row', hrow', hcommit⟩ := heffect.payout hrow
      refine ⟨row', hrow', ?_⟩
      have hnone : ∀ d dispute, w.disputes d = some dispute → dispute.status = .opened →
          dispute.payoutId = some p → False := by
        intro d dispute hd hopened hpayout
        obtain ⟨row'', hrow'', hreason'⟩ := hblock.blocked p d ⟨dispute, hd, hpayout, hopened⟩
        obtain rfl := Option.some.inj (hrow.symm.trans hrow'')
        simp [hreason] at hreason'
      cases hcommit with
      | same => exact hreason
      | disputed d => exact absurd (hok d p rfl).1 hp
      | cancelled d dispute hd hopened hpayout => exact (hnone d dispute hd hopened hpayout).elim
      | upheld d dispute hd hopened hpayout => exact (hnone d dispute hd hopened hpayout).elim
      | refunded => rfl
      | unblocked worker hwaits => simp [PayoutStmt.waitsFor, hreason] at hwaits
      | sent => exact hreason
    · exact hrow
  · rw [hsent p] at hp
    refine ⟨?_, fun d hd => ?_⟩
    · obtain hsame | ⟨⟨d, hd⟩, -⟩ := hrefunds p
      · exact hsame.trans (h.sent p hp).1
      · exact absurd hd ((h.sent p hp).2 d)
    · obtain hbefore | hnot := hopen d p hd
      · exact (h.sent p hp).2 d hbefore
      · exact absurd hp (by simp [hnot])

end Steps

theorem Outdoors.settled (o : Outdoors) {w : World} (h : Settled w) : Settled (o.apply w) := by
  refine ⟨fun p hp => ?_, fun p hp => ?_⟩
  · cases o <;> exact h.refunded p hp
  · have hsent : w.sentFor p = true := by
      cases o with
      | revert hash =>
          simp only [World.sentFor, Outdoors.apply, List.any_map, Bool.or_eq_true] at hp ⊢
          refine hp.imp_right fun hp => ?_
          obtain ⟨tx, htx, hpayout⟩ := List.any_eq_true.mp hp
          refine List.any_eq_true.mpr ⟨tx, htx, ?_⟩
          simp only [Function.comp_apply] at hpayout
          split_ifs at hpayout <;> exact hpayout
      | _ => exact hp
    cases o <;> exact h.sent p hsent

section Runs

variable {cfg : Config} {w : World} {cs : List Pick} {c : State Challenge}

/-- A step of an allowed run. -/
theorem settled_step {c' : State Challenge} {ch : Pick} {l : Step} (hblock : DisputesBlock w)
    (hrun : (system cfg challenges).exec disputesApart cs (Sys.start w) = some c)
    (hmove : (system cfg challenges).move ch c = some (l, c'))
    (hok : disputesUnsettled l c.glob = true) (h : Settled c.glob.world) :
    Settled c'.glob.world := by
  have hapart := disputesApart_of_unsettled hok
  have hstart : DisputesBlock w ∧ ReadsHold ⟨[], w⟩ :=
    ⟨hblock, fun _ _ h => absurd h (by simp [unchallenged])⟩
  obtain ⟨hblock', hreads⟩ := (disputePlan_valid cfg).exec_inv hstart hrun
  have hspares := disputePlan_spares hreads hapart
  obtain ⟨hsame, -⟩ | ⟨a, x, L, rfl, hstep⟩ | ⟨o, rfl, hstep⟩ :=
    (disputePlan_valid cfg).exec_step hstart hrun hmove hapart
  · exact hsame ▸ h
  · obtain ⟨-, -, hstep⟩ := hstep
    generalize c.glob = g at *
    generalize c'.glob = g' at *
    cases hstep with
    | stmt _ s busy _ _ _ hout =>
        exact h.stmt hblock' hout.1 fun p hp => hspares a s _ p rfl hp
    | inner _ s busy v _ _ _ =>
        have hpayouts := Stmt.effect_payouts s busy (v g.world) g.world
        have hbilling := Stmt.effect_billing s busy (v g.world) g.world
        refine h.quiet hblock' (fun p => congrArg (refundsOf p) hbilling)
          (Stmt.effect_disputes s busy _ _) (fun p row hrow hreason => ?_) fun p hp => ?_
        · exact ⟨row, (congrFun hpayouts p).trans hrow, hreason⟩
        · exact (s.sentFor_effect busy _ hp).imp_right fun hacts => hspares a s _ p rfl hacts
    | commit _ t L v _ _ hcom =>
        refine h.commit hblock' hcom.2 ?_
        rintro d p rfl
        have hok : (disputesApart (.event a (.commit (.createDispute d p))) g &&
          (refundsOf p g.world.billing).isEmpty && !g.world.sentFor p) = true := hok
        simp only [Bool.and_eq_true, Bool.not_eq_true', List.isEmpty_iff] at hok
        exact ⟨hok.1.2, hok.2⟩
    | reply _ x _ _ => exact h
  · obtain ⟨-, -, hstep⟩ := hstep
    generalize c.glob = g at *
    generalize c'.glob = g' at *
    cases hstep
    exact o.settled h

/-- **No payout is both paid and refunded**: in the runs in which open disputes block
their payouts and no dispute is opened on a settled payout, money is not sent for a
payout that has a refund booked, nor a refund booked for a payout for which money has
been sent. -/
theorem never_paid_and_refunded (hblock : DisputesBlock w) (hsettled : Settled w)
    (hrun : (system cfg challenges).exec disputesUnsettled cs (Sys.start w) = some c) :
    ∀ p, ¬ (c.glob.world.sentFor p = true ∧ refundsOf p c.glob.world.billing ≠ []) := by
  have h : Settled c.glob.world := by
    refine Machine.exec_induction (I := fun c => Settled c.glob.world) hsettled ?_ hrun
    intro cs c ch l c' hrun h hmove hok
    exact settled_step hblock (Machine.exec_mono (fun _ _ => disputesApart_of_unsettled) hrun) hmove
      hok h
  rintro p ⟨hsent, hrefunded⟩
  exact hrefunded (h.sent p hsent).1

end Runs

theorem heldWorld_settled : Settled heldWorld where
  refunded p h := absurd rfl h
  sent p h := absurd h (by simp [World.sentFor, heldWorld, World.empty])

/-- A dispute is opened and resolved by a refund. -/
def refundRun : List Pick :=
  .spawn (.createDispute 1 (some 1) none) :: @List.replicate Pick 12 (.run 0) ++
    .spawn (.resolveDispute 5 true) :: @List.replicate Pick 13 (.run 1)

theorem never_paid_and_refunded_refund :
    ∃ c, (system Config.default challenges).exec disputesUnsettled refundRun (Sys.start heldWorld) =
        some c ∧
      refundsOf 1 c.glob.world.billing ≠ [] ∧ c.glob.world.sentFor 1 = false := by
  obtain ⟨c, hrun, h⟩ := runs Config.default challenges disputesUnsettled refundRun heldWorld
    (fun c => !(refundsOf 1 c.glob.world.billing).isEmpty) (by decide)
  have hrefunded : refundsOf 1 c.glob.world.billing ≠ [] := by simpa using h
  have hnever := never_paid_and_refunded heldWorld_disputesBlock heldWorld_settled hrun 1
  exact ⟨c, hrun, hrefunded, by simpa [hrefunded] using hnever⟩

/-- A second dispute on the refunded payout is cancelled; after the hold window the
payout is delivered. -/
def refundThenPay : List Pick :=
  refundRun ++ .spawn (.createDispute 1 (some 1) none) :: @List.replicate Pick 12 (.run 2) ++
    .spawn (.cancelDispute 1 6) :: @List.replicate Pick 10 (.run 3) ++
    .env (.tick 200000) :: .spawn .payoutRunner :: @List.replicate Pick 12 (.run 4)

/-- The refunded payout is paid. -/
theorem refunded_payout_is_paid :
    DisputesBlock heldWorld ∧ Settled heldWorld ∧
    ∃ c, (system Config.default challenges).exec (fun _ _ => true) refundThenPay
        (Sys.start heldWorld) = some c ∧
      c.glob.world.sentFor 1 = true ∧ refundsOf 1 c.glob.world.billing ≠ [] := by
  obtain ⟨c, hrun, h⟩ := runs Config.default challenges (fun _ _ => true) refundThenPay heldWorld
    (fun c => c.glob.world.sentFor 1 && !(refundsOf 1 c.glob.world.billing).isEmpty)
    (by decide)
  obtain ⟨hsent, hrefunded⟩ := (Bool.and_eq_true _ _).mp h
  exact ⟨heldWorld_disputesBlock, heldWorld_settled, c, hrun, hsent, by simpa using hrefunded⟩

end OpenUnion
