import OpenUnion.Safety.Publishing

/-!
# The budget of a bounty

Publishing a bounty reserves its budget, closing it gives back what no payout has used.
A bounty may be published, closed and published again any number of times, by requests
that run interleaved; its budget goes through four stages and never back.

* `Budget` lists the stages: the reservation row together with the billing events of the
  bounty.
* `budgetPlan_step`: a step leaves the budget of a bounty alone, reserves it for the
  first time, or closes it, under the lock of the bounty.
* `budgets_accounted`: in every run each bounty is in one of the stages, its events are
  booked on the account of its organisation, what it has cost its organisation lies
  between nothing and its reserve, and a closed budget stays as it is.
-/

namespace OpenUnion

open Interleave

/-- The event is about the budget of the bounty. -/
def BillingEvent.budgetOf (b : Nat) (e : BillingEvent) : Bool :=
  decide (e.kind = .bountyBudgetReserve b ∨ e.kind = .bountyBudgetRelease b)

/-- The events about the budget of a bounty, newest first. -/
def budgetEvents (b : Nat) (billing : List BillingEvent) : List BillingEvent :=
  billing.filter (BillingEvent.budgetOf b)

/-- The budget of the bounty `b` of `orgId` that reserves `reserve` cents: its reservation
and its events. -/
inductive Budget (b orgId reserve : Nat) : Option Reservation → List BillingEvent → Prop where
  | unreserved : Budget b orgId reserve none []
  | active (t : Nat) : Budget b orgId reserve (some ⟨orgId, reserve, .active⟩)
      [⟨orgId, .bountyBudgetReserve b, -(reserve : Int), t⟩]
  | used (t : Nat) : Budget b orgId reserve (some ⟨orgId, reserve, .released⟩)
      [⟨orgId, .bountyBudgetReserve b, -(reserve : Int), t⟩]
  | returned (t t' rest : Nat) (hpos : 0 < rest) (hle : rest ≤ reserve) :
      Budget b orgId reserve (some ⟨orgId, reserve, .released⟩)
        [⟨orgId, .bountyBudgetRelease b, (rest : Int), t'⟩,
          ⟨orgId, .bountyBudgetReserve b, -(reserve : Int), t⟩]

/-- Every bounty is at one of the stages; what is no bounty has no budget. -/
def Budgeted (w : World) : Prop :=
  ∀ b, match w.bounties b with
    | none => w.reservations b = none ∧ budgetEvents b w.billing = []
    | some bounty => Budget b bounty.orgId bounty.reserveCents (w.reservations b)
        (budgetEvents b w.billing)

/-- What a bounty has cost its organisation: what was reserved less what was given back. -/
def budgetCost (b : Nat) (billing : List BillingEvent) : Int :=
  -((budgetEvents b billing).map BillingEvent.amountCents).sum

/-- What a step does to the budget of a bounty. -/
inductive BudgetStep (b : Nat) (w w' : World) : Prop where
  | same (hreservation : w'.reservations b = w.reservations b)
      (hevents : budgetEvents b w'.billing = budgetEvents b w.billing)
  | reserved (bounty : Bounty) (t : Nat) (hbounty : w.bounties b = some bounty)
      (hfree : w.reservations b = none)
      (hreservation : w'.reservations b = some ⟨bounty.orgId, bounty.reserveCents, .active⟩)
      (hevents : budgetEvents b w'.billing =
        ⟨bounty.orgId, .bountyBudgetReserve b, -(bounty.reserveCents : Int), t⟩ ::
          budgetEvents b w.billing)
  | closed (res : Reservation) (hres : w.reservations b = some res) (hst : res.status ≠ .released)
      (hreservation : w'.reservations b = some { res with status := .released })
      (hevents : budgetEvents b w'.billing = budgetEvents b w.billing ∨
        ∃ rest t, 0 < rest ∧ rest ≤ res.amountCents ∧ budgetEvents b w'.billing =
          ⟨res.account, .bountyBudgetRelease b, (rest : Int), t⟩ :: budgetEvents b w.billing)

section Stages

variable {w w' : World} {b : Nat}

theorem budgetEvents_cons_of {e : BillingEvent} {bs : List BillingEvent} (h : e.budgetOf b = true) :
    budgetEvents b (e :: bs) = e :: budgetEvents b bs := List.filter_cons_of_pos h

theorem budgetEvents_cons_of_not {e : BillingEvent} {bs : List BillingEvent}
    (h : e.budgetOf b = false) : budgetEvents b (e :: bs) = budgetEvents b bs :=
  List.filter_cons_of_neg (by simp [h])

/-- Bounties keep what fixes their budget. -/
structure BountyTerms (w w' : World) : Prop where
  kept : ∀ b bounty, w.bounties b = some bounty → ∃ bounty', w'.bounties b = some bounty' ∧
    bounty'.orgId = bounty.orgId ∧ bounty'.reserveCents = bounty.reserveCents
  old : ∀ b, w.bounties b = none → w'.bounties b = none

/-- The stages follow on each other. -/
theorem Budgeted.step (h : Budgeted w) (hterms : BountyTerms w w')
    (hstep : ∀ b, BudgetStep b w w') : Budgeted w' := by
  intro b
  have hbudget := h b
  cases hbounty : w.bounties b with
  | none =>
      rw [hbounty] at hbudget
      obtain ⟨hnone, hevents⟩ := hbudget
      rw [hterms.old b hbounty]
      cases hstep b with
      | same hreservation hsame => exact ⟨hreservation.trans hnone, hsame.trans hevents⟩
      | reserved bounty t hrow _ _ _ => exact absurd (hbounty.symm.trans hrow) (by simp)
      | closed res hres _ _ _ => exact absurd (hnone.symm.trans hres) (by simp)
  | some bounty =>
      obtain ⟨bounty', hbounty', horg, hreserve⟩ := hterms.kept b bounty hbounty
      rw [hbounty] at hbudget
      rw [hbounty']
      dsimp only at hbudget ⊢
      rw [horg, hreserve]
      cases hstep b with
      | same hreservation hsame => rwa [hreservation, hsame]
      | reserved row t hrow hfree hreservation hevents =>
          obtain rfl : bounty = row := Option.some.inj (hbounty.symm.trans hrow)
          rw [hfree] at hbudget
          rw [hreservation, hevents]
          generalize budgetEvents b w.billing = events at hbudget
          cases hbudget with
          | unreserved => exact .active t
      | closed res hres hst hreservation hevents =>
          rw [hres] at hbudget
          rw [hreservation]
          generalize budgetEvents b w.billing = events at hbudget hevents
          cases hbudget with
          | active t =>
              obtain hnothing | ⟨rest, t', hpos, hle, hbooked⟩ := hevents
              · rw [hnothing]
                exact .used t
              · rw [hbooked]
                exact .returned t t' rest hpos hle
          | used t => exact absurd rfl hst
          | returned t t' rest _ _ => exact absurd rfl hst

/-- What a bounty has cost lies between nothing and its reserve. -/
theorem Budget.cost {orgId reserve : Nat} {res : Option Reservation} {billing : List BillingEvent}
    (h : Budget b orgId reserve res (budgetEvents b billing)) :
    0 ≤ budgetCost b billing ∧ budgetCost b billing ≤ reserve ∧
      (res.map Reservation.status = some .active → budgetCost b billing = reserve) := by
  simp only [budgetCost]
  generalize budgetEvents b billing = events at h
  cases h with
  | unreserved => simp
  | active t => simp
  | used t => simp
  | returned t t' rest hpos hle =>
      simp only [List.map_cons, List.map_nil, List.sum_cons, List.sum_nil, Option.map_some]
      refine ⟨by omega, by omega, fun h => absurd h (by simp)⟩

/-- A budget that has been closed is final. -/
theorem BudgetStep.final {res : Reservation} (h : BudgetStep b w w')
    (hres : w.reservations b = some res) (hst : res.status = .released) :
    w'.reservations b = some res ∧ budgetEvents b w'.billing = budgetEvents b w.billing := by
  cases h with
  | same hreservation hevents => exact ⟨hreservation.trans hres, hevents⟩
  | reserved bounty t _ hfree _ _ => exact absurd (hfree.symm.trans hres) (by simp)
  | closed res' hres' hactive _ _ =>
      obtain rfl : res = res' := Option.some.inj (hres.symm.trans hres')
      exact absurd hst hactive

end Stages

section Steps

/-- The lock of a bounty protects its reservation. -/
def budgetHold : Lock → World → World → Prop
  | .bounty b, w, w' => w'.reservations b = w.reservations b
  | _, _, _ => True

theorem budgetHold_trans (k : Lock) (u v w : World) (huv : budgetHold k u v)
    (hvw : budgetHold k v w) : budgetHold k u w := by
  cases k with
  | bounty b => exact hvw.trans huv
  | _ => trivial

variable {cfg : Config} {w w' : World} {pid : Nat} {t : Tag} {L : List Lock} {b : Nat}

/-- A publication reserves the budget of its bounty once. -/
theorem Published.budget {k : Nat} (h : Published budgetHold k w w') (b : Nat) :
    BudgetStep b w w' ∧ (b ≠ k → w'.reservations b = w.reservations b) := by
  obtain ⟨bounty, accounts, accounts', billing, reservations, jobs, t, hbounty, -, hfunds, -, rfl⟩ := h
  obtain ⟨-, -, rfl, rfl⟩ | ⟨t', -, hfree, -, -, rfl, rfl⟩ := hfunds
  · exact ⟨.same rfl rfl, fun _ => rfl⟩
  · by_cases hb : b = k
    · subst hb
      refine ⟨.reserved bounty t' hbounty hfree (Function.update_self ..) ?_, fun h => absurd rfl h⟩
      exact budgetEvents_cons_of (by simp [BillingEvent.budgetOf])
    · refine ⟨.same (Function.update_of_ne hb _ _) ?_, fun _ => Function.update_of_ne hb _ _⟩
      exact budgetEvents_cons_of_not (by simp [BillingEvent.budgetOf, Ne.symm hb])

/-- A close releases the reservation of its bounty, which is still the one it has read. -/
theorem Closed.budget {k c : Nat} (h : Closed budgetHold k c w w') (b : Nat) :
    BudgetStep b w w' ∧ (b ≠ k → w'.reservations b = w.reservations b) := by
  obtain ⟨res, accounts, billing, w₀, -, hhold, hres, hst, hcredit, rfl⟩ := h
  have hnow : w.reservations k = some res := (show w.reservations k = w₀.reservations k from hhold).trans hres
  by_cases hb : b = k
  · subst hb
    refine ⟨.closed res hnow hst (modify_row hnow) ?_, fun h => absurd rfl h⟩
    obtain ⟨-, -, rfl⟩ | ⟨t, -, hlt, -, -, rfl⟩ := hcredit
    · exact Or.inl rfl
    · refine Or.inr ⟨res.amountCents - c, t, by omega, by omega, ?_⟩
      exact budgetEvents_cons_of (by simp [BillingEvent.budgetOf])
  · refine ⟨.same (modify_of_ne hb) ?_, fun _ => modify_of_ne hb⟩
    obtain ⟨-, -, rfl⟩ | ⟨t, -, -, -, -, rfl⟩ := hcredit
    · rfl
    · exact budgetEvents_cons_of_not (by simp [BillingEvent.budgetOf, Ne.symm hb])

/-- What a commit does to budgets. -/
theorem Tag.Effect.budget (h : t.Effect cfg budgetHold pid L w w') (b : Nat) :
    BudgetStep b w w' ∧ (.bounty b ∉ L → w'.reservations b = w.reservations b) := by
  have hothers : (∀ k, t ≠ .publishBounty k) → (∀ k c, t ≠ .closeBounty k c) →
      w'.reservations = w.reservations ∧ budgetEvents b w'.billing = budgetEvents b w.billing := by
    intro hpublish hclose
    refine ⟨?_, ?_⟩
    · by_cases hstatus : ∃ k st, t = .setBountyStatus k st
      · obtain ⟨k, st, rfl⟩ := hstatus
        obtain rfl := h
        rfl
      · push Not at hstatus
        exact (h.bounties_reservations hpublish hstatus hclose).2
    · obtain ⟨-, hbilling⟩ | ⟨e, hkind, hbilling, -⟩ := h.ledger
      · rw [hbilling]
      · rw [hbilling]
        refine budgetEvents_cons_of_not ?_
        cases t with
        | publishBounty k => exact absurd rfl (hpublish k)
        | closeBounty k c => exact absurd rfl (hclose k c)
        | resolveDispute d refund =>
            obtain ⟨-, p, hkind⟩ := hkind
            simp [BillingEvent.budgetOf, hkind]
        | stripeWebhook i =>
            have hkind : e.kind = .stripeTopup i := hkind
            simp [BillingEvent.budgetOf, hkind]
        | _ => exact hkind.elim
  have hsame : (∀ k, t ≠ .publishBounty k) → (∀ k c, t ≠ .closeBounty k c) →
      BudgetStep b w w' ∧ (.bounty b ∉ L → w'.reservations b = w.reservations b) := by
    intro hpublish hclose
    obtain ⟨hreservations, hevents⟩ := hothers hpublish hclose
    exact ⟨.same (congrFun hreservations b) hevents, fun _ => congrFun hreservations b⟩
  cases t with
  | publishBounty k =>
      obtain ⟨hlock, hpublished⟩ := h
      obtain ⟨hstep, hkept⟩ := hpublished.budget b
      exact ⟨hstep, fun hfree => hkept fun hb => hfree (hb ▸ hlock)⟩
  | closeBounty k c =>
      obtain ⟨hlock, hclosed⟩ := h
      obtain ⟨hstep, hkept⟩ := hclosed.budget b
      exact ⟨hstep, fun hfree => hkept fun hb => hfree (hb ▸ hlock)⟩
  | _ => exact hsame (by simp) (by simp)

/-- A commit adds no bounty. -/
theorem Tag.Effect.noBounty {hold : Lock → World → World → Prop}
    (h : t.Effect cfg hold pid L w w') (hnone : w.bounties b = none) : w'.bounties b = none := by
  have hmodify : ∀ k f, modify w.bounties k f b = none := by
    intro k f
    by_cases hb : b = k
    · subst hb
      simp [hnone]
    · simpa [hb] using hnone
  cases t with
  | publishBounty k =>
      obtain ⟨-, bounty, accounts, accounts', billing, reservations, jobs, t, -, -, -, -, rfl⟩ := h
      exact hmodify _ _
  | setBountyStatus k st =>
      obtain rfl := h
      exact hmodify _ _
  | closeBounty k c =>
      obtain ⟨-, res, accounts, billing, w₀, -, -, -, -, -, rfl⟩ := h
      exact hmodify _ _
  | _ =>
      rw [(h.bounties_reservations (by simp) (by simp) (by simp)).1]
      exact hnone

/-- The plan: budgets go through their stages. -/
def budgetPlan (cfg : Config) : Plan (system cfg noNotes) :=
  systemPlan cfg noNotes anyStep (fun _ => True) (fun g => Budgeted g.world) budgetHold
    fun _ _ _ => True

/-- A step of the plan. -/
theorem budgetPlan_step {l : Step} {g g' : Glob World Unit} (h : (budgetPlan cfg).Move l L g g')
    (b : Nat) : BudgetStep b g.world g'.world ∧
      (.bounty b ∉ L → g'.world.reservations b = g.world.reservations b) := by
  have hsame : ∀ w w' : World, w'.reservations = w.reservations →
      budgetEvents b w'.billing = budgetEvents b w.billing →
      BudgetStep b w w' ∧ (.bounty b ∉ L → w'.reservations b = w.reservations b) :=
    fun w w' hreservations hevents =>
      ⟨.same (congrFun hreservations b) hevents, fun _ => congrFun hreservations b⟩
  obtain ⟨-, -, hstep⟩ := h
  cases hstep with
  | stmt a s busy _ _ _ hout =>
      refine hsame _ (s.apply busy g.world) ?_ ?_
      · rw [s.apply_reservations busy g.world]
        cases s with
        | reservation s => exact absurd hout.1 Request.executes_reservation
        | _ => rfl
      · rw [s.apply_billing busy g.world]
        cases s with
        | billing e =>
            obtain ⟨o, n, -, -, hkind, -⟩ := Request.executes_billing hout.1
            dsimp only
            split_ifs
            · exact budgetEvents_cons_of_not (by simp [BillingEvent.budgetOf, hkind])
            · rfl
        | _ => rfl
  | inner a s busy v _ _ _ =>
      exact hsame _ _ (Stmt.effect_reservations s busy _ _)
        (congrArg (budgetEvents b) (Stmt.effect_billing s busy _ _))
  | commit a t L v _ _ hcom => exact hcom.2.budget b
  | reply a x _ _ _ => exact hsame _ _ rfl rfl
  | env e _ => cases e <;> exact hsame _ _ rfl rfl

/-- Bounties are neither added nor removed, and keep their terms. -/
theorem budgetPlan_terms {l : Step} {g g' : Glob World Unit} (h : (budgetPlan cfg).Move l L g g') :
    BountyTerms g.world g'.world := by
  refine ⟨fun b bounty hbounty => ?_, fun b hnone => ?_⟩
  · have hgrown := Conducted.grows (fun a g t L w
      (hcom : a.req.Ends t ∧ t.Effect cfg budgetHold a.pid L g.world w) => hcom.2.grows) h.conducted
    obtain ⟨row, hrow, hterms⟩ := hgrown.bounties b bounty hbounty
    obtain ⟨horg, hclasses, hpayout, -⟩ : row.orgId = bounty.orgId ∧
        row.fingerprintClasses = bounty.fingerprintClasses ∧
        row.payoutCents = bounty.payoutCents ∧
        row.disputeWindowSec = bounty.disputeWindowSec := by simpa [Bounty.terms] using hterms
    exact ⟨row, hrow, horg, by simp [Bounty.reserveCents, hpayout, hclasses]⟩
  · obtain ⟨-, -, hstep⟩ := h
    cases hstep with
    | stmt a s busy _ _ _ hout =>
        change (s.apply busy g.world).bounties b = none
        rw [s.apply_bounties busy g.world]
        cases s with
        | bounty s => exact absurd hout.1 Request.executes_bounty
        | _ => exact hnone
    | inner a s busy v _ _ _ =>
        exact (congrFun (Stmt.effect_bounties s busy _ _) b).trans hnone
    | commit a t L v _ _ hcom => exact hcom.2.noBounty hnone
    | reply a x _ _ _ => exact hnone
    | env e _ => cases e <;> exact hnone

theorem budgetPlan_valid (cfg : Config) : (budgetPlan cfg).Valid := by
  refine systemPlan_valid (fun _ _ _ => trivial) (fun l L g g' h => ?_) budgetHold_trans
    fun l L g g' h k hk => ?_
  · exact Budgeted.step h.inv (budgetPlan_terms h) fun b => (budgetPlan_step h b).1
  · cases k with
    | bounty b => exact (budgetPlan_step h b).2 hk
    | _ => trivial

end Steps

section Runs

variable {cfg : Config} {w : World} {c c' : State Unit} {cs ds : List Pick}

/-- **Budgets are accounted for.**  In every run each bounty's reservation and events are at
one of the four stages; what the bounty has cost lies between nothing and its reserve,
and is the whole reserve as long as the budget is active; and from the state in which a
budget is closed on, its reservation and its events never change. -/
theorem budgets_accounted (hw : Budgeted w)
    (hrun : (system cfg noNotes).exec anyStep cs (Sys.start w) = some c) :
    Budgeted c.glob.world ∧
      (∀ b bounty, c.glob.world.bounties b = some bounty →
        0 ≤ budgetCost b c.glob.world.billing ∧
        budgetCost b c.glob.world.billing ≤ bounty.reserveCents ∧
        ((c.glob.world.reservations b).map Reservation.status = some .active →
          budgetCost b c.glob.world.billing = bounty.reserveCents)) ∧
      ∀ ds c', (system cfg noNotes).exec anyStep ds c = some c' → ∀ b res,
        c.glob.world.reservations b = some res → res.status = .released →
        c'.glob.world.reservations b = some res ∧
          budgetEvents b c'.glob.world.billing = budgetEvents b c.glob.world.billing := by
  have hbudgeted := (budgetPlan_valid cfg).exec_inv hw hrun
  refine ⟨hbudgeted, fun b bounty hbounty => ?_, fun ds c' hrun' b res hres hst => ?_⟩
  · have hbudget : Budgeted c.glob.world := hbudgeted
    have hb := hbudget b
    rw [hbounty] at hb
    exact hb.cost
  · refine (budgetPlan_valid cfg).exec_rel
      (r := fun g g' => ∀ res : Reservation, g.world.reservations b = some res →
        res.status = .released → g'.world.reservations b = some res ∧
          budgetEvents b g'.world.billing = budgetEvents b g.world.billing)
      (fun g res hres _ => ⟨hres, rfl⟩) (fun g g' g'' hfirst hsecond res hres hst => ?_)
      (fun l L g g' h res hres hst => (budgetPlan_step h b).1.final hres hst) hw hrun hrun' res hres hst
    obtain ⟨hres', hevents'⟩ := hfirst res hres hst
    obtain ⟨hres'', hevents''⟩ := hsecond res hres' hst
    exact ⟨hres'', hevents''.trans hevents'⟩

end Runs

/-- A bounty is published and closed before any of its jobs is done. -/
def publishedAndClosed : List Pick :=
  .spawn (.publish 9 1 []) :: @List.replicate Pick 19 (.run 0) ++
    (.spawn (.close 9 1) :: @List.replicate Pick 11 (.run 1))

theorem draftWorld_budgeted : Budgeted draftWorld := by
  intro b
  by_cases hb : b = 1
  · subst hb
    exact .unreserved
  · simp [draftWorld, World.empty, hb, budgetEvents]

theorem budgets_accounted_closed :
    ∃ c, (system Config.default noNotes).exec anyStep publishedAndClosed (Sys.start draftWorld) =
        some c ∧
      (c.glob.world.reservations 1).map Reservation.status = some .released ∧
      Budgeted c.glob.world := by
  obtain ⟨c, hrun, h⟩ := runs Config.default noNotes anyStep publishedAndClosed draftWorld
    (fun c => decide ((c.glob.world.reservations 1).map Reservation.status = some .released))
    (by decide)
  exact ⟨c, hrun, of_decide_eq_true h, (budgets_accounted draftWorld_budgeted hrun).1⟩

end OpenUnion
