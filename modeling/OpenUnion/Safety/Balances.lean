import OpenUnion.Interleave.Settling
import OpenUnion.Interleave.Notes
import OpenUnion.Safety.Webhooks

/-!
# Balances and billing events

Publishing, closing, refunding and the Stripe webhook move a balance and book the
event of it in one transaction.  The admin top-up does the same with two statements
that commit on their own, so a balance can be ahead of its events by what top-ups have
credited and not booked.

* `unbooked` is that difference, read off the notes of the top-ups.
* `ledgerPlan_step`: no step moves a balance without its event or its note.
* `ledger_agrees`: in every run balances are what they were, plus the events booked
  since, plus what is unbooked; they stay nonnegative; and a top-up that is answered
  2xx has been booked.  In the runs in which no top-up is cut off between its credit
  and its booking, balance and events of an organisation agree whenever no top-up of
  it is running.
-/

namespace OpenUnion

open Interleave

/-- What an admin top-up has done. -/
inductive TopupNote where
  | credited (orgId cents : Nat)
  | booked (orgId cents : Nat)
  deriving DecidableEq

/-- What the note adds to the difference between balance and events of `o`. -/
def TopupNote.ahead (o : Nat) : TopupNote → Int
  | .credited orgId cents => if o = orgId then cents else 0
  | .booked orgId cents => if o = orgId then -(cents : Int) else 0

/-- An admin top-up notes its credit and its booking. -/
def topupNotes (a : Actor Request) (x : Happening) (_ : World) : List TopupNote :=
  match a.req, x with
  | .adminTopup o n, .stmt (.account (.credit _ _)) _ => [.credited o n]
  | .adminTopup o n, .stmt (.billing _) (r : Bool) => if r then [.booked o n] else []
  | _, _ => []

/-- The cents of all events of an organisation. -/
def eventCents (o : Nat) (billing : List BillingEvent) : Int :=
  (billing.map fun e => if o = e.account then e.amountCents else 0).sum

/-- The cents the top-ups have credited to an organisation and not booked. -/
def unbooked (o : Nat) (hist : List (Nat × TopupNote)) : Int := tally (TopupNote.ahead o) hist

/-- No balance is negative. -/
def Solvent (w : World) : Prop := ∀ o, 0 ≤ balanceIn w.accounts o

/-- A top-up that has noted `ns` has done nothing, has credited, or has credited and
booked. -/
def TopupNotes (ns : List TopupNote) : Prop :=
  ns = [] ∨ ∃ o n, ns = [.credited o n] ∨ ns = [.booked o n, .credited o n]

/-- A balance is ahead of its events by what is unbooked and no more, and a top-up credits
and books at most once, in this order. -/
structure Ledger (opening : World) (g : Glob World TopupNote) : Prop where
  balance : ∀ o, balanceIn g.world.accounts o = balanceIn opening.accounts o +
    (eventCents o g.world.billing - eventCents o opening.billing) + unbooked o g.hist
  topups : ∀ i, TopupNotes (own i g.hist)

/-- What a top-up may do, given what it has noted: it credits first, and books what it
has credited. -/
def TopupMay (ns : List TopupNote) (o n : Nat) (w : World) : Stmt → Prop
  | .account (.credit _ _) => ns = [] ∧ (w.accounts o).isSome
  | .billing _ => ns = [.credited o n] ∧ (w.accounts o).isSome
  | _ => True

/-- The conduct of a top-up, and none asked of the other requests. -/
def topupConduct (a : Actor Request) : Conduct Stmt Tag World Lock TopupNote where
  out g s _ := ∀ o n, a.req = .adminTopup o n → TopupMay (own a.pid g.hist) o n g.world s
  inside _ _ _ _ := ∀ o n, a.req ≠ .adminTopup o n
  commit _ _ _ _ := True

/-- A top-up that is answered 2xx has credited and booked. -/
def ToppedUp (a : Actor Request) (g : Glob World TopupNote) (x : Reply) : Prop :=
  ∀ o n, a.req = .adminTopup o n → x = .ok (.ok ()) →
    own a.pid g.hist = [.booked o n, .credited o n]

/-- The plan: balances agree with their events, and stay nonnegative. -/
def ledgerPlan (cfg : Config) (opening : World) : Plan (system cfg topupNotes) :=
  { systemPlan cfg topupNotes (fun _ _ => true) (fun _ => True)
      (fun g => Ledger opening g ∧ (Solvent opening → Solvent g.world)) (fun _ _ _ => True)
      fun _ _ _ => True with
    conduct := fun a => (Request.conduct cfg (fun _ _ _ => True) a).and (topupConduct a)
    answers := ToppedUp }

section Totals

variable {o : Nat}

@[simp] theorem eventCents_cons (e : BillingEvent) (billing : List BillingEvent) :
    eventCents o (e :: billing) =
      (if o = e.account then e.amountCents else 0) + eventCents o billing := by
  simp [eventCents]

end Totals

section Programs

variable {cfg : Config} {opening : World} {a : Actor Request} {o n : Nat}

/-- A statement of the top-up and what follows it. -/
theorem topup_perform {σ : Stage World Lock TopupNote} {known : World → Prop} {s : Stmt}
    {f : s.Val → Code Reply} {F : Reply → Stage World Lock TopupNote → Prop}
    {ns : List TopupNote} (ha : a.req = .adminTopup o n) (hσ : σ.Noted ns known)
    (hdoes : TopupDoes o n s) (hmay : ∀ w, known w → TopupMay ns o n w s)
    (hnext : ∀ (g : Glob World TopupNote) busy, known g.world → ∀ σ' : Stage World Lock TopupNote,
      σ'.Noted (topupNotes a (.stmt s (s.result busy g.world)) g.world ++ ns)
        (fun w => known w ∧ g.world.Grows w) →
      (f (s.result busy g.world)).Does (system cfg topupNotes) (ledgerPlan cfg opening).toTerms a
        ((ledgerPlan cfg opening).conduct a) F (fun _ _ => True) σ') :
    ((run s).bind f).Does (system cfg topupNotes) (ledgerPlan cfg opening).toTerms a
      ((ledgerPlan cfg opening).conduct a) F (fun _ _ => True) σ := by
  refine does_noted hσ fun g busy _ hns hknown => ⟨⟨⟨?_, ?_⟩, fun o' n' ha' => ?_⟩, fun σ' hσ' =>
    hnext g busy hknown σ' hσ'⟩
  · rw [ha]
    exact hdoes
  · cases s <;> trivial
  · obtain ⟨rfl, rfl⟩ : o = o' ∧ n = n' := by simpa using ha.symm.trans ha'
    rw [hns]
    exact hmay _ hknown

/-- The top-up keeps to the plan. -/
theorem adminTopup_does (ha : a.req = .adminTopup o n) :
    ((adminTopup o n).bind fun r => .ret (.ok r)).Does (system cfg topupNotes)
      (ledgerPlan cfg opening).toTerms a ((ledgerPlan cfg opening).conduct a)
      (fun x σ => σ.Entails (ledgerPlan cfg opening).toTerms a.pid fun g => ToppedUp a g x)
      (fun _ _ => True) .start := by
  have hrejected : ∀ (σ : Stage World Lock TopupNote) status code message,
      σ.Entails (ledgerPlan cfg opening).toTerms a.pid fun g =>
        ToppedUp a g (.ok (.error status code message)) :=
    fun σ status code message g _ _ o n _ h => absurd h (by simp)
  simp only [adminTopup]
  split_ifs with hn
  · exact hrejected _ _ _ _
  refine topup_perform ha .start trivial (fun _ _ => trivial) fun g₀ _ _ σ₀ hσ₀ => ?_
  refine topup_perform ha hσ₀ rfl (fun _ _ => trivial) fun g₁ _ _ σ₁ hσ₁ => ?_
  refine topup_perform ha hσ₁ trivial (fun _ _ => trivial) fun g₂ busy _ σ₂ hσ₂ => ?_
  have hquiet : ∀ (w : World) (q : Query) (r : q.Val), topupNotes a (.stmt (.read q) r) w = [] := by
    simp [topupNotes, ha]
  have hinsert : ∀ (w : World) r, topupNotes a (.stmt (.account (.insertOrIgnore o)) r) w = [] := by
    simp [topupNotes, ha]
  rw [hquiet, hinsert, hquiet] at hσ₂
  cases haccount : g₂.world.accounts o with
  | none =>
      rw [show Stmt.result (.read (.account o)) busy g₂.world = none from haccount]
      exact hrejected _ _ _ _
  | some account =>
      rw [show Stmt.result (.read (.account o)) busy g₂.world = some account from haccount]
      have hkept : ∀ w, g₂.world.Grows w → (w.accounts o).isSome := by
        intro w hgrow
        obtain ⟨account', haccount', -⟩ := hgrow.accounts o account haccount
        simp [haccount']
      refine topup_perform ha hσ₂ ⟨rfl, rfl⟩ (fun w hw => ⟨rfl, hkept w hw.2⟩)
        fun g₃ _ _ σ₃ hσ₃ => ?_
      have hcredited : topupNotes a (.stmt (.account (.credit o n)) ()) g₃.world =
          [.credited o n] := by
        simp [topupNotes, ha]
      rw [hcredited] at hσ₃
      refine topup_perform ha hσ₃ ⟨rfl, rfl, rfl⟩ (fun w hw => ⟨rfl, hkept w hw.1.2⟩)
        fun g₄ busy₄ hg₄ σ₄ hσ₄ => ?_
      have hbooked : ∀ t, Stmt.result (.billing ⟨o, .adminTopup, n, t⟩) busy₄ g₄.world = true := by
        intro t
        change Stmt.billable _ _ = true
        simp [Stmt.billable, hkept _ hg₄.1.2]
      rw [hbooked] at hσ₄ ⊢
      refine hσ₄.entails fun g hown _ o' n' ha' _ => ?_
      obtain ⟨rfl, rfl⟩ : o = o' ∧ n = n' := by simpa using ha.symm.trans ha'
      simpa [topupNotes, ha] using hown

/-- Every request keeps to the plan. -/
theorem Request.ledger_does (i : Nat) (q : Request) :
    (q.code cfg i).Does (system cfg topupNotes) (ledgerPlan cfg opening).toTerms ⟨i, q⟩
      ((ledgerPlan cfg opening).conduct ⟨i, q⟩)
      (fun x σ => σ.Entails (ledgerPlan cfg opening).toTerms i fun g => ToppedUp ⟨i, q⟩ g x)
      (fun _ _ => True) .start := by
  by_cases htopup : ∃ o n, q = .adminTopup o n
  · obtain ⟨o, n, rfl⟩ := htopup
    exact adminTopup_does rfl
  · have hother : ∀ o n, q ≠ .adminTopup o n := fun o n h => htopup ⟨o, n, h⟩
    refine (Request.code_does (fun _ _ h => h) i q).mono ?_ (fun _ _ h => h) ?_ ?_ ?_
    · exact fun x σ _ g _ _ o n h => absurd h (hother o n)
    · exact fun g s busy h => ⟨h, fun o n h => absurd h (hother o n)⟩
    · exact fun g s busy seen h => ⟨h, hother⟩
    · exact fun g t L w h => ⟨h, trivial⟩

end Programs

section Steps

variable {cfg : Config} {opening w w' : World} {o : Nat} {billing billing' : List BillingEvent}

/-- A balance that moves with its event stays as far ahead of its events. -/
theorem LedgerStep.ahead {K : BillingKind → Prop}
    (h : LedgerStep K (balanceIn w.accounts) (balanceIn w'.accounts) w.billing w'.billing) (o : Nat) :
    balanceIn w'.accounts o - eventCents o w'.billing =
      balanceIn w.accounts o - eventCents o w.billing := by
  obtain ⟨hbalance, hbilling⟩ | ⟨e, -, hbilling, hbalance⟩ := h
  · rw [hbalance, hbilling]
  · rw [hbilling, hbalance o, eventCents_cons]
    omega

/-- A balance after a credit. -/
theorem balanceIn_credit {t : Nat → Option Account} {f : Account → Account} {k n : Nat}
    (ht : ∀ o, 0 ≤ balanceIn t o) (hf : ∀ a, (f a).balanceCents = a.balanceCents + n) (o : Nat) :
    0 ≤ balanceIn (modify t k f) o := by
  have ho := ht o
  by_cases hk : o = k
  · subst hk
    cases hrow : t o with
    | none => simp [balanceIn, hrow]
    | some a =>
        simp only [balanceIn, hrow, modify_self, Option.map_some, Option.getD_some, hf] at ho ⊢
        omega
  · simpa [balanceIn, hk] using ho

theorem Ensures.solvent {k : Nat} {t t' : Nat → Option Account} (h : Ensures k t t')
    (ht : ∀ o, 0 ≤ balanceIn t o) : ∀ o, 0 ≤ balanceIn t' o := by
  rw [h.balance]
  exact ht

theorem Credits.solvent {k n now : Nat} {kind : BillingKind} {t t' : Nat → Option Account}
    (h : Credits k kind n now t t' billing billing') (ht : ∀ o, 0 ≤ balanceIn t o) :
    ∀ o, 0 ≤ balanceIn t' o := by
  obtain ⟨-, rfl, -⟩ | ⟨-, -, -, -, rfl, -⟩ := h
  · exact ht
  · exact balanceIn_credit ht fun _ => rfl

/-- A debit is covered by the balance. -/
theorem Funds.solvent {b : Nat} {bounty : Bounty} {t t' : Nat → Option Account}
    {reservations : Nat → Option Reservation} (h : Funds b bounty w t t' billing reservations)
    (ht : ∀ o, 0 ≤ balanceIn t o) : ∀ o, 0 ≤ balanceIn t' o := by
  obtain ⟨-, rfl, -⟩ | ⟨-, -, -, hcovers, rfl, -⟩ := h
  · exact ht
  · intro o
    have ho := ht o
    by_cases hk : o = bounty.orgId
    · subst hk
      obtain ⟨account, haccount, henough⟩ := (Option.any_eq_true _ _).mp hcovers
      have henough : (bounty.reserveCents : Int) ≤ account.balanceCents := of_decide_eq_true henough
      simp only [balanceIn, haccount, modify_self, Option.map_some, Option.getD_some]
      omega
    · simpa [balanceIn, hk] using ho

/-- A debit is covered, and everything else adds to balances. -/
theorem Tag.Effect.solvent {hold : Lock → World → World → Prop} {pid : Nat} {t : Tag}
    {L : List Lock} (h : t.Effect cfg hold pid L w w') (hw : Solvent w) : Solvent w' := by
  cases t with
  | publishBounty b =>
      obtain ⟨-, bounty, accounts, accounts', billing, reservations, jobs, t, -, hensures, hfunds, -,
        rfl⟩ := h
      exact hfunds.solvent (hensures.solvent hw)
  | closeBounty b c =>
      obtain ⟨-, res, accounts, billing, w₀, -, -, -, -, hcredit, rfl⟩ := h
      obtain ⟨-, rfl, -⟩ | ⟨-, -, -, -, rfl, -⟩ := hcredit
      · exact hw
      · exact balanceIn_credit hw fun _ => rfl
  | resolveDispute d refund =>
      obtain ⟨rfl, -⟩ | ⟨rfl, hrefunded⟩ | ⟨-, hreleased⟩ := h
      · exact hw
      · obtain ⟨row, k, payout, accounts, accounts', billing, submissions, now, -, -, -, -, -, -,
          hensures, hcredits, -, rfl⟩ := hrefunded
        exact hcredits.solvent (hensures.solvent hw)
      · obtain ⟨row, outbox, keys, now, payouts, -, -, -, rfl⟩ := hreleased
        exact hw
  | stripeWebhook e =>
      obtain ⟨accounts, billing, intents, status, hbooks, rfl⟩ := h
      obtain ⟨rfl, -, -⟩ | ⟨o, n, t, -, -, -, rfl, -⟩ := hbooks
      · exact hw
      · exact balanceIn_credit hw fun _ => rfl
  | leaseJob j k | setBountyStatus b st | createDispute d k | cancelDispute d
  | unblockPayouts worker | claimOutboxBatch | broadcast k hash =>
      obtain ⟨hbalance, -⟩ | ⟨e, hkind, -⟩ := h.ledger
      · intro o
        rw [hbalance]
        exact hw o
      · exact hkind.elim

/-- The notes of an event are those of an admin top-up. -/
theorem topupNotes_of_ne {a : Actor Request} (ha : ∀ o n, a.req ≠ .adminTopup o n) (x : Happening)
    (w : World) : topupNotes a x w = [] := by
  obtain ⟨pid, req⟩ := a
  cases req with
  | adminTopup o n => exact absurd rfl (ha o n)
  | _ => rfl

/-- Of the statements outside transactions only those of a top-up move balances, and
they note it. -/
theorem ledger_stmt {a : Actor Request} {s : Stmt} {busy : Lock → Bool}
    {g : Glob World TopupNote}
    (hout : ((ledgerPlan cfg opening).conduct a).out g s busy) (o : Nat) :
    balanceIn (s.apply busy g.world).accounts o - eventCents o (s.apply busy g.world).billing =
      balanceIn g.world.accounts o - eventCents o g.world.billing +
        ((topupNotes a (.stmt s (s.result busy g.world)) g.world).map (TopupNote.ahead o)).sum := by
  obtain ⟨⟨hexec, -⟩, hmay⟩ := hout
  rw [s.apply_accounts busy g.world, s.apply_billing busy g.world]
  cases s with
  | account s =>
      obtain ⟨k, n, hreq, rfl | rfl⟩ := Request.executes_account hexec
      · have hbalance : balanceIn (AccountStmt.write (.insertOrIgnore k) g.world g.world.accounts) =
            balanceIn g.world.accounts := by
          simp only [AccountStmt.write]
          split_ifs with hfree
          · exact Ensures.balance (Or.inr ⟨Option.isNone_iff_eq_none.mp hfree, rfl⟩)
          · rfl
        simp [hbalance, topupNotes, hreq]
      · obtain ⟨-, hsome⟩ := hmay k n hreq
        have hbalance : balanceIn (AccountStmt.write (.credit k n) g.world g.world.accounts) o =
            balanceIn g.world.accounts o + if o = k then (n : Int) else 0 :=
          balanceIn_modify hsome (fun _ => rfl) o
        simp only [hbalance, topupNotes, hreq, List.map_cons, List.map_nil, List.sum_cons,
          List.sum_nil, TopupNote.ahead]
        omega
  | billing e =>
      obtain ⟨k, n, hreq, rfl, hkind, hcents⟩ := Request.executes_billing hexec
      obtain ⟨-, hsome⟩ := hmay _ n hreq
      have hbillable : Stmt.billable e g.world = true := by
        simp [Stmt.billable, hsome, hkind]
      have hresult : Stmt.result (.billing e) busy g.world = true := hbillable
      simp only [hbillable, if_true, eventCents_cons, topupNotes, hreq, hresult, hcents,
        List.map_cons, List.map_nil, List.sum_cons, List.sum_nil, TopupNote.ahead]
      split_ifs <;> omega
  | _ => simp [topupNotes]

/-- What a top-up notes follows on what it has noted. -/
theorem topupNotes_follow {a : Actor Request} {s : Stmt} {busy : Lock → Bool}
    {g : Glob World TopupNote} (hnotes : TopupNotes (own a.pid g.hist))
    (hout : ((ledgerPlan cfg opening).conduct a).out g s busy) :
    TopupNotes (topupNotes a (.stmt s (s.result busy g.world)) g.world ++ own a.pid g.hist) := by
  obtain ⟨⟨hexec, -⟩, hmay⟩ := hout
  cases s with
  | account s =>
      obtain ⟨k, n, hreq, rfl | rfl⟩ := Request.executes_account hexec
      · simpa [topupNotes, hreq] using hnotes
      · obtain ⟨hown, -⟩ := hmay k n hreq
        exact Or.inr ⟨k, n, Or.inl (by simp [topupNotes, hreq, hown])⟩
  | billing e =>
      obtain ⟨k, n, hreq, rfl, hkind, -⟩ := Request.executes_billing hexec
      obtain ⟨hown, hsome⟩ := hmay _ n hreq
      have hresult : Stmt.result (.billing e) busy g.world = true := by
        change Stmt.billable e g.world = true
        simp [Stmt.billable, hsome, hkind]
      exact Or.inr ⟨e.account, n, Or.inr (by simp [topupNotes, hreq, hown, hresult])⟩
  | _ => simpa [topupNotes] using hnotes

/-- A step of the plan moves no balance without its event or its note. -/
theorem ledgerPlan_balance {l : Step} {L : List Lock} {g g' : Glob World TopupNote}
    (h : (ledgerPlan cfg opening).Move l L g g') (o : Nat) :
    balanceIn g'.world.accounts o - eventCents o g'.world.billing - unbooked o g'.hist =
      balanceIn g.world.accounts o - eventCents o g.world.billing - unbooked o g.hist := by
  obtain ⟨-, -, hstep⟩ := h
  cases hstep with
  | stmt a s busy _ _ _ hout =>
      have hahead := ledger_stmt hout o
      have hunbooked : unbooked o ((system cfg topupNotes).afterStmt a s busy none g).hist =
          ((topupNotes a (.stmt s (s.result busy g.world)) g.world).map (TopupNote.ahead o)).sum +
            unbooked o g.hist := by
        simp [unbooked, Machine.afterStmt, Machine.entries, system, engine, seenBy]
      rw [hunbooked]
      change balanceIn (s.apply busy g.world).accounts o -
        eventCents o (s.apply busy g.world).billing - _ = _
      omega
  | inner a s busy v _ _ hinner =>
      have hnotes : topupNotes a (.stmt s (s.result busy (v g.world))) g.world = [] :=
        topupNotes_of_ne hinner.2 _ _
      have hunbooked : unbooked o ((system cfg topupNotes).afterStmt a s busy (some v) g).hist =
          unbooked o g.hist := by
        simpa [unbooked, Machine.afterStmt, Machine.entries, system, engine, seenBy] using
          congrArg (fun ns => (ns.map (TopupNote.ahead o)).sum) hnotes
      rw [hunbooked]
      simp [Machine.afterStmt, system, engine, seenBy]
  | commit a t L v _ _ hcom =>
      have hahead := hcom.1.2.ledger.ahead o
      have hunbooked : unbooked o ((system cfg topupNotes).afterCommit a t (some v) g).hist =
          unbooked o g.hist := by
        simp [unbooked, Machine.afterCommit, Machine.entries, system, topupNotes]
      rw [hunbooked]
      change balanceIn (v g.world).accounts o - eventCents o (v g.world).billing - _ = _
      omega
  | reply a x _ _ _ => simp [unbooked, Machine.record, Machine.entries, system, topupNotes]
  | env e _ => cases e <;> rfl

/-- A step of the plan keeps the order of what top-ups do. -/
theorem ledgerPlan_topups {l : Step} {L : List Lock} {g g' : Glob World TopupNote}
    (h : (ledgerPlan cfg opening).Move l L g g') (i : Nat) : TopupNotes (own i g'.hist) := by
  obtain ⟨⟨⟨-, hnotes⟩, -⟩, -, hstep⟩ := h
  have hkept : ∀ a : Actor Request, ∀ x, topupNotes a x g.world = [] →
      TopupNotes (own i ((system cfg topupNotes).entries a x g.world ++ g.hist)) := by
    intro a x hx
    have hnone : (system cfg topupNotes).entries a x g.world = [] := by
      simp [Machine.entries, system, hx]
    rw [hnone]
    exact hnotes i
  cases hstep with
  | stmt a s busy _ _ _ hout =>
      by_cases hi : i = a.pid
      · subst hi
        have hfollow := topupNotes_follow (hnotes a.pid) hout
        simpa [Machine.afterStmt, system, engine, seenBy] using hfollow
      · have hsame : own i ((system cfg topupNotes).afterStmt a s busy none g).hist =
            own i g.hist := by
          simp [Machine.afterStmt, own_entries_of_ne hi]
        rw [hsame]
        exact hnotes i
  | inner a s busy v _ _ hinner => exact hkept a _ (topupNotes_of_ne hinner.2 _ _)
  | commit a t L v _ _ _ => exact hkept a _ (by simp [topupNotes])
  | reply a x _ _ _ => exact hkept a _ (by simp [topupNotes])
  | env e _ => exact hnotes i

/-- A step of the plan leaves no balance negative. -/
theorem ledgerPlan_solvent {l : Step} {L : List Lock} {g g' : Glob World TopupNote}
    (h : (ledgerPlan cfg opening).Move l L g g') (hsolvent : Solvent g.world) :
    Solvent g'.world := by
  obtain ⟨-, -, hstep⟩ := h
  cases hstep with
  | stmt a s busy _ _ _ hout =>
      change Solvent (s.apply busy g.world)
      intro o
      rw [s.apply_accounts busy g.world]
      cases s with
      | account s =>
          obtain ⟨k, n, hreq, rfl | rfl⟩ := Request.executes_account hout.1.1
          · simp only [AccountStmt.write]
            split_ifs with hfree
            · exact (Ensures.solvent (Or.inr ⟨Option.isNone_iff_eq_none.mp hfree, rfl⟩) hsolvent) o
            · exact hsolvent o
          · exact balanceIn_credit hsolvent (fun _ => rfl) o
      | _ => exact hsolvent o
  | inner a s busy v _ _ _ =>
      intro o
      simpa [Machine.afterStmt, system, engine, seenBy] using hsolvent o
  | commit a t L v _ _ hcom => exact hcom.1.2.solvent hsolvent
  | reply a x _ _ _ => exact hsolvent
  | env e _ => cases e <;> exact hsolvent

/-- A step of the plan keeps the ledger. -/
theorem ledgerPlan_step {l : Step} {L : List Lock} {g g' : Glob World TopupNote}
    (h : (ledgerPlan cfg opening).Move l L g g') : Ledger opening g' := by
  refine ⟨fun o => ?_, ledgerPlan_topups h⟩
  have hbefore := h.inv.1.balance o
  have hstep := ledgerPlan_balance h o
  omega

theorem ledgerPlan_valid (cfg : Config) (opening : World) : (ledgerPlan cfg opening).Valid where
  grow_trans _ _ _ := World.Grows.trans
  grow_refl := World.Grows.refl
  hold_trans _ _ _ _ _ _ := trivial
  drift_refl _ _ := trivial
  drift_trans _ _ _ _ _ _ := trivial
  spawn _ _ _ := trivial
  does i q _ := q.ledger_does i
  inv_step _ _ _ _ h := ⟨ledgerPlan_step h, fun hw => ledgerPlan_solvent h (h.inv.2 hw)⟩
  grow_step _ _ _ _ h := Conducted.grows
    (fun a g t L w (hcom : ((ledgerPlan cfg opening).conduct a).commit g t L w) => hcom.1.2.grows)
    h.conducted
  hold_step _ _ _ _ _ _ _ := trivial
  drift_step _ _ _ _ _ _ _ := trivial

end Steps

section Debts

/-- The top-up has credited and not booked. -/
def OwesBooking (ns : List TopupNote) : Prop := ∃ o n, ns = [.credited o n]

/-- The same, computed. -/
def owesBooking : List TopupNote → Bool
  | [.credited _ _] => true
  | _ => false

theorem owesBooking_iff {ns : List TopupNote} : owesBooking ns = true ↔ OwesBooking ns := by
  constructor
  · intro h
    simp only [owesBooking] at h
    split at h
    · exact ⟨_, _, rfl⟩
    · exact absurd h (by simp)
  · rintro ⟨o, n, rfl⟩
    rfl

/-- No top-up fails or is killed between its credit and its booking. -/
def topupsUncut : Step → Glob World TopupNote → Bool
  | .fault a, g => !owesBooking (own a.pid g.hist)
  | .crash a, g => !owesBooking (own a.pid g.hist)
  | _, _ => true

/-- The step is no booking of a top-up that finds no account. -/
def bookingSucceeds : Step → Bool
  | .event a (.stmt (.billing _) (r : Bool)) =>
      match a.req with
      | .adminTopup _ _ => r
      | _ => true
  | _ => true

/-- A booking has an account to book on. -/
def bookingDebts (a : Actor Request) : Debts Stmt Stmt.Val TopupNote where
  Out _ _ := True
  Gets _ s r := bookingSucceeds (.event a (.stmt s r)) = true

variable {cfg : Config} {w : World} {c c' : State TopupNote} {cs : List Pick} {ch : Pick} {l : Step}

theorem adminTopup_settles (o n i : Nat) :
    ((Request.adminTopup o n).code cfg i).Settles (system cfg topupNotes) ⟨i, .adminTopup o n⟩
      OwesBooking (bookingDebts ⟨i, .adminTopup o n⟩) (fun _ ns => ¬ OwesBooking ns)
      (fun _ ns => ¬ OwesBooking ns) [] := by
  have hnil : ¬ OwesBooking [] := by
    rintro ⟨o, n, h⟩
    exact absurd h (by simp)
  simp only [Request.code, adminTopup]
  split_ifs with hn
  · exact hnil
  refine ⟨trivial, fun _ _ _ _ => ⟨trivial, fun _ _ _ _ => ⟨trivial, fun busy seen _ _ => ?_,
    fun _ => hnil⟩, fun _ => hnil⟩, fun _ => hnil⟩
  cases (system cfg topupNotes).engine.result (.read (.account o)) busy seen with
  | none => exact hnil
  | some account =>
      refine ⟨trivial, fun _ _ _ _ => ⟨trivial, fun busy' seen' w' hgets => ?_, fun h => ?_⟩,
        fun _ => hnil⟩
      · have hbooked : (system cfg topupNotes).engine.result
            (.billing ⟨o, .adminTopup, n, _⟩) busy' seen' = true := hgets
        rw [hbooked]
        rintro ⟨o', n', h⟩
        exact absurd h (by simp [system, topupNotes])
      · exact absurd ⟨o, n, rfl⟩ h

/-- Every request settles what it has credited. -/
theorem Request.code_books (i : Nat) (q : Request) :
    (q.code cfg i).Settles (system cfg topupNotes) ⟨i, q⟩ OwesBooking (bookingDebts ⟨i, q⟩)
      (fun _ ns => ¬ OwesBooking ns) (fun _ ns => ¬ OwesBooking ns) [] := by
  have hnil : ¬ OwesBooking [] := by
    rintro ⟨o, n, h⟩
    exact absurd h (by simp)
  by_cases htopup : ∃ o n, q = .adminTopup o n
  · obtain ⟨o, n, rfl⟩ := htopup
    exact adminTopup_settles o n i
  · exact (q.code cfg i).settles_silent
      (fun x w => topupNotes_of_ne (fun o n h => htopup ⟨o, n, h⟩) x w) (fun _ => trivial)
      (fun _ => hnil) fun _ => hnil

theorem bookingSucceeds_of (h : ∀ a e (r : Bool), l = .event a (.stmt (.billing e) r) →
    ∀ o n, a.req = .adminTopup o n → r = true) : bookingSucceeds l = true := by
  simp only [bookingSucceeds]
  split
  · rename_i a e r
    split
    · rename_i o n hreq
      exact h a e r rfl o n hreq
    · rfl
  · rfl

/-- In a run no booking of a top-up fails. -/
theorem exec_bookingSucceeds
    (hrun : (system cfg topupNotes).exec (fun _ _ => true) cs (Sys.start w) = some c)
    (hmove : (system cfg topupNotes).move ch c = some (l, c')) : bookingSucceeds l = true := by
  have hstart : (ledgerPlan cfg w).inv ⟨[], w⟩ :=
    ⟨⟨fun o => by simp [unbooked], fun i => Or.inl rfl⟩, id⟩
  refine bookingSucceeds_of fun a e r hl o n hreq => ?_
  obtain ⟨-, hquiet⟩ | ⟨a', x, L, rfl, -, -, hstep⟩ | ⟨e, rfl, -⟩ :=
    (ledgerPlan_valid cfg w).exec_step hstart hrun hmove rfl
  · exact absurd hl (hquiet a _)
  · generalize c.glob = g at hstep
    generalize c'.glob = g' at hstep
    cases hstep with
    | stmt _ s busy _ _ _ hout =>
        obtain ⟨rfl, hevent⟩ : a' = a ∧ _ := by simpa using hl
        obtain ⟨rfl, hr⟩ : s = .billing e ∧ _ := by simpa using hevent
        obtain ⟨k, n', hreq', rfl, hkind, -⟩ := Request.executes_billing hout.1.1
        obtain ⟨-, hsome⟩ := hout.2 _ n' hreq'
        have hbillable : Stmt.billable e g.world = true := by
          simp [Stmt.billable, hsome, hkind]
        exact (eq_of_heq hr).symm.trans hbillable
    | inner _ s busy v _ _ hinner =>
        obtain ⟨rfl, -⟩ : a' = a ∧ _ := by simpa using hl
        exact absurd hreq (hinner.2 o n)
    | commit _ t L v _ _ _ => exact absurd hl (by simp)
    | reply _ x _ _ _ => exact absurd hl (by simp)
  · exact absurd hl (by simp)

theorem exec_bookings
    (hrun : (system cfg topupNotes).exec topupsUncut cs (Sys.start w) = some c) :
    Interleave.Settled (system cfg topupNotes) OwesBooking bookingDebts c := by
  have hboth : (system cfg topupNotes).exec (fun l g => topupsUncut l g && bookingSucceeds l) cs
      (Sys.start w) = some c := by
    refine Machine.exec_strengthen (fun cs c ch l c' hrun hmove hok => ?_) hrun
    have hfree : (system cfg topupNotes).exec (fun _ _ => true) cs (Sys.start w) = some c :=
      Machine.exec_mono (fun _ _ _ => rfl) hrun
    simp [hok, exec_bookingSucceeds hfree hmove]
  refine Machine.exec_settled (fun i q => q.code_books i) (fun h => ?_) (fun a x w => ?_)
    (fun a s r g hok => ?_) (fun a l g hok hl => ?_) hboth
  · obtain ⟨o, n, h⟩ := h
    exact absurd h (by simp)
  · simp [system, topupNotes]
  · exact (Bool.and_eq_true _ _ ▸ hok).2
  · have huncut := (Bool.and_eq_true _ _ ▸ hok).1
    rw [← owesBooking_iff]
    obtain rfl | rfl := hl
    · simpa [topupsUncut] using huncut
    · simpa [topupsUncut] using huncut

/-- A note is about the organisation of its top-up. -/
def TopupNote.Of (q : Request) (note : TopupNote) : Prop :=
  ∃ o n, q = .adminTopup o n ∧ (note = .credited o n ∨ note = .booked o n)

theorem mem_topupNotes {a : Actor Request} {x : Happening} {note : TopupNote}
    (h : note ∈ topupNotes a x w) : note.Of a.req := by
  simp only [topupNotes] at h
  split at h
  · rename_i o n _ _ _ hreq
    exact ⟨o, n, hreq, Or.inl (List.mem_singleton.mp h)⟩
  · rename_i o n _ r hreq
    split_ifs at h
    · exact ⟨o, n, hreq, Or.inr (List.mem_singleton.mp h)⟩
    · exact absurd h (by simp)
  · exact absurd h (by simp)

theorem exec_notes_of
    (hrun : (system cfg topupNotes).exec topupsUncut cs (Sys.start w) = some c) :
    ∀ i q p, c.program i = some (q, p) → ∀ note ∈ own i c.glob.hist, note.Of q := by
  refine Machine.exec_programs (P := fun a _ ns => ∀ note ∈ ns, note.Of a.req)
    (fun i q note h => absurd h (by simp)) ?_ hrun
  intro a p l rest g hnotes hstep _ note hnote
  rw [own_append] at hnote
  obtain hnew | hold := List.mem_append.mp hnote
  · obtain ⟨x, rfl⟩ | hnone : (∃ x, l = .event a x) ∨
        own a.pid ((system cfg topupNotes).noted l g.world) = [] := by
      cases hstep <;> first | exact Or.inl ⟨_, rfl⟩ | exact Or.inr rfl
    · have hself : own a.pid ((system cfg topupNotes).noted (.event a x) g.world) =
          topupNotes a x g.world := own_entries_self
      rw [hself] at hnew
      exact mem_topupNotes hnew
    · rw [hnone] at hnew
      exact absurd hnew (by simp)
  · exact hnotes note hold

end Debts

section Runs

variable {cfg : Config} {w : World} {c : State TopupNote} {cs : List Pick}

theorem ledger_start (w : World) : (ledgerPlan cfg w).inv ⟨[], w⟩ :=
  ⟨⟨fun o => by simp [unbooked], fun i => Or.inl rfl⟩, id⟩

/-- What is unbooked of an organisation is what its running top-ups have not booked. -/
theorem unbooked_eq_zero {o : Nat}
    (hrun : (system cfg topupNotes).exec topupsUncut cs (Sys.start w) = some c)
    (hidle : ∀ i n p, c.program i ≠ some (.adminTopup o n, p)) : unbooked o c.glob.hist = 0 := by
  have hfree : (system cfg topupNotes).exec (fun _ _ => true) cs (Sys.start w) = some c :=
    Machine.exec_mono (fun _ _ _ => rfl) hrun
  have hledger := ((ledgerPlan_valid cfg w).exec_inv (ledger_start w) hfree).1
  refine tally_induction (motive := fun x : Int => x = 0) rfl (fun x y hx hy => by omega) fun i => ?_
  cases hprogram : c.program i with
  | none =>
      obtain hnil | ⟨k, n, hcredited | hbooked⟩ := hledger.topups i
      · rw [hnil]
        rfl
      · exact absurd ⟨k, n, hcredited⟩ ((exec_bookings hrun).ended i hprogram)
      · rw [hbooked]
        simp only [List.map_cons, List.map_nil, List.sum_cons, List.sum_nil, TopupNote.ahead]
        split_ifs <;> omega
  | some program =>
      obtain ⟨q, p⟩ := program
      refine List.sum_eq_zero fun x hx => ?_
      obtain ⟨note, hnote, rfl⟩ := List.mem_map.mp hx
      obtain ⟨k, n, rfl, hnote⟩ := exec_notes_of hrun i q p hprogram note hnote
      have hk : o ≠ k := by
        rintro rfl
        exact hidle i n p hprogram
      obtain rfl | rfl := hnote <;> simp [TopupNote.ahead, hk]

/-- What is unbooked is never negative. -/
theorem unbooked_nonneg {o : Nat} {opening : World} {g : Glob World TopupNote}
    (h : Ledger opening g) : 0 ≤ unbooked o g.hist := by
  refine tally_induction (motive := fun x : Int => 0 ≤ x) (Int.le_refl 0)
    (fun x y hx hy => Int.add_nonneg hx hy) fun i => ?_
  obtain hnil | ⟨k, n, hcredited | hbooked⟩ := h.topups i
  · rw [hnil]
    exact Int.le_refl 0
  · rw [hcredited]
    simp only [List.map_cons, List.map_nil, List.sum_cons, List.sum_nil, TopupNote.ahead]
    split_ifs <;> omega
  · rw [hbooked]
    simp only [List.map_cons, List.map_nil, List.sum_cons, List.sum_nil, TopupNote.ahead]
    split_ifs <;> omega

/-- **Balances agree with their events.**  In every run a balance is what it was at the
start, plus the events booked since, plus the credits of the top-ups that have not booked
theirs yet; no balance becomes negative; and a top-up is answered 2xx only once it has
credited and booked.  In the runs in which no top-up is cut off between the two, balance
and events of an organisation agree whenever no top-up of it is running. -/
theorem ledger_agrees
    (hrun : (system cfg topupNotes).exec (fun _ _ => true) cs (Sys.start w) = some c) :
    Ledger w c.glob ∧ (∀ o, 0 ≤ unbooked o c.glob.hist) ∧
      (Solvent w → Solvent c.glob.world) ∧
      (∀ ch c' i o n, (system cfg topupNotes).move ch c =
          some (.event ⟨i, .adminTopup o n⟩ (.reply (.ok (.ok ()))), c') →
        own i c.glob.hist = [.booked o n, .credited o n]) ∧
      ((system cfg topupNotes).exec topupsUncut cs (Sys.start w) = some c →
        ∀ o, (∀ i n p, c.program i ≠ some (.adminTopup o n, p)) →
          balanceIn c.glob.world.accounts o - balanceIn w.accounts o =
            eventCents o c.glob.world.billing - eventCents o w.billing) := by
  obtain ⟨hledger, hsolvent⟩ := (ledgerPlan_valid cfg w).exec_inv (ledger_start w) hrun
  refine ⟨hledger, fun o => unbooked_nonneg hledger, hsolvent, ?_, ?_⟩
  · intro ch c' i o n hmove
    obtain ⟨-, hquiet⟩ | ⟨a, x, L, hl, -, -, hstep⟩ | ⟨e, hl, -⟩ :=
      (ledgerPlan_valid cfg w).exec_step (ledger_start w) hrun hmove rfl
    · exact absurd rfl (hquiet _ _)
    · obtain ⟨rfl, rfl⟩ : ⟨i, .adminTopup o n⟩ = a ∧ Event.reply (.ok (.ok ())) = x := by
        simpa using hl
      generalize c.glob = g at hstep ⊢
      generalize c'.glob = g' at hstep
      cases hstep with
      | reply _ _ _ _ hanswers => exact hanswers o n rfl rfl
    · exact absurd hl (by simp)
  · intro huncut o hidle
    have hbalance := hledger.balance o
    rw [unbooked_eq_zero huncut hidle] at hbalance
    omega

end Runs

/-- A top-up of 5 dollars that is killed after its credit, beside one of 2 dollars that is
done. -/
def topupCutOff : List Pick :=
  .spawn (.adminTopup 1 500) :: .spawn (.adminTopup 1 200) :: @List.replicate Pick 4 (.run 0) ++
    @List.replicate Pick 6 (.run 1) ++ ([.crash 0] : List Pick)

theorem ledger_agrees_cut_off :
    ∃ c, (system Config.default topupNotes).exec (fun _ _ => true) topupCutOff
        (Sys.start accountWorld) = some c ∧
      balanceIn c.glob.world.accounts 1 = 700 ∧ eventCents 1 c.glob.world.billing = 200 ∧
      unbooked 1 c.glob.hist = 500 ∧ Solvent c.glob.world := by
  obtain ⟨c, hrun, h⟩ := runs Config.default topupNotes (fun _ _ => true) topupCutOff accountWorld
    (fun c => decide (balanceIn c.glob.world.accounts 1 = 700) &&
      decide (eventCents 1 c.glob.world.billing = 200)) (by decide)
  simp only [Bool.and_eq_true, decide_eq_true_eq] at h
  obtain ⟨hbalance, hevents⟩ := h
  obtain ⟨hledger, -, hsolvent, -, -⟩ := ledger_agrees hrun
  have hopening : Solvent accountWorld := by
    intro o
    by_cases ho : o = 1
    · subst ho
      decide
    · simp [balanceIn, accountWorld, World.empty, ho]
  have hstart : balanceIn accountWorld.accounts 1 = 0 := by decide
  have hnone : eventCents 1 accountWorld.billing = 0 := by decide
  have hbooks := hledger.balance 1
  exact ⟨c, hrun, hbalance, hevents, by omega, hsolvent hopening⟩

end OpenUnion
