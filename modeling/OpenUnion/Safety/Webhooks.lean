import OpenUnion.Interleave.Progress
import OpenUnion.Safety.Basic

/-!
# Stripe top-ups

The webhook records the id of an event and then credits it in a transaction of its
own.  A delivery that finds the id recorded is acknowledged at once, so what it
promises is up to the delivery that recorded the id.

* `stripe_credited_once`: in every run an event is credited at most once.  If no
  delivery that has recorded its event fails or is rolled back, an event that is
  acknowledged has been credited, or the delivery that recorded it is still running
  and will credit it.
* `failed_delivery_is_acknowledged`: a run in which the first delivery fails in its
  transaction, and the second one is acknowledged without a credit.
-/

namespace OpenUnion

open Interleave

/-- The credits of a Stripe event. -/
def topups (e : Nat) (billing : List BillingEvent) : List BillingEvent :=
  billing.filter fun b => decide (b.kind = .stripeTopup e)

/-- Nothing is credited, or the event for the first time. -/
def TopsUp (e : Nat) (w w' : World) : Prop :=
  (w'.billing = w.billing ∧ balanceIn w'.accounts = balanceIn w.accounts) ∨
  topups e w.billing = [] ∧ ∃ b : BillingEvent, b.kind = .stripeTopup e ∧
    w'.billing = b :: w.billing ∧
    ∀ o, balanceIn w'.accounts o = balanceIn w.accounts o + if o = b.account then b.amountCents else 0

/-- No event is credited twice. -/
def ToppedUpOnce (w : World) : Prop := ∀ e, (topups e w.billing).length ≤ 1

section Credits

variable {w w' : World} {e : Nat}

theorem topups_cons {b : BillingEvent} {bs : List BillingEvent} (h : b.kind ≠ .stripeTopup e) :
    topups e (b :: bs) = topups e bs := by
  simp [topups, h]

theorem World.booked_iff : w.booked e = false ↔ topups e w.billing = [] := by
  simp [World.booked, topups]

theorem Webhook.topsUp (h : Webhook e w w') : TopsUp e w w' := by
  obtain ⟨accounts, billing, intents, status, hbooks, rfl⟩ := h
  obtain ⟨rfl, rfl, -⟩ | ⟨o, n, t, -, hbooked, hsome, rfl, rfl⟩ := hbooks
  · exact Or.inl ⟨rfl, rfl⟩
  · exact Or.inr ⟨World.booked_iff.mp hbooked, ⟨o, .stripeTopup e, n, t⟩, rfl, rfl,
      balanceIn_modify hsome fun _ => rfl⟩

theorem TopsUp.others (h : TopsUp e w w') {e' : Nat} (he : e' ≠ e) :
    topups e' w'.billing = topups e' w.billing := by
  obtain ⟨hsame, -⟩ | ⟨-, b, hkind, hbilling, -⟩ := h
  · rw [hsame]
  · rw [hbilling]
    exact topups_cons (by simpa [hkind] using he.symm)

theorem TopsUp.once (h : TopsUp e w w') (honce : ToppedUpOnce w) : ToppedUpOnce w' := by
  intro e'
  by_cases he : e' = e
  · subst he
    obtain ⟨hsame, -⟩ | ⟨hnone, b, hkind, hbilling, -⟩ := h
    · exact hsame ▸ honce e'
    · simp only [topups] at hnone
      simp [topups, hbilling, hkind, hnone]
  · rw [h.others he]
    exact honce e'

/-- A commit of another transaction credits no Stripe event. -/
theorem topups_commit {cfg : Config} {hold : Lock → World → World → Prop} {pid : Nat} {t : Tag}
    {L : List Lock} (h : t.Effect cfg hold pid L w w') (ht : ∀ i, t ≠ .stripeWebhook i) :
    topups e w'.billing = topups e w.billing := by
  obtain ⟨-, hsame⟩ | ⟨b, hkind, hbilling, -⟩ := h.ledger
  · rw [hsame]
  · rw [hbilling]
    refine topups_cons ?_
    cases t with
    | stripeWebhook i => exact absurd rfl (ht i)
    | resolveDispute d refund =>
        obtain ⟨-, p, hkind⟩ := hkind
        simp [hkind]
    | publishBounty k | closeBounty k n =>
        have hkind : b.kind = _ := hkind
        simp [hkind]
    | _ => exact hkind.elim

end Credits

/-- The plan: no Stripe event is credited twice. -/
def topupPlan {H : Type} (cfg : Config) (note : Actor Request → Happening → World → List H) :
    Plan (system cfg note) :=
  systemPlan cfg note (fun _ _ => true) (fun _ => True) (fun g => ToppedUpOnce g.world)
    (fun _ _ _ => True) fun _ _ _ => True

/-- Only the webhook's transaction credits a Stripe event. -/
theorem topupPlan_step {H : Type} {cfg : Config}
    {note : Actor Request → Happening → World → List H} {l : Step} {L : List Lock}
    {g g' : Glob World H} (h : (topupPlan cfg note).Move l L g g') :
    (∀ a e, l = .event a (.commit (.stripeWebhook e)) → TopsUp e g.world g'.world) ∧
      ((∀ a e, l ≠ .event a (.commit (.stripeWebhook e))) →
        ∀ e, topups e g'.world.billing = topups e g.world.billing) := by
  obtain ⟨-, -, hstep⟩ := h
  cases hstep with
  | stmt a s busy _ _ _ hout =>
      refine ⟨fun a e h => absurd h (by simp), fun _ e => ?_⟩
      change topups e (s.apply busy g.world).billing = _
      rw [s.apply_billing busy g.world]
      cases s with
      | billing b =>
          obtain ⟨o, n, -, -, hkind, -⟩ := Request.executes_billing hout.1
          dsimp only
          split_ifs
          · exact topups_cons (by simp [hkind])
          · rfl
      | _ => rfl
  | inner a s busy v _ _ _ =>
      exact ⟨fun a e h => absurd h (by simp), fun _ e =>
        congrArg (topups e) (Stmt.effect_billing s busy _ _)⟩
  | commit a t L v _ _ hcom =>
      refine ⟨fun a' e h => ?_, fun h e => topups_commit hcom.2 fun i hi => ?_⟩
      · obtain ⟨-, rfl⟩ : a = a' ∧ t = .stripeWebhook e := by simpa using h
        exact Webhook.topsUp hcom.2
      · exact h a i (by rw [hi])
  | reply a x _ _ => exact ⟨fun a e h => absurd h (by simp), fun _ _ => rfl⟩
  | env o _ => exact ⟨fun a e h => absurd h (by simp), fun _ _ => by cases o <;> rfl⟩

theorem topupPlan_valid {H : Type} (cfg : Config)
    (note : Actor Request → Happening → World → List H) : (topupPlan cfg note).Valid := by
  refine systemPlan_valid (fun _ _ _ => trivial) (fun l L g g' h => ?_) (fun _ _ _ _ _ _ => trivial)
    fun _ _ _ _ _ _ _ => trivial
  obtain ⟨hcommit, hothers⟩ := topupPlan_step h
  have honce : ToppedUpOnce g.world := h.inv
  by_cases hl : ∃ a e, l = .event a (.commit (.stripeWebhook e))
  · obtain ⟨a, e, hl⟩ := hl
    exact (hcommit a e hl).once honce
  · intro e
    rw [hothers (fun a e hl' => hl ⟨a, e, hl'⟩) e]
    exact honce e

/-- A delivery has recorded its event. -/
def recorded (_ : Actor Request) (x : Happening) (_ : World) : List Nat :=
  match x with
  | .stmt (.stripe (.insert e)) (r : Bool) => if r then [e] else []
  | _ => []

theorem mem_recorded {a : Actor Request} {x : Happening} {w : World} {e : Nat}
    (h : e ∈ recorded a x w) : ∃ r : Bool, x = .stmt (.stripe (.insert e)) r := by
  simp only [recorded] at h
  split at h
  · rename_i i r
    split_ifs at h
    · obtain rfl := List.mem_singleton.mp h
      exact ⟨r, rfl⟩
    · exact absurd h (by simp)
  · exact absurd h (by simp)

/-- No delivery fails, is rolled back or crashes once it has recorded its event, and
the deliveries of an event agree on whether it is a valid paid checkout. -/
def deliveriesSucceed (paid : Nat → Bool) : Step → Glob World Nat → Bool
  | .spawn (.stripeWebhook (.ok evt)), _ => evt.creditable == paid evt.id
  | .fault a, g => (own a.pid g.hist).isEmpty
  | .crash a, g => (own a.pid g.hist).isEmpty
  | .rollback a, g => (own a.pid g.hist).isEmpty
  | _, _ => true

/-- An event that is recorded has been credited, or a delivery has recorded it. -/
def RecordsNoted (paid : Nat → Bool) (g : Glob World Nat) : Prop :=
  ∀ e, (g.world.stripeEvents e).isSome → paid e = true →
    g.world.booked e = true ∨ ∃ j, (j, e) ∈ g.hist

/-- What a delivery that is acknowledged may rely on. -/
def Acknowledged (a : Actor Request) (g : Glob World Nat) (x : Reply) : Prop :=
  ∀ evt, a.req = .stripeWebhook (.ok evt) → evt.creditable = true → x = .ok (.ok ()) →
    g.world.booked evt.id = true ∨ own a.pid g.hist = [] ∧ ∃ j, (j, evt.id) ∈ g.hist

/-- The plan: what is recorded gets credited. -/
def deliveryPlan (cfg : Config) (paid : Nat → Bool) : Plan (system cfg recorded) :=
  { systemPlan cfg recorded (deliveriesSucceed paid)
      (fun q => ∀ evt, q = .stripeWebhook (.ok evt) → evt.creditable = paid evt.id)
      (RecordsNoted paid) (fun _ _ _ => True) (fun _ g g' => g.hist ⊆ g'.hist) with
    conduct := fun a =>
      { Request.conduct cfg (fun _ _ _ => True) a with
        out := fun g s busy => (Request.conduct cfg (fun _ _ _ => True) a).out g s busy ∧
          ∀ e, s = .stripe (.insert e) → ∃ evt, a.req = .stripeWebhook (.ok evt) ∧ evt.id = e }
    answers := Acknowledged }

section Delivery

variable {cfg : Config} {paid : Nat → Bool} {a : Actor Request} {evt : StripeEvent}

/-- The program of a delivery. -/
theorem Request.code_stripeWebhook (pid : Nat) :
    (Request.stripeWebhook (.ok evt)).code cfg pid =
      (OpenUnion.stripeWebhook (.ok evt)).bind fun r => .ret (.ok r) := rfl

/-- A delivery that has recorded its event answers 2xx only after crediting it. -/
theorem recorded_does {σ : Stage World Lock Nat} (ha : a.req = .stripeWebhook (.ok evt))
    (hσ : σ.Knows (deliveryPlan cfg paid).toTerms fun _ => True) :
    (((processStripeEvent evt).bind fun _ => .ret (Http.ok ())).orElse fun _ =>
        (run (.stripe (.setStatus evt.id .failed))).bind fun _ =>
          .ret (Http.error 500 "internal" "webhook_processing_failed")).Does
      (system cfg recorded) (deliveryPlan cfg paid).toTerms a ((deliveryPlan cfg paid).conduct a)
      (fun r σ => σ.Entails (deliveryPlan cfg paid).toTerms a.pid fun g =>
        Acknowledged a g (.ok r)) (fun _ _ => True) σ := by
  have htransaction := Prog.Body.does (m := system cfg recorded) (a := a)
    (D := (deliveryPlan cfg paid).conduct a)
    (fun _ : Unit => Tag.stripeWebhook evt.id) (fun _ => True)
    (fun _ L w w' => WebhookEnds evt w w')
    ((processStripeEvent_body (fun _ _ h => h)).mono fun _ _ _ _ h => ⟨trivial, h⟩) hσ
    (fun _ _ _ _ h => h) fun g _ L w _ h => ⟨by rw [ha]; exact ⟨_, rfl⟩, h.1⟩
  refine does_orElse.mpr (does_bind.mpr (htransaction.mono ?_ ?_ (fun _ _ _ h => h)
    (fun _ _ _ _ h => h) fun _ _ _ _ h => h))
  · rintro _ σ' ⟨-, -, g, v, -, -, hends, hfollows⟩ x _ hx evt' ha' hcreditable -
    obtain rfl : evt = evt' := by simpa using ha.symm.trans ha'
    obtain ⟨-, -, hgrow⟩ := hfollows x hx
    exact Or.inl (World.booked_of_suffix hgrow.billing (hends.2 hcreditable))
  · rintro _ σ' hσ'
    refine ⟨trivial, fun g busy _ _ _ => ⟨?_, fun x _ _ evt' _ _ h => absurd h (by simp)⟩⟩
    rw [hσ'.outside.1]
    exact ⟨⟨by rw [ha]; exact Or.inr trivial, trivial⟩, fun e h => absurd h (by simp)⟩

/-- A delivery of an event. -/
theorem stripeWebhook_does (ha : a.req = .stripeWebhook (.ok evt))
    (hpaid : evt.creditable = paid evt.id) :
    ((stripeWebhook (.ok evt)).bind fun r => .ret (.ok r)).Does
      (system cfg recorded) (deliveryPlan cfg paid).toTerms a ((deliveryPlan cfg paid).conduct a)
      (fun r σ => σ.Entails (deliveryPlan cfg paid).toTerms a.pid fun g => Acknowledged a g r)
      (fun _ _ => True) .start := by
  refine does_bind.mpr ⟨trivial, fun g busy hinv hg _ => ⟨⟨⟨by rw [ha]; exact Or.inr trivial, trivial⟩,
    fun e h => ⟨evt, ha, by simpa using h⟩⟩, ?_⟩⟩
  have hfollows := Stage.after_follows .start (system cfg recorded) (deliveryPlan cfg paid).toTerms a
    (.stripe (.insert evt.id)) busy g
  cases hrecorded : (g.world.stripeEvents evt.id).isNone with
  | true =>
      have hresult : (system cfg recorded).engine.result (.stripe (.insert evt.id)) busy
          (seenBy (Stage.start : Stage World Lock Nat).view g.world) = true := hrecorded
      rw [hresult]
      exact recorded_does ha ⟨Stage.Outside.after ⟨rfl, rfl⟩ _ busy g, fun _ _ _ => trivial⟩
  | false =>
      have hresult : (system cfg recorded).engine.result (.stripe (.insert evt.id)) busy
          (seenBy (Stage.start : Stage World Lock Nat).view g.world) = false := hrecorded
      rw [hresult]
      intro x _ hx evt' ha' hcreditable _
      obtain rfl : evt = evt' := by simpa using ha.symm.trans ha'
      obtain ⟨hown, hdrift, hgrow⟩ := hfollows x hx
      have hnotes : ((system cfg recorded).afterStmt a (.stripe (.insert evt.id)) busy none g).hist =
          g.hist := by
        simp [Machine.afterStmt, Machine.entries, system, recorded, seenBy, engine, Stmt.result,
          StripeStmt.result, hrecorded]
      rw [show (Stage.start : Stage World Lock Nat).view = none from rfl] at hown hdrift hgrow
      rw [hnotes] at hown
      obtain hbooked | ⟨j, hj⟩ := hinv evt.id (by simpa using hrecorded) (hpaid ▸ hcreditable)
      · exact Or.inl (World.booked_of_suffix hgrow.billing hbooked)
      · exact Or.inr ⟨hown.trans hg.trace, j, hdrift (hnotes ▸ hj)⟩

/-- Every request keeps to the plan. -/
theorem Request.delivery_does (i : Nat) (q : Request)
    (hasked : ∀ evt, q = .stripeWebhook (.ok evt) → evt.creditable = paid evt.id) :
    (q.code cfg i).Does (system cfg recorded) (deliveryPlan cfg paid).toTerms ⟨i, q⟩
      ((deliveryPlan cfg paid).conduct ⟨i, q⟩)
      (fun x σ => σ.Entails (deliveryPlan cfg paid).toTerms i fun g => Acknowledged ⟨i, q⟩ g x)
      (fun _ _ => True) .start := by
  by_cases hdelivery : ∃ evt, q = .stripeWebhook (.ok evt)
  · obtain ⟨evt, rfl⟩ := hdelivery
    exact stripeWebhook_does rfl (hasked evt rfl)
  · by_cases hrejected : ∃ message, q = .stripeWebhook (.error message)
    · obtain ⟨message, rfl⟩ := hrejected
      intro x _ _ evt h
      exact absurd h (by simp)
    · refine (Request.code_does (fun _ _ h => h) i q).mono ?_ (fun _ _ h => h) ?_
        (fun _ _ _ _ h => h) fun _ _ _ _ h => h
      · intro x σ _ g _ _ evt h
        exact absurd ⟨evt, h⟩ hdelivery
      · intro g s busy hout
        refine ⟨hout, ?_⟩
        rintro e rfl
        obtain ⟨event, rfl⟩ := Request.executes_stripe hout.1
        cases event with
        | error message => exact absurd ⟨message, rfl⟩ hrejected
        | ok evt => exact absurd ⟨evt, rfl⟩ hdelivery

end Delivery

section Plan

variable {cfg : Config} {paid : Nat → Bool} {g g' : Glob World Nat}

theorem RecordsNoted.kept (h : RecordsNoted paid g) (hgrow : g.world.Grows g'.world)
    (hhist : g.hist ⊆ g'.hist)
    (hrows : ∀ e, (g'.world.stripeEvents e).isSome →
      (g.world.stripeEvents e).isSome ∨ ∃ j, (j, e) ∈ g'.hist) : RecordsNoted paid g' := by
  intro e hrow hpaid
  obtain hrow | hnoted := hrows e hrow
  · obtain hbooked | ⟨j, hj⟩ := h e hrow hpaid
    · exact Or.inl (World.booked_of_suffix hgrow.billing hbooked)
    · exact Or.inr ⟨j, hhist hj⟩
  · exact Or.inr hnoted

/-- A row of `stripe_webhook_events` is there already, or it is noted. -/
theorem stripe_stmt_noted (cfg : Config) (a : Actor Request) {s : Stmt} {busy : Lock → Bool} {e : Nat}
    (h : ((s.apply busy g.world).stripeEvents e).isSome) :
    (g.world.stripeEvents e).isSome ∨
      (a.pid, e) ∈ ((system cfg recorded).afterStmt a s busy none g).hist := by
  rw [s.apply_stripeEvents busy g.world] at h
  cases s with
  | stripe s =>
      cases s with
      | insert i =>
          simp only [StripeStmt.write] at h
          split_ifs at h with hfree
          · by_cases he : e = i
            · subst he
              right
              simp [Machine.afterStmt, Machine.entries, system, recorded, seenBy, engine,
                Stmt.result, StripeStmt.result, Option.isNone_iff_eq_none.mp hfree]
            · exact Or.inl (by simpa [he] using h)
          · exact Or.inl h
      | setStatus i st =>
          left
          by_cases he : e = i
          · subst he
            simpa [StripeStmt.write] using h
          · simpa [StripeStmt.write, he] using h
  | _ => exact Or.inl h

theorem deliveryPlan_grows {l : Step} {L : List Lock} (h : (deliveryPlan cfg paid).Move l L g g') :
    g.world.Grows g'.world ∧ g.hist ⊆ g'.hist := by
  refine ⟨Conducted.grows (fun a g t L w (hcom : a.req.Ends t ∧
    t.Effect cfg (fun _ _ _ => True) a.pid L g.world w) => hcom.2.grows) h.conducted, ?_⟩
  obtain ⟨-, -, hstep⟩ := h
  cases hstep with
  | stmt a s busy _ _ _ _ => exact List.subset_append_right _ _
  | inner a s busy v _ _ _ => exact List.subset_append_right _ _
  | commit a t L v _ _ _ => exact List.subset_append_right _ _
  | reply a x _ _ _ => exact List.subset_append_right _ _
  | env o _ => exact List.Subset.refl _

theorem deliveryPlan_valid (cfg : Config) (paid : Nat → Bool) : (deliveryPlan cfg paid).Valid where
  grow_trans _ _ _ := World.Grows.trans
  grow_refl := World.Grows.refl
  hold_trans _ _ _ _ _ _ := trivial
  drift_refl _ _ := List.Subset.refl _
  drift_trans _ _ _ _ := List.Subset.trans
  spawn := by
    rintro q g hok evt rfl
    have hok : (evt.creditable == paid evt.id) = true := hok
    simpa using hok
  does i q hasked := Request.delivery_does i q hasked
  inv_step l L g g' h := by
    obtain ⟨hgrow, hhist⟩ := deliveryPlan_grows h
    obtain ⟨hinv, -, hstep⟩ := h
    have hinv : RecordsNoted paid g := hinv
    refine hinv.kept hgrow hhist fun e hrow => ?_
    cases hstep with
    | stmt a s busy _ _ _ _ =>
        obtain h | h := stripe_stmt_noted cfg a hrow
        · exact Or.inl h
        · exact Or.inr ⟨a.pid, h⟩
    | inner a s busy v _ _ _ =>
        left
        rwa [← Stmt.effect_stripeEvents s busy (v g.world) g.world]
    | commit a t L v _ _ hcom => exact Or.inl ((hcom.2.frame.2.2.2 e) ▸ hrow)
    | reply a x _ _ _ => exact Or.inl hrow
    | env o _ => exact Or.inl (by cases o <;> exact hrow)
  grow_step _ _ _ _ h := (deliveryPlan_grows h).1
  hold_step _ _ _ _ _ _ _ := trivial
  drift_step _ _ _ _ h _ _ := (deliveryPlan_grows h).2

end Plan

section Running

variable {cfg : Config} {paid : Nat → Bool} {w : World} {cs : List Pick} {c : State Nat}

/-- How far a delivery has got: it has not recorded its event, or it goes on to a 2xx. -/
def DeliveryAt (cfg : Config) (a : Actor Request) (p : Code Reply) (trace : List Nat) : Prop :=
  ∀ evt, a.req = .stripeWebhook (.ok evt) →
    (trace = [] ∧ (p = a.req.code cfg a.pid ∨ (∃ x, p = .ret x) ∨ ∃ e, p = .fail e)) ∨
    trace ≠ [] ∧ p.Delivers fun x => x = .ok (.ok ())

theorem recorded_delivers {evt : StripeEvent} :
    ((((processStripeEvent evt).bind fun _ => (.ret (Http.ok ()) : Code (Http Unit))).orElse fun _ =>
        (run (.stripe (.setStatus evt.id .failed))).bind fun _ =>
          .ret (Http.error 500 "internal" "webhook_processing_failed")).bind
      fun r => .ret (Reply.ok r)).Delivers fun x => x = .ok (.ok ()) :=
  Prog.Delivers.bind (.orElse (.bind (delivers_transaction fun _ => rfl)))

/-- A step of a delivery. -/
theorem DeliveryAt.step {a : Actor Request} {p rest : Code Reply} {l : Step} {g : Glob World Nat}
    (h : DeliveryAt cfg a p (own a.pid g.hist)) (hstep : p.Advances a l (some rest))
    (hok : deliveriesSucceed paid l g = true) :
    DeliveryAt cfg a rest (own a.pid ((system cfg recorded).noted l g.world ++ g.hist)) := by
  intro evt ha
  obtain ⟨htrace, hat⟩ | ⟨htrace, hdelivers⟩ := h evt ha
  · rw [own_append, htrace, List.append_nil]
    obtain rfl | ⟨x, rfl⟩ | ⟨e, rfl⟩ := hat
    · rw [ha, Request.code_stripeWebhook] at hstep
      cases hstep with
      | fault s next err => exact Or.inl ⟨rfl, Or.inr (Or.inr ⟨_, rfl⟩)⟩
      | stmt s next err r =>
          have hnoted : own a.pid ((system cfg recorded).noted
              (.event a (.stmt (.stripe (.insert evt.id)) r)) g.world) = if r then [evt.id] else [] :=
            own_entries_self
          rw [hnoted]
          cases r with
          | false => exact Or.inl ⟨rfl, Or.inr (Or.inl ⟨_, rfl⟩)⟩
          | true => exact Or.inr ⟨by simp, recorded_delivers⟩
    · cases hstep
    · cases hstep
  · right
    refine ⟨by simp [own_append, htrace], ?_⟩
    have hkept : ∀ b : Actor Request, b.pid = a.pid → (own b.pid g.hist).isEmpty = false := by
      intro b hb
      simpa [hb] using htrace
    obtain ⟨p', hp', hdelivers'⟩ | ⟨hnone, -⟩ := hdelivers.advances hstep
      (by rintro rfl; exact absurd hok (by simp [deliveriesSucceed, hkept a rfl]))
      (by rintro rfl; exact absurd hok (by simp [deliveriesSucceed, hkept a rfl]))
      (by rintro rfl; exact absurd hok (by simp [deliveriesSucceed, hkept a rfl]))
    · obtain rfl := Option.some.inj hp'
      exact hdelivers'
    · exact absurd hnone (by simp)

theorem delivery_programs
    (hrun : (system cfg recorded).exec (deliveriesSucceed paid) cs (Sys.start w) = some c) :
    ∀ i q p, c.program i = some (q, p) → DeliveryAt cfg ⟨i, q⟩ p (own i c.glob.hist) :=
  Machine.exec_programs (fun _ _ _ _ => Or.inl ⟨rfl, Or.inl rfl⟩)
    (fun _ _ _ _ _ h hstep hok => h.step hstep hok) hrun

/-- What a step of an allowed run notes and answers. -/
structure DeliveryStep (paid : Nat → Bool) (l : Step) (g g' : Glob World Nat) : Prop where
  grows : g.world.Grows g'.world
  records : ∀ a e (r : Bool), l = .event a (.stmt (.stripe (.insert e)) r) →
    ∃ evt, a.req = .stripeWebhook (.ok evt) ∧ evt.id = e
  answers : ∀ a x, l = .event a (.reply x) → Acknowledged a g x
  asked : ∀ a x evt, l = .event a x → a.req = .stripeWebhook (.ok evt) →
    evt.creditable = paid evt.id

theorem delivery_step {c' : State Nat} {ch : Pick} {l : Step} (hinv : RecordsNoted paid ⟨[], w⟩)
    (hrun : (system cfg recorded).exec (deliveriesSucceed paid) cs (Sys.start w) = some c)
    (hmove : (system cfg recorded).move ch c = some (l, c'))
    (hok : deliveriesSucceed paid l c.glob = true) :
    DeliveryStep paid l c.glob c'.glob := by
  obtain ⟨hsame, hquiet⟩ | ⟨a, x, L, rfl, h⟩ | ⟨o, rfl, h⟩ :=
    (deliveryPlan_valid cfg paid).exec_step hinv hrun hmove hok
  · exact ⟨hsame ▸ World.Grows.refl _, fun a e r h => absurd h (hquiet a _),
      fun a x h => absurd h (hquiet a _), fun a x _ h => absurd h (hquiet a x)⟩
  · refine ⟨(deliveryPlan_grows h).1, ?_, ?_, ?_⟩
    all_goals
      obtain ⟨-, -, hstep⟩ := h
      generalize c.glob = g at hstep ⊢
      generalize c'.glob = g' at hstep
    · rintro a' e r hl
      cases hstep with
      | stmt _ s busy _ _ _ hout =>
          obtain ⟨rfl, hevent⟩ : a = a' ∧ _ := by simpa using hl
          obtain ⟨rfl, -⟩ : s = .stripe (.insert e) ∧ _ := by simpa using hevent
          exact hout.2 e rfl
      | inner _ s busy v _ _ hinner =>
          obtain ⟨rfl, hevent⟩ : a = a' ∧ _ := by simpa using hl
          obtain ⟨rfl, -⟩ : s = .stripe (.insert e) ∧ _ := by simpa using hevent
          exact (hinner : False).elim
      | commit _ t L v _ _ _ => exact absurd hl (by simp)
      | reply _ x _ _ _ => exact absurd hl (by simp)
    · rintro a' x' hl
      cases hstep with
      | reply _ x _ _ hanswers =>
          obtain ⟨rfl, rfl⟩ : a = a' ∧ x = x' := by simpa using hl
          exact hanswers
      | _ => exact absurd hl (by simp)
    · rintro a' x' evt hl ha
      obtain ⟨rfl, -⟩ : a = a' ∧ _ := by simpa using hl
      cases hstep with
      | stmt _ _ _ _ hasked _ _ => exact hasked evt ha
      | inner _ _ _ _ _ hasked _ => exact hasked evt ha
      | commit _ _ _ _ _ hasked _ => exact hasked evt ha
      | reply _ _ _ hasked _ => exact hasked evt ha
  · exact ⟨(deliveryPlan_grows h).1, fun _ _ _ h => absurd h (by simp),
      fun _ _ h => absurd h (by simp), fun _ _ _ h => absurd h (by simp)⟩

/-- A delivery that has recorded a paid event is still running, or the event has been
credited. -/
theorem recorded_live (hinv : RecordsNoted paid ⟨[], w⟩)
    (hrun : (system cfg recorded).exec (deliveriesSucceed paid) cs (Sys.start w) = some c) :
    ∀ j e, (j, e) ∈ c.glob.hist → paid e = true → c.glob.world.booked e = true ∨
      ∃ evt p, c.program j = some (.stripeWebhook (.ok evt), p) ∧ evt.id = e := by
  refine Machine.exec_induction (I := fun c => ∀ j e, (j, e) ∈ c.glob.hist → paid e = true →
    c.glob.world.booked e = true ∨
      ∃ evt p, c.program j = some (.stripeWebhook (.ok evt), p) ∧ evt.id = e)
    (fun _ _ h => absurd h (by simp [Sys.start])) ?_ hrun
  intro cs c ch l c' hrun hlive hmove hok j e hj hpaid
  have hstep := delivery_step hinv hrun hmove hok
  have hbooked : c.glob.world.booked e = true → c'.glob.world.booked e = true :=
    World.booked_of_suffix hstep.grows.billing
  have hsame : (j, e) ∈ c.glob.hist → c'.program j = c.program j →
      c'.glob.world.booked e = true ∨
        ∃ evt p, c'.program j = some (.stripeWebhook (.ok evt), p) ∧ evt.id = e := by
    intro hj hprogram
    rw [hprogram]
    exact (hlive j e hj hpaid).imp_left hbooked
  obtain ⟨q, rfl, hnew, hothers, -, hglob⟩ | ⟨o, rfl, hothers, -, hhist⟩ |
      ⟨i, q, p, rest, hp, hadvances, hself, hothers, -, hhist⟩ := Machine.move_program hmove
  · rw [hglob] at hj
    refine hsame hj (hothers j ?_)
    rintro rfl
    have hnone := (Machine.exec_unused hrun _ (Nat.le_refl _)).2
    exact absurd (mem_own.mpr hj) (by simp [hnone])
  · exact hsame (hhist ▸ hj) (hothers j)
  · by_cases hij : j = i
    · subst hij
      by_cases hbefore : (j, e) ∈ c.glob.hist
      · obtain hcredited | ⟨evt, p', hp', rfl⟩ := hlive j e hbefore hpaid
        · exact Or.inl (hbooked hcredited)
        obtain ⟨rfl, rfl⟩ : q = .stripeWebhook (.ok evt) ∧ p = p' := by
          simpa using hp.symm.trans hp'
        have hown : own j c.glob.hist ≠ [] := List.ne_nil_of_mem (mem_own.mpr hbefore)
        obtain ⟨hnone, -⟩ | ⟨-, hdelivers⟩ := delivery_programs hrun j _ p hp evt rfl
        · exact absurd hnone hown
        have hlost : (own j c.glob.hist).isEmpty = false := by simpa using hown
        obtain ⟨p', rfl, -⟩ | ⟨-, x, rfl, rfl⟩ := hdelivers.advances hadvances
          (by rintro rfl; exact absurd hok (by simp [deliveriesSucceed, hlost]))
          (by rintro rfl; exact absurd hok (by simp [deliveriesSucceed, hlost]))
          (by rintro rfl; exact absurd hok (by simp [deliveriesSucceed, hlost]))
        · exact Or.inr ⟨evt, p', hself, rfl⟩
        · have hpaid' := hstep.asked _ _ evt rfl rfl
          obtain hcredited | ⟨hnone, -⟩ := hstep.answers _ _ rfl evt rfl (hpaid'.trans hpaid) rfl
          · exact Or.inl (hbooked hcredited)
          · exact absurd hnone hown
      · have hnoted : (j, e) ∈ (system cfg recorded).noted l c.glob.world := by
          rw [hhist] at hj
          exact (List.mem_append.mp hj).resolve_right hbefore
        cases hadvances with
        | stmt s next err r =>
            obtain ⟨n, hn, hpair⟩ := List.mem_map.mp hnoted
            obtain rfl : n = e := congrArg Prod.snd hpair
            obtain ⟨r', hevent⟩ := mem_recorded (a := ⟨j, q⟩) (w := c.glob.world) hn
            obtain ⟨evt, hreq, hid⟩ := hstep.records ⟨j, q⟩ n r' (by rw [hevent])
            obtain rfl : q = .stripeWebhook (.ok evt) := hreq
            exact Or.inr ⟨evt, _, hself, hid⟩
        | reply x | commit t next err =>
            exact absurd hnoted (by simp [Machine.noted, Machine.entries, system, recorded])
        | _ => exact absurd hnoted (by simp [Machine.noted])
    · refine hsame ?_ (hothers j hij)
      have hown := hadvances.own_hist hhist hij
      exact mem_own.mp (hown ▸ mem_own.mpr hj)

/-- Process `j` is a delivery of event `e` that is still running, and in every run from
here on it answers 2xx only after the event has been credited. -/
structure WillCredit (cfg : Config) (paid : Nat → Bool) (e j : Nat) (c : State Nat) : Prop where
  running : ∃ evt p, c.program j = some (.stripeWebhook (.ok evt), p) ∧ evt.id = e
  credits : ∀ ds d ch l d' q, (system cfg recorded).exec (deliveriesSucceed paid) ds c = some d →
    (system cfg recorded).move ch d = some (l, d') → deliveriesSucceed paid l d.glob = true →
    l = .event ⟨j, q⟩ (.reply (.ok (.ok ()))) → d.glob.world.booked e = true

/-- The delivery that has recorded a paid event will credit it. -/
theorem recorded_willCredit {j e : Nat} (hinv : RecordsNoted paid ⟨[], w⟩)
    (hrun : (system cfg recorded).exec (deliveriesSucceed paid) cs (Sys.start w) = some c)
    (hj : (j, e) ∈ c.glob.hist) (hpaid : paid e = true) (hnot : c.glob.world.booked e = false) :
    WillCredit cfg paid e j c := by
  obtain hbooked | hlive := recorded_live hinv hrun j e hj hpaid
  · exact absurd hbooked (by simp [hnot])
  refine ⟨hlive, ?_⟩
  rintro ds d ch l d' q hd hmove hok rfl
  have hrun' : (system cfg recorded).exec (deliveriesSucceed paid) (cs ++ ds) (Sys.start w) = some d := by
    rw [Machine.exec_append hrun, hd]
  have hkept : (j, e) ∈ d.glob.hist :=
    (deliveryPlan_valid cfg paid).exec_rel (r := fun g g' : Glob World Nat => g.hist ⊆ g'.hist)
      (fun _ => List.Subset.refl _) (fun _ _ _ => List.Subset.trans)
      (fun _ _ _ _ h => (deliveryPlan_grows h).2) hinv hrun hd hj
  have hstep := delivery_step hinv hrun' hmove hok
  obtain hbooked | ⟨evt, p, hp, rfl⟩ := recorded_live hinv hrun' j e hkept hpaid
  · exact hbooked
  obtain ⟨p', -, hp', -⟩ := Machine.move_actor hmove
  obtain rfl : q = .stripeWebhook (.ok evt) := by
    simpa using congrArg (Option.map Prod.fst) (hp'.symm.trans hp)
  have hcreditable := (hstep.asked _ _ evt rfl rfl).trans hpaid
  obtain hbooked | ⟨hnone, -⟩ := hstep.answers _ _ rfl evt rfl hcreditable rfl
  · exact hbooked
  · exact absurd (mem_own.mpr hkept) (by simp [hnone])

end Running

/-- **Stripe top-ups are credited exactly once.** In every run the webhook's transaction
is the only step that credits an event, and no event is credited twice.  In the runs in
which no delivery fails or is rolled back once it has recorded its event, a delivery of
a paid checkout is answered 2xx only if the event has been credited or another delivery
of it is running that will credit it. -/
theorem stripe_credited_once {cfg : Config} {paid : Nat → Bool} {w : World} {cs : List Pick}
    {c c' : State Nat} {ch : Pick} {l : Step} (honce : ToppedUpOnce w)
    (hinv : RecordsNoted paid ⟨[], w⟩)
    (hrun : (system cfg recorded).exec (fun _ _ => true) cs (Sys.start w) = some c)
    (hmove : (system cfg recorded).move ch c = some (l, c')) :
    ToppedUpOnce c.glob.world ∧
      (∀ a e, l = .event a (.commit (.stripeWebhook e)) → TopsUp e c.glob.world c'.glob.world) ∧
      ((∀ a e, l ≠ .event a (.commit (.stripeWebhook e))) → ∀ e,
        topups e c'.glob.world.billing = topups e c.glob.world.billing) ∧
      ((system cfg recorded).exec (deliveriesSucceed paid) cs (Sys.start w) = some c →
        deliveriesSucceed paid l c.glob = true → ∀ pid evt, evt.creditable = true →
        l = .event ⟨pid, .stripeWebhook (.ok evt)⟩ (.reply (.ok (.ok ()))) →
        c.glob.world.booked evt.id = true ∨ ∃ j, j ≠ pid ∧ WillCredit cfg paid evt.id j c) := by
  refine ⟨(topupPlan_valid cfg recorded).exec_inv honce hrun, ?_⟩
  have hsteps : (∀ a e, l = .event a (.commit (.stripeWebhook e)) →
        TopsUp e c.glob.world c'.glob.world) ∧
      ((∀ a e, l ≠ .event a (.commit (.stripeWebhook e))) → ∀ e,
        topups e c'.glob.world.billing = topups e c.glob.world.billing) := by
    obtain ⟨hsame, hquiet⟩ | ⟨a, x, L, rfl, h⟩ | ⟨o, rfl, h⟩ :=
      (topupPlan_valid cfg recorded).exec_step honce hrun hmove rfl
    · exact ⟨fun a e h => absurd h (hquiet a _), fun _ e => by rw [hsame]⟩
    · exact topupPlan_step h
    · exact topupPlan_step h
  refine ⟨hsteps.1, hsteps.2, ?_⟩
  rintro hrun hok pid evt hcreditable rfl
  have hstep := delivery_step hinv hrun hmove hok
  have hpaid : paid evt.id = true := (hstep.asked _ _ evt rfl rfl).symm.trans hcreditable
  obtain hbooked | ⟨hown, j, hj⟩ := hstep.answers _ _ rfl evt rfl hcreditable rfl
  · exact Or.inl hbooked
  · cases hbooked : c.glob.world.booked evt.id with
    | true => exact Or.inl rfl
    | false =>
        refine Or.inr ⟨j, ?_, recorded_willCredit hinv hrun hj hpaid hbooked⟩
        rintro rfl
        exact absurd (mem_own.mpr hj) (by simp [hown])

/-- A paid checkout of 5 dollars. -/
def checkoutPaid : StripeEvent := ⟨7, some ⟨true, some 1, some 1, some 1, 500, true⟩⟩

/-- An organisation with an account. -/
def accountWorld : World :=
  { World.empty with accounts := Function.update World.empty.accounts 1 (some ⟨0⟩) }

/-- The event is delivered again while its first delivery is still running. -/
def redelivered : List Pick :=
  .spawn (.stripeWebhook (.ok checkoutPaid)) :: @List.replicate Pick 3 (.run 0) ++
    ([.spawn (.stripeWebhook (.ok checkoutPaid)), .run 1] : List Pick)

/-- The step answers 2xx to the delivery `pid` of `evt`. -/
def acknowledges (pid : Nat) (evt : StripeEvent) : Step → Bool
  | .event ⟨i, .stripeWebhook (.ok evt')⟩ (.reply (.ok (.ok ()))) => decide (i = pid ∧ evt' = evt)
  | _ => false

theorem eq_of_acknowledges {pid : Nat} {evt : StripeEvent} {l : Step}
    (h : acknowledges pid evt l = true) :
    l = .event ⟨pid, .stripeWebhook (.ok evt)⟩ (.reply (.ok (.ok ()))) := by
  simp only [acknowledges] at h
  split at h
  · obtain ⟨rfl, rfl⟩ := of_decide_eq_true h
    rfl
  · exact absurd h (by simp)

theorem accountWorld_toppedUpOnce : ToppedUpOnce accountWorld :=
  fun e => by simp [topups, accountWorld, World.empty]

theorem accountWorld_recordsNoted (paid : Nat → Bool) : RecordsNoted paid ⟨[], accountWorld⟩ :=
  fun e h => absurd h (by simp [accountWorld, World.empty])

theorem stripe_credited_once_redelivered :
    ∃ c l c', (system Config.default recorded).exec (deliveriesSucceed fun _ => true) redelivered
        (Sys.start accountWorld) = some c ∧
      (system Config.default recorded).move (.run 1) c = some (l, c') ∧
      l = .event ⟨1, .stripeWebhook (.ok checkoutPaid)⟩ (.reply (.ok (.ok ()))) ∧
      ∃ j, j ≠ 1 ∧ WillCredit Config.default (fun _ => true) 7 j c := by
  obtain ⟨c, l, c', hrun, hmove, h⟩ := runs_and_moves Config.default recorded
    (deliveriesSucceed fun _ => true) redelivered accountWorld (.run 1)
    (fun l c _ => deliveriesSucceed (fun _ => true) l c.glob && !c.glob.world.booked 7 &&
      acknowledges 1 checkoutPaid l) (by decide)
  simp only [Bool.and_eq_true, Bool.not_eq_true'] at h
  obtain ⟨⟨hok, hnot⟩, hl⟩ := h
  have hl := eq_of_acknowledges hl
  obtain ⟨-, -, -, hacknowledged⟩ := stripe_credited_once
    accountWorld_toppedUpOnce (accountWorld_recordsNoted fun _ => true)
    (Machine.exec_mono (fun _ _ _ => rfl) hrun) hmove
  obtain hbooked | hother := hacknowledged hrun hok 1 checkoutPaid (by decide) hl
  · exact absurd (hnot.symm.trans hbooked) (by simp)
  · exact ⟨c, l, c', hrun, hmove, hl, hother⟩

/-- The first delivery fails in its transaction and is answered 500; the event is
delivered again. -/
def failedFirst : List Pick :=
  .spawn (.stripeWebhook (.ok checkoutPaid)) :: .run 0 :: .run 0 :: .fault 0 :: @List.replicate Pick 3 (.run 0) ++
    ([.spawn (.stripeWebhook (.ok checkoutPaid)), .run 1] : List Pick)

/-- The second delivery is answered 2xx; the event is not credited, and no other
delivery is running. -/
theorem failed_delivery_is_acknowledged :
    ToppedUpOnce accountWorld ∧ RecordsNoted (fun _ => true) ⟨[], accountWorld⟩ ∧
    ∃ c l c', (system Config.default recorded).exec (fun _ _ => true) failedFirst
        (Sys.start accountWorld) = some c ∧
      (system Config.default recorded).move (.run 1) c = some (l, c') ∧
      l = .event ⟨1, .stripeWebhook (.ok checkoutPaid)⟩ (.reply (.ok (.ok ()))) ∧
      checkoutPaid.creditable = true ∧ c.glob.world.booked checkoutPaid.id = false ∧
      ∀ j, j ≠ 1 → c.program j = none := by
  obtain ⟨c, l, c', hrun, hmove, h⟩ := runs_and_moves Config.default recorded
    (fun _ _ => true) failedFirst accountWorld (.run 1)
    (fun l c _ => acknowledges 1 checkoutPaid l && !c.glob.world.booked 7 &&
      (c.program 0).isNone && decide (c.nextPid = 2)) (by decide)
  simp only [Bool.and_eq_true, Bool.not_eq_true', decide_eq_true_eq] at h
  obtain ⟨⟨⟨hl, hnot⟩, hfirst⟩, hnext⟩ := h
  refine ⟨accountWorld_toppedUpOnce, accountWorld_recordsNoted _, c, l, c', hrun, hmove,
    eq_of_acknowledges hl, by decide, hnot, fun j hj => ?_⟩
  by_cases hzero : j = 0
  · exact hzero ▸ Option.isNone_iff_eq_none.mp hfirst
  · exact (Machine.exec_unused hrun j (by omega)).1

end OpenUnion
