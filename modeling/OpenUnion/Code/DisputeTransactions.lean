import OpenUnion.Code.Transactions

/-!
# The dispute transactions do what they are said to do

Opening, cancelling and resolving a dispute.  The dispute row is locked when it
is read for closing, and the payout row before it is refunded, so what was
checked there still holds at the commit; the event of an unblocked payout is
scheduled no earlier than the hold window of the locked payout allows.
-/

namespace OpenUnion

open Interleave

section Bodies

variable {H : Type} {cfg : Config} {note : Actor Request → Happening → World → List H}
  {τ : Terms World Lock H} {a : Actor Request} {D : Conduct Stmt Tag World Lock H} {tags : Tag → Prop} {known : World → Prop}

theorem openDispute_body {target : DisputeTarget} {p holdUntil now : Nat} {L : List Lock}
    {P : World → Prop} (howner : ∀ x, P x → x.payoutOwner p = some target.orgId) :
    Body cfg τ (openDispute target p holdUntil now)
      (fun d v _ P => ∀ w, P w → DisputeOpened d p w (v w)) id L P := by
  refine body_run (fun _ => trivial) fun w₁ _ v₁ P₁ _ hv₁ hP₁ => ?_
  obtain rfl : v₁ = id := funext hv₁
  simp only [Stmt.result, id_eq]
  generalize w₁.nextId = d
  refine body_run (fun _ => trivial) fun w₂ _ v₂ P₂ _ hv₂ hP₂ => ?_
  simp only [Stmt.result, DisputeStmt.result, id_eq] at hv₂ ⊢
  cases hfree : w₂.disputes d with
  | some r =>
      simp only [Option.isNone_some]
      trivial
  | none =>
      simp only [Option.isNone_none]
      obtain ⟨row, hpayout, hopen, horg, hv₂⟩ : ∃ row : Dispute, row.payoutId = some p ∧
          row.status = .opened ∧ row.orgId = target.orgId ∧
          ∀ x, v₂ x = (Stmt.dispute (.insert d row)).write _ w₂ x :=
        ⟨_, rfl, rfl, rfl, hv₂⟩
      obtain rfl : v₂ = fun x => { x with disputes := Function.update x.disputes d (some row) } := by
        funext x
        rw [hv₂]
        simp [Stmt.write, DisputeStmt.write, hfree]
      refine body_run (fun _ => trivial) fun w₃ _ v₃ P₃ _ hv₃ hP₃ => ?_
      refine body_run (fun _ => trivial) fun w₄ _ v₄ P₄ _ hv₄ hP₄ => ?_
      refine body_run (fun _ => trivial) fun w₅ _ v₅ P₅ _ hv₅ hP₅ => ?_
      intro w hw
      obtain ⟨h₄, -, -, hlock₅⟩ := hP₅ w hw
      obtain ⟨h₂, -, -, hlock₂⟩ := hP₂ w (hP₃ w (hP₄ w h₄).1).1
      have hdispute : w₂.disputes d = w.disputes d :=
        (hlock₂ (.dispute d) (by simp [Stmt.locks, DisputeStmt.locks])).1
      have hevent : w₅.outbox (.disputeAutoRefund d) = w.outbox (.disputeAutoRefund d) :=
        (hlock₅ (.outbox (.disputeAutoRefund d)) (by simp [Stmt.locks, OutboxStmt.locks])).1
      refine ⟨row, (v₅ w).outbox, (v₅ w).outboxKeys, now, hdispute ▸ hfree, hpayout,
        hopen, ?_, ?_, ?_, ?_, ?_⟩
      · rw [horg]
        exact howner w (hP₁ w (hP₂ w (hP₃ w (hP₄ w h₄).1).1).1).1
      · intro k hk hk'
        simp only [hv₅, hv₄, hv₃, Stmt.write, OutboxStmt.write]
        split_ifs <;> simp [hk, hk']
      · simp only [hv₅, hv₄, hv₃, Stmt.write, OutboxStmt.write]
        split_ifs <;> simp
      · simp only [hv₅, hv₄, hv₃, Stmt.write, OutboxStmt.write]
        split_ifs with hnone
        · refine Or.inr ⟨?_, .fresh holdUntil now, by simp, rfl, rfl⟩
          rw [← hevent]
          simpa using hnone
        · refine Or.inl ⟨by simp, fun h => hnone ?_⟩
          rw [← hevent] at h
          simpa using h
      · simp only [hv₅, hv₄, hv₃]
        rfl

/-- The target of a dispute belongs to the organisation of its payout. -/
theorem World.disputeTarget_owner {w : World} {s p : Nat} {row : Payout} {target : DisputeTarget}
    (h : w.disputeTarget s (some (p, row)) = some target) (hrow : w.payouts p = some row)
    (hs : row.submissionId = s) : w.payoutOwner p = some target.orgId := by
  simp only [World.disputeTarget, Option.bind_eq_some_iff, Option.map_eq_some_iff] at h
  obtain ⟨sub, hsub, job, hjob, bounty, hbounty, rfl⟩ := h
  exact World.payoutOwner_eq_some.mpr ⟨row, sub, job, bounty, hrow, hs ▸ hsub, hjob, hbounty, rfl⟩

/-- The payout a dispute target names is one of the target's organisation. -/
def DisputeTarget.Owned (found : Option DisputeTarget) (w : World) : Prop :=
  ∀ target p row, found = some target → target.payout = some (p, row) →
    w.payoutOwner p = some target.orgId

theorem World.disputeTarget_payout {w : World} {s : Nat} {payout : Option (Nat × Payout)}
    {target : DisputeTarget} (h : w.disputeTarget s payout = some target) :
    target.payout = payout := by
  simp only [World.disputeTarget, Option.bind_eq_some_iff, Option.map_eq_some_iff] at h
  obtain ⟨sub, -, job, -, bounty, -, rfl⟩ := h
  rfl

theorem Query.disputeTargetByPayout_owned (p : Nat) (w : World) :
    DisputeTarget.Owned ((Query.disputeTargetByPayout p).eval w) w := by
  intro target q row hfound hpayout
  simp only [Query.eval, Option.bind_eq_some_iff] at hfound
  obtain ⟨r, hr, htarget⟩ := hfound
  have heq := World.disputeTarget_payout htarget
  rw [hpayout, Option.some.injEq, Prod.mk.injEq] at heq
  obtain ⟨rfl, rfl⟩ := heq
  exact World.disputeTarget_owner htarget hr rfl

theorem Query.disputeTargetBySubmission_owned (s : Nat) (w : World) :
    DisputeTarget.Owned ((Query.disputeTargetBySubmission s).eval w) w := by
  intro target q row hfound hpayout
  simp only [Query.eval] at hfound
  have heq := World.disputeTarget_payout hfound
  rw [hpayout] at heq
  rw [← heq] at hfound
  obtain ⟨p, -, hp⟩ := Option.bind_eq_some_iff.mp heq.symm
  obtain ⟨r, hr, hpair⟩ := Option.map_eq_some_iff.mp hp
  rw [Prod.mk.injEq] at hpair
  obtain ⟨rfl, rfl⟩ := hpair
  obtain ⟨hrow, hs⟩ := Option.filter_eq_some_iff.mp hr
  exact World.disputeTarget_owner hfound hrow (by simpa using hs)

theorem DisputeTarget.Owned.grows {found : Option DisputeTarget} {w w' : World}
    (h : DisputeTarget.Owned found w) (hgrow : w.Grows w') : DisputeTarget.Owned found w' :=
  fun target p row hfound hpayout => hgrow.payoutOwner (h target p row hfound hpayout)

theorem resolveTarget_body (hgrow : ∀ w w', τ.grow w w' → w.Grows w') {p s : Option Nat}
    {F : BodyGoal World Lock (Option DisputeTarget)} {L : List Lock} {P : World → Prop}
    (h : ∀ found P', (∀ x, P' x → P x ∧ DisputeTarget.Owned found x) → F found id L P') :
    Body cfg τ (resolveTarget p s) F id L P := by
  cases p with
  | some p =>
      refine ⟨fun _ _ => trivial, trivial, fun w busy v' P' _ hv' hP' => ?_⟩
      obtain rfl : v' = id := funext hv'
      exact h _ P' fun x hx => ⟨(hP' x hx).1,
        (Query.disputeTargetByPayout_owned p w).grows (hgrow _ _ (hP' x hx).2.1)⟩
  | none =>
      cases s with
      | some s =>
          refine ⟨fun _ _ => trivial, trivial, fun w busy v' P' _ hv' hP' => ?_⟩
          obtain rfl : v' = id := funext hv'
          exact h _ P' fun x hx => ⟨(hP' x hx).1,
            (Query.disputeTargetBySubmission_owned s w).grows (hgrow _ _ (hP' x hx).2.1)⟩
      | none => exact h none P fun _ hx => ⟨hx, fun _ _ _ hfound => absurd hfound (by simp)⟩

theorem createDispute_keeps {o : Nat} {p s : Option Nat} (hD : Lenient cfg τ a.pid D tags)
    (htag : ∀ d p, tags (.createDispute d p)) :
    (createDispute o p s).Keeps (system cfg note) τ a D known := by
  simp only [createDispute]
  split_ifs
  · exact Prog.keeps_fail
  · refine hD.transaction (fun r => htag r.1 r.2) ?_
    refine body_ask (fun _ => trivial) fun w₁ P₁ _ _ =>
      body_bind.mpr (resolveTarget_body hD.grow fun found P₂ hP₂ => ?_)
    cases found with
    | none => trivial
    | some target =>
        dsimp only
        split_ifs
        · trivial
        · cases hpayout : target.payout with
          | none => trivial
          | some row =>
              obtain ⟨payoutId, payout⟩ := row
              dsimp only
              split_ifs
              · trivial
              · cases payout.holdUntil with
                | none => trivial
                | some holdUntil =>
                    refine body_ask (fun _ => trivial) fun w₃ P₃ _ hP₃ => ?_
                    split_ifs
                    · trivial
                    · refine body_ask (fun _ => trivial) fun w₄ P₄ _ hP₄ => ?_
                      cases (Query.openDispute payoutId).eval (id w₄) with
                      | some d => trivial
                      | none =>
                          refine body_bind.mpr (openDispute_body fun x hx => ?_)
                          exact (hP₂ x (hP₃ x (hP₄ x hx).1).1).2 target payoutId payout rfl hpayout

/-- A payout and the time its event may be delivered at. -/
def DueAt (p availableAt : Nat) (x : World) : Prop :=
  ∃ row, x.payouts p = some row ∧ ∀ h, row.holdUntil = some h → h ≤ max availableAt x.now

/-- Make the existing `payout.requested` event pending again. -/
theorem reopen_body {p availableAt : Nat} {reset clear : Bool} (base : World → World)
    {F : BodyGoal World Lock Unit} {L : List Lock} {P : World → Prop}
    (hbase : ∀ x, (base x).outbox = x.outbox)
    (hevent : ∀ x, P x → ∃ e, x.outbox (.payout p) = some e)
    (hdue : ∀ x, P x → DueAt p availableAt x)
    (h : ∀ (outbox : World → OutboxKey → Option OutboxEvent) (keys : World → List OutboxKey) L' P',
      L ⊆ L' → (∀ x, P' x → P x ∧ Reschedules p x (outbox x)) →
      F () (fun x => { base x with outbox := outbox x, outboxKeys := keys x }) L' P') :
    Body cfg τ (run (.outbox (.reopen (.payout p) availableAt reset clear))) F base L P := by
  refine ⟨fun _ _ => trivial, trivial, fun w _ v' P' hw hv' hP' => ?_⟩
  obtain rfl : v' = fun x => { base x with
      outbox := modify x.outbox (.payout p) (OutboxStmt.reopened availableAt reset clear)
      outboxKeys := (base x).outboxKeys } := by
    funext x
    rw [hv', ← hbase x]
    rfl
  refine h _ _ _ P' (by simp) fun x hx => ?_
  have hx₀ := (hP' x hx).1
  obtain ⟨e, he⟩ := hevent x hx₀
  obtain ⟨row, hrow, hhold⟩ := hdue x hx₀
  refine ⟨hx₀, fun k hk => modify_of_ne hk, row, OutboxStmt.reopened availableAt reset clear e,
    hrow, by simp [he], ⟨rfl, rfl, hhold⟩, fun hnone => ?_⟩
  exact absurd (hnone.symm.trans he) (by simp)

/-- Insert the missing `payout.requested` event. -/
theorem insertEvent_body {p availableAt now : Nat} (base : World → World)
    {F : BodyGoal World Lock Unit} {L : List Lock} {P : World → Prop}
    (hbase : ∀ x, (base x).outbox = x.outbox) (hdue : ∀ x, P x → DueAt p availableAt x)
    (h : ∀ (outbox : World → OutboxKey → Option OutboxEvent) (keys : World → List OutboxKey) L' P',
      L ⊆ L' → (∀ x, P' x → P x ∧ Reschedules p x (outbox x)) →
      F () (fun x => { base x with outbox := outbox x, outboxKeys := keys x }) L' P') :
    Body cfg τ ((run (.outbox (.insert (.payout p) availableAt now))).bind orUniqueViolation) F base L
      P := by
  refine body_run (fun _ => trivial) fun w _ v' P' hw hv' hP' => ?_
  simp only [Stmt.result, OutboxStmt.result, hbase]
  cases hfree : w.outbox (.payout p) with
  | some e =>
      simp only [Option.isNone_some, orUniqueViolation]
      trivial
  | none =>
      simp only [Option.isNone_none, orUniqueViolation]
      obtain rfl : v' = fun x => { base x with
          outbox := Function.update x.outbox (.payout p) (some (.fresh availableAt now))
          outboxKeys := (base x).outboxKeys ++ [.payout p] } := by
        funext x
        rw [hv', ← hbase x]
        simp [Stmt.write, OutboxStmt.write, OutboxStmt.writeKeys, hbase, hfree]
      refine h _ _ _ P' (by simp) fun x hx => ?_
      have hx₀ := (hP' x hx).1
      obtain ⟨row, hrow, hhold⟩ := hdue x hx₀
      refine ⟨hx₀, fun k hk => Function.update_of_ne hk _ _, row, .fresh availableAt now, hrow,
        by simp, ⟨rfl, rfl, hhold⟩, fun _ => rfl⟩

theorem resumeAt_due {p t now : Nat} {row : Payout} {x : World} (hrow : x.payouts p = some row)
    (ht : t ≤ x.now) : DueAt p (resumeAt row.holdUntil t now) x := by
  refine ⟨row, hrow, fun hold hhold => ?_⟩
  rw [hhold, resumeAt]
  split_ifs <;> omega

/-- The payout part of a cancellation: unblock it and reschedule its event. -/
theorem resumePayout_body (hgrow : ∀ w w', τ.grow w w' → w.Grows w') {p now : Nat} {clear : Bool}
    {base : World → World} {F : BodyGoal World Lock Unit} {L : List Lock} {P : World → Prop}
    (hpayouts : ∀ x, (base x).payouts = x.payouts) (houtbox : ∀ x, (base x).outbox = x.outbox)
    (hnow : ∀ x, (base x).now = x.now)
    (h : ∀ (outbox : World → OutboxKey → Option OutboxEvent) (keys : World → List OutboxKey) L' P',
      L ⊆ L' → (∀ x, P' x → P x ∧ Reschedules p x (outbox x)) →
      F () (fun x => { base x with
        payouts := modify x.payouts p fun r => { r with blockedReason := none }
        outbox := outbox x, outboxKeys := keys x }) L' P') :
    Body cfg τ (resumePayout p now clear) F base L P := by
  refine body_run (fun _ => trivial) fun w₁ _ v₁ P₁ hw₁ hv₁ hP₁ => ?_
  obtain rfl : v₁ = fun x => { base x with
      payouts := modify x.payouts p fun r => { r with blockedReason := none } } := by
    funext x
    rw [hv₁, ← hpayouts x]
    rfl
  refine body_ask (fun _ => trivial) fun w₂ P₂ hw₂ hP₂ => ?_
  cases hrow : w₂.payouts p with
  | none =>
      simp only [Query.eval, modify_self, hrow]
      trivial
  | some row =>
      simp only [Query.eval, modify_self, hrow]
      refine body_ask (fun _ => trivial) fun w₃ P₃ hw₃ hP₃ =>
        body_ask (fun _ => trivial) fun w₄ P₄ hw₄ hP₄ => ?_
      dsimp only [Query.eval]
      rw [hnow w₃, houtbox w₄]
      -- the hold window is that of the locked row, and over once `t` is past it
      have hdue : ∀ x, P₄ x → DueAt p (resumeAt row.holdUntil w₃.now now) x := by
        intro x hx
        obtain ⟨hx₃, -⟩ := hP₄ x hx
        obtain ⟨hx₂, hgrown, -⟩ := hP₃ x hx₃
        have hsame : w₂.payouts p = x.payouts p :=
          ((hP₂ x hx₂).2.2 (.payout p) (by simp [Stmt.locks, PayoutStmt.locks])).1
        exact resumeAt_due (hsame ▸ hrow) (hgrow _ _ hgrown).now
      have hdone : ∀ x, P₄ x → P x := fun x hx =>
        (hP₁ x (hP₂ x (hP₃ x (hP₄ x hx).1).1).1).1
      cases hevent : w₄.outbox (.payout p) with
      | some e =>
          refine reopen_body (fun x => { base x with
              payouts := modify x.payouts p fun r => { r with blockedReason := none } })
            houtbox ?_ hdue fun outbox keys L' P' hL hP' => ?_
          · intro x hx
            obtain ⟨e', he', -⟩ := (hgrow _ _ (hP₄ x hx).2.1).outbox _ e hevent
            exact ⟨e', he'⟩
          · exact h outbox keys L' P' (fun k hk => hL (by simp [hk]))
              fun x hx => ⟨hdone x (hP' x hx).1, (hP' x hx).2⟩
      | none =>
          refine insertEvent_body (fun x => { base x with
              payouts := modify x.payouts p fun r => { r with blockedReason := none } })
            houtbox hdue fun outbox keys L' P' hL hP' => ?_
          exact h outbox keys L' P' (fun k hk => hL (by simp [hk]))
            fun x hx => ⟨hdone x (hP' x hx).1, (hP' x hx).2⟩

theorem cancelDispute_keeps {o d : Nat} (hD : Lenient cfg τ a.pid D tags)
    (htag : tags (.cancelDispute d)) :
    (cancelDispute o d).Keeps (system cfg note) τ a D known := by
  refine hD.transaction (fun _ => htag) ?_
  refine body_ask (fun _ => trivial) fun w₁ P₁ _ _ =>
    body_run (fun _ => trivial) fun w₂ _ v₂ P₂ _ hv₂ hP₂ => ?_
  obtain rfl : v₂ = id := funext hv₂
  cases hrow : w₂.disputes d with
  | none =>
      simp only [Stmt.result, DisputeStmt.result, id_eq, hrow]
      trivial
  | some row =>
      simp only [Stmt.result, DisputeStmt.result, id_eq, hrow]
      split_ifs with hforbidden hopen
      · trivial
      · trivial
      · refine body_run (fun _ => trivial) fun w₃ _ v₃ P₃ _ hv₃ hP₃ => ?_
        obtain rfl : v₃ = fun x => { x with
            disputes := modify x.disputes d (DisputeStmt.closed .cancelled .cancelled w₁.now) } :=
          funext hv₃
        have hdispute : ∀ x, P₃ x → x.disputes d = some row := by
          intro x hx
          have hsame : w₂.disputes d = x.disputes d :=
            ((hP₂ x (hP₃ x hx).1).2.2.2 (.dispute d) (by simp [Stmt.locks, DisputeStmt.locks])).1
          exact hsame ▸ hrow
        have hopened : row.status = .opened := by simpa using hopen
        cases hupdated : (w₃.disputes d).map
            (DisputeStmt.closed .cancelled .cancelled w₁.now) with
        | none =>
            simp only [Stmt.result, DisputeStmt.result, id_eq, Query.eval, hupdated]
            trivial
        | some updated =>
            simp only [Stmt.result, DisputeStmt.result, id_eq, Query.eval, hupdated]
            cases hpayout : row.payoutId with
            | none =>
                intro w hw
                exact ⟨row, w.outbox, w.outboxKeys, w₁.now, w.payouts, hdispute w hw, hopened,
                  Or.inl ⟨hpayout, rfl, rfl⟩, rfl⟩
            | some p =>
                refine body_bind.mpr (resumePayout_body hD.grow (fun _ => rfl) (fun _ => rfl)
                  (fun _ => rfl) fun outbox keys L' P' _ hP' w hw => ?_)
                obtain ⟨hw₃, hevent⟩ := hP' w hw
                exact ⟨row, outbox w, keys w, w₁.now, _, hdispute w hw₃, hopened,
                  Or.inr ⟨p, hpayout, hevent, rfl⟩, rfl⟩

/-- The credit of a refund. -/
theorem credit_body {o n now : Nat} {kind : BillingKind} {F : BodyGoal World Lock Unit}
    {L : List Lock} {P : World → Prop} (accounts : World → Nat → Option Account)
    (hrow : ∀ x y, x.accounts o = y.accounts o → accounts x o = accounts y o)
    (h : ∀ (accounts' : World → Nat → Option Account) (billing : World → List BillingEvent) L' P',
      L ⊆ L' → (∀ x, P' x → P x ∧
        Credits o kind n now (accounts x) (accounts' x) x.billing (billing x)) →
      F () (fun x => { x with accounts := accounts' x, billing := billing x }) L' P') :
    Body cfg τ (onlyIf (0 < n) do
        run (.account (.credit o n))
        insertBillingEvent o kind n now) F (fun x => { x with accounts := accounts x }) L P := by
  refine onlyIf_body (fun hpos => ?_) fun hzero => ?_
  · refine body_run (fun _ => trivial) fun w₁ _ v₁ P₁ hw₁ hv₁ hP₁ => ?_
    obtain rfl : v₁ = fun x => { x with
        accounts := modify (accounts x) o fun a => ⟨a.balanceCents + n⟩ } := funext hv₁
    refine insertBillingEvent_body fun P₂ L₂ w₂ hw₂ hbill hL₂ _ hP₂ => ?_
    refine h (fun x => modify (accounts x) o fun a => ⟨a.balanceCents + n⟩)
      (fun x => ⟨o, kind, n, now⟩ :: x.billing) _ P₂
      (fun k hk => hL₂ (List.mem_append_right _ hk)) fun x hx => ?_
    obtain ⟨hx₁, hlocks⟩ := hP₂ x hx
    have hsame : w₂.accounts o = x.accounts o :=
      (hlocks (.account o) (hL₂ (by simp [Stmt.locks, AccountStmt.locks]))).1
    refine ⟨(hP₁ x hx₁).1, Or.inr ⟨now, Nat.le_refl _, hpos, ?_, rfl, rfl⟩⟩
    rw [← hrow w₂ x hsame]
    simpa using Stmt.billable_isSome hbill
  · exact h accounts World.billing L P (List.Subset.refl _)
      fun x hx => ⟨hx, Or.inl ⟨by omega, rfl, rfl⟩⟩

theorem refundPayout_body {d p now : Nat} {row : Dispute} {payout : Payout} {L : List Lock}
    {P : World → Prop} (hopen : row.status = .opened) (hpayout : row.payoutId = some p)
    (hpaid : payout.status ≠ .paid) (hrefunded : payout.status ≠ .refunded)
    (hP : ∀ x, P x → x.disputes d = some row ∧ x.payouts p = some payout)
    (hnow : ∀ x, P x → now ≤ x.now) :
    Body cfg τ (refundPayout d row p payout now)
      (fun _ v _ P => ∀ w, P w → DisputeRefunded d w (v w)) id L P := by
  refine body_bind.mpr (ensureAccount_body fun account accounts L₁ P₁ _ hP₁ hacc => ?_)
  refine body_bind.mpr (credit_body accounts hacc fun accounts' billing L₂ P₂ _ hP₂ => ?_)
  refine body_run (fun _ => trivial) fun w₃ _ v₃ P₃ _ hv₃ hP₃ => ?_
  obtain rfl : v₃ = fun x => { x with
      accounts := accounts' x, billing := billing x
      payouts := modify x.payouts p fun r =>
        { r with status := .refunded, blockedReason := some .disputeRefund } } := funext hv₃
  -- the end is the same with and without a submission
  have hfinish : ∀ (submissions : World → Nat → Option Submission) L' P',
      (∀ x, P' x → P₃ x) →
      (∀ x, submissions x = x.submissions ∨ ∃ s, submissions x =
        modify x.submissions s fun r => { r with payoutStatus := some .reversed }) →
      Body cfg τ (refundPayout.finish d p now) (fun _ v _ P => ∀ w, P w → DisputeRefunded d w (v w))
        (fun x => { x with
          accounts := accounts' x, billing := billing x, submissions := submissions x
          payouts := modify x.payouts p fun r =>
            { r with status := .refunded, blockedReason := some .disputeRefund } }) L' P' := by
    intro submissions L' P' hP' hsub
    refine body_run (fun _ => trivial) fun w₄ _ v₄ P₄ _ hv₄ hP₄ => ?_
    refine body_run (fun _ => trivial) fun w₅ _ v₅ P₅ _ hv₅ hP₅ => ?_
    simp only [Stmt.result, DisputeStmt.result]
    cases ((v₄ w₅).disputes d).map (DisputeStmt.closed .resolved .refund now) with
    | none => trivial
    | some updated =>
        intro w hw
        have hw₃ := hP' w (hP₄ w (hP₅ w hw).1).1
        obtain ⟨hw₁, hcredit⟩ := hP₂ w (hP₃ w hw₃).1
        obtain ⟨hw₀, hensure⟩ := hP₁ w hw₁
        obtain ⟨hdispute, hrow⟩ := hP w hw₀
        refine ⟨row, p, payout, accounts w, accounts' w, billing w, submissions w, now, hdispute,
          hopen, hpayout, hrow, hpaid, hrefunded, hensure, hcredit.mono (hnow w hw₀), hsub w, ?_⟩
        simp only [hv₅, hv₄]
        rfl
  cases hsubmission : row.submissionId with
  | none => exact hfinish World.submissions _ P₃ (fun _ hx => hx) fun _ => Or.inl rfl
  | some sub =>
      refine body_run (fun _ => trivial) fun w₄ _ v₄ P₄ _ hv₄ hP₄ => ?_
      obtain rfl : v₄ = fun x => { x with
          accounts := accounts' x, billing := billing x
          submissions := modify x.submissions sub fun r => { r with payoutStatus := some .reversed }
          payouts := modify x.payouts p fun r =>
            { r with status := .refunded, blockedReason := some .disputeRefund } } := funext hv₄
      exact hfinish _ _ P₄ (fun x hx => (hP₄ x hx).1) fun x => Or.inr ⟨sub, rfl⟩

theorem upholdPayout_body (hgrow : ∀ w w', τ.grow w w' → w.Grows w') {d p now : Nat}
    {row : Dispute} {payout : Payout} {L : List Lock} {P : World → Prop}
    (hopen : row.status = .opened) (hpayout : row.payoutId = some p)
    (hP : ∀ x, P x → x.disputes d = some row ∧ x.payouts p = some payout) :
    Body cfg τ (upholdPayout d p payout now)
      (fun _ v _ P => ∀ w, P w → DisputeReleased d .resolved .uphold w (v w)) id L P := by
  refine body_run (fun _ => trivial) fun w₁ _ v₁ P₁ _ hv₁ hP₁ => ?_
  obtain rfl : v₁ = fun x => { x with
      payouts := modify x.payouts p fun r => { r with blockedReason := none } } := funext hv₁
  refine body_ask (fun _ => trivial) fun w₂ P₂ _ hP₂ =>
    body_ask (fun _ => trivial) fun w₃ P₃ _ hP₃ => ?_
  dsimp only [Query.eval]
  have hdone : ∀ x, P₃ x → P x := fun x hx => (hP₁ x (hP₂ x (hP₃ x hx).1).1).1
  have hdue : ∀ x, P₃ x → DueAt p (resumeAt payout.holdUntil w₂.now now) x := fun x hx =>
    resumeAt_due (hP x (hdone x hx)).2 (hgrow _ _ (hP₂ x (hP₃ x hx).1).2.1).now
  -- the dispute is closed after either way of rescheduling the event
  have hclose : ∀ (outbox : World → OutboxKey → Option OutboxEvent)
      (keys : World → List OutboxKey) L' P', (∀ x, P' x → P₃ x ∧ Reschedules p x (outbox x)) →
      Body cfg τ (upholdPayout.close d now)
        (fun _ v _ P => ∀ w, P w → DisputeReleased d .resolved .uphold w (v w))
        (fun x => { x with
          payouts := modify x.payouts p fun r => { r with blockedReason := none }
          outbox := outbox x, outboxKeys := keys x }) L' P' := by
    intro outbox keys L' P' hP'
    refine body_run (fun _ => trivial) fun w₄ _ v₄ P₄ _ hv₄ hP₄ => ?_
    simp only [Stmt.result, DisputeStmt.result]
    cases (w₄.disputes d).map (DisputeStmt.closed .resolved .uphold now) with
    | none => trivial
    | some updated =>
        intro w hw
        obtain ⟨hw₃, hevent⟩ := hP' w (hP₄ w hw).1
        refine ⟨row, outbox w, keys w, now, _, (hP w (hdone w hw₃)).1, hopen,
          Or.inr ⟨p, hpayout, hevent, rfl⟩, ?_⟩
        rw [hv₄]
        rfl
  cases hevent : w₃.outbox (.payout p) with
  | some e =>
      refine body_bind.mpr (reopen_body _ (fun _ => rfl) ?_ hdue fun outbox keys L' P' _ hP' =>
        hclose outbox keys L' P' hP')
      intro x hx
      obtain ⟨e', he', -⟩ := (hgrow _ _ (hP₃ x hx).2.1).outbox _ e hevent
      exact ⟨e', he'⟩
  | none =>
      exact body_bind.mpr (insertEvent_body _ (fun _ => rfl) hdue fun outbox keys L' P' _ hP' =>
        hclose outbox keys L' P' hP')

theorem resolveDispute_keeps {d : Nat} {refund : Bool} (hD : Lenient cfg τ a.pid D tags)
    (htag : tags (.resolveDispute d refund)) :
    (resolveDisputeAdmin d refund).Keeps (system cfg note) τ a D known := by
  refine hD.transaction (fun _ => htag) ?_
  refine body_ask (fun _ => trivial) fun w₁ P₁ _ hP₁ =>
    body_run (fun _ => trivial) fun w₂ _ v₂ P₂ _ hv₂ hP₂ => ?_
  obtain rfl : v₂ = id := funext hv₂
  cases hrow : w₂.disputes d with
  | none =>
      simp only [Stmt.result, DisputeStmt.result, id_eq, hrow]
      trivial
  | some row =>
      simp only [Stmt.result, DisputeStmt.result, id_eq, hrow]
      by_cases hopened : row.status = .opened
      · rw [if_neg (by simpa using hopened)]
        cases hpayoutId : row.payoutId with
        | none => trivial
        | some p =>
            refine body_run (fun _ => trivial) fun w₃ _ v₃ P₃ _ hv₃ hP₃ => ?_
            obtain rfl : v₃ = id := funext hv₃
            cases hpayout : w₃.payouts p with
            | none =>
                simp only [Stmt.result, PayoutStmt.result, id_eq, hpayout]
                trivial
            | some payout =>
                simp only [Stmt.result, PayoutStmt.result, id_eq, hpayout]
                have hlocked : ∀ x, P₃ x → x.disputes d = some row ∧ x.payouts p = some payout := by
                  intro x hx
                  obtain ⟨hx₂, -, -, hlocks⟩ := hP₃ x hx
                  have hdispute : w₂.disputes d = x.disputes d :=
                    ((hP₂ x hx₂).2.2.2 (.dispute d) (by simp [Stmt.locks, DisputeStmt.locks])).1
                  have hsame : w₃.payouts p = x.payouts p :=
                    (hlocks (.payout p) (by simp [Stmt.locks, PayoutStmt.locks])).1
                  exact ⟨hdispute ▸ hrow, hsame ▸ hpayout⟩
                split_ifs with hpaid hrefunded hrefund
                · trivial
                · exact fun w hw => Or.inl ⟨rfl, row, p, payout, (hlocked w hw).1, hopened,
                    hpayoutId, (hlocked w hw).2, hrefunded⟩
                · have hnow : ∀ x, P₃ x → w₁.now ≤ x.now := fun x hx =>
                    (hD.grow _ _ (hP₁ x (hP₂ x (hP₃ x hx).1).1).2.1).now
                  exact (refundPayout_body hopened hpayoutId hpaid hrefunded hlocked hnow).mono
                    fun _ _ _ _ h w hw => Or.inr (Or.inl ⟨hrefund, h w hw⟩)
                · exact (upholdPayout_body hD.grow hopened hpayoutId hlocked).mono
                    fun _ _ _ _ h w hw => Or.inr (Or.inr ⟨by simpa using hrefund, h w hw⟩)
      · rw [if_pos hopened]
        trivial

end Bodies

end OpenUnion
