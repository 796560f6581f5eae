import OpenUnion.Code.DisputeTransactions

/-!
# The other transactions do what they are said to do

The unblocking of payouts when a worker sets an address, the broadcast of a
payout, taking a batch of outbox events, and the Stripe webhook.  The first two
loop over rows they hold locked, and each loop has its own rule.
-/

namespace OpenUnion

open Interleave

section Bodies

variable {H : Type} {cfg : Config} {note : Actor Request → Happening → World → List H}
  {τ : Terms World Lock H} {a : Actor Request} {D : Conduct Stmt Tag World Lock H} {tags : Tag → Prop} {known : World → Prop}

/-- The `payout.requested` events of `ps` are pending and due no earlier than
`hold` says; the other events are left alone. -/
structure Requeues (hold : Nat → Option Nat) (ps : List Nat) (now : Nat)
    (t t' : OutboxKey → Option OutboxEvent) : Prop where
  events : ∀ p ∈ ps, ∃ e, t' (.payout p) = some e ∧ Scheduled (hold p) now e ∧ e.attempts = 0
  others : ∀ k, (∀ p ∈ ps, k ≠ .payout p) → t' k = t k

/-- The loop of `unblockPayouts`. -/
theorem requeue_body {now : Nat} {F : BodyGoal World Lock Unit} {L : List Lock}
    {P : World → Prop} (base : World → World) (hold : Nat → Option Nat) (ps : List Nat)
    (outbox : World → OutboxKey → Option OutboxEvent) (keys : World → List OutboxKey)
    (rows : List (Nat × Option Nat)) (hrows : ∀ row ∈ rows, row.2 = hold row.1)
    (hqueued : ∀ x, P x → Requeues hold ps x.now x.outbox (outbox x))
    (h : ∀ (outbox : World → OutboxKey → Option OutboxEvent) (keys : World → List OutboxKey) L' P',
      L ⊆ L' → (∀ x, P' x → P x ∧
        Requeues hold (rows.map Prod.fst ++ ps) x.now x.outbox (outbox x)) →
      F () (fun x => { base x with outbox := outbox x, outboxKeys := keys x }) L' P') :
    Body cfg τ (forEach (fun row => run (.outbox (.upsert (.payout row.1) (nextAt row.2 now) now))) rows)
      F (fun x => { base x with outbox := outbox x, outboxKeys := keys x }) L P := by
  induction rows generalizing ps outbox keys L P with
  | nil => exact h outbox keys L P (List.Subset.refl _) fun x hx => ⟨hx, hqueued x hx⟩
  | cons row rows ih =>
      obtain ⟨p, held⟩ := row
      obtain rfl : held = hold p := hrows (p, held) (by simp)
      refine body_run (fun _ => trivial) fun w _ v P₁ _ hv hP₁ => ?_
      obtain ⟨keys', rfl⟩ : ∃ keys' : World → List OutboxKey, v = fun x => { base x with
          outbox := Function.update (outbox x) (.payout p)
            (some (OutboxStmt.upserted (nextAt (hold p) now) now (outbox x (.payout p))))
          outboxKeys := keys' x } := by
        refine ⟨fun x => (v x).outboxKeys, funext fun x => ?_⟩
        simp only [hv]
        rfl
      refine ih (p :: ps) _ keys' (fun r hr => hrows r (by simp [hr])) ?_ ?_
      · intro x hx
        obtain ⟨hevents, hothers⟩ := hqueued x (hP₁ x hx).1
        have hdue : ∀ t, hold p = some t → t ≤ max (nextAt (hold p) now) x.now := by
          intro t ht
          simp only [ht, nextAt]
          split_ifs <;> omega
        have hnew : Scheduled (hold p) x.now
              (OutboxStmt.upserted (nextAt (hold p) now) now (outbox x (.payout p))) ∧
            (OutboxStmt.upserted (nextAt (hold p) now) now (outbox x (.payout p))).attempts = 0 := by
          cases outbox x (.payout p) with
          | none => exact ⟨⟨rfl, rfl, hdue⟩, rfl⟩
          | some e => exact ⟨⟨rfl, rfl, hdue⟩, rfl⟩
        refine ⟨fun q hq => ?_, fun k hk => ?_⟩
        · by_cases hqp : q = p
          · subst hqp
            exact ⟨_, Function.update_self _ _ _, hnew⟩
          · obtain ⟨e, he, hsched⟩ := hevents q (by simpa [hqp] using hq)
            exact ⟨e, by simp [hqp, he], hsched⟩
        · have hne : k ≠ .payout p := hk p (by simp)
          simpa [hne] using hothers k fun q hq => hk q (by simp [hq])
      · intro outbox' keys' L' P' hL hP'
        refine h outbox' keys' L' P' (fun k hk => hL (by simp [hk])) fun x hx => ?_
        obtain ⟨hx₁, hevents, hothers⟩ := hP' x hx
        refine ⟨(hP₁ x hx₁).1, fun q hq => hevents q ?_, fun k hk => hothers k fun q hq => hk q ?_⟩
        · simp only [List.map_cons, List.cons_append, List.mem_cons, List.mem_append] at hq ⊢
          tauto
        · simp only [List.map_cons, List.cons_append, List.mem_cons, List.mem_append] at hq ⊢
          tauto

theorem unblockPayouts_keeps {i now : Nat} (hD : Lenient cfg τ a.pid D tags)
    (htag : tags (.unblockPayouts i)) :
    (unblockPayouts i now).Keeps (system cfg note) τ a D known := by
  refine hD.transaction (fun _ => htag) ?_
  refine body_run (fun _ => trivial) fun w₁ _ v₁ P₁ _ hv₁ hP₁ => ?_
  obtain rfl : v₁ = fun x => { x with
      payouts := modifyAll x.payouts (PayoutStmt.waiting i w₁) fun r =>
        { r with blockedReason := none } } := funext hv₁
  -- the rows returned are those of the locked payouts
  have hwaiting : ∀ p ∈ PayoutStmt.waiting i w₁, ∃ row, w₁.payouts p = some row ∧
      PayoutStmt.waitsFor i row = true := by
    intro p hp
    obtain ⟨row, hrow, hwaits⟩ := (Option.any_eq_true _ _).mp (List.mem_filter.mp hp).2
    exact ⟨row, hrow, hwaits⟩
  have hlocked : ∀ x, P₁ x → ∀ p ∈ PayoutStmt.waiting i w₁, w₁.payouts p = x.payouts p := by
    intro x hx p hp
    refine ((hP₁ x hx).2.2.2 (.payout p) ?_).1
    simp only [Stmt.locks, PayoutStmt.locks, List.append_nil]
    exact List.mem_map.mpr ⟨p, hp, rfl⟩
  refine body_bind.mpr (requeue_body (fun x => { x with
      payouts := modifyAll x.payouts (PayoutStmt.waiting i w₁) fun r =>
        { r with blockedReason := none } }) (fun p => (w₁.payouts p).bind Payout.holdUntil) []
    World.outbox World.outboxKeys _ ?_ (fun x _ => ⟨by simp, by simp⟩) ?_)
  · intro row hrow
    simp only [Stmt.result, PayoutStmt.result, id_eq, List.mem_filterMap, Option.map_eq_some_iff]
      at hrow
    obtain ⟨p, -, r, hr, rfl⟩ := hrow
    simp [hr]
  · intro outbox keys L' P' _ hP' w hw
    obtain ⟨hw₁, hevents, hothers⟩ := hP' w hw
    have hmem : ∀ p, p ∈ ((Stmt.payout (.unblockWorker i)).result (fun _ => false) (id w₁)).map
        Prod.fst ++ [] ↔ p ∈ PayoutStmt.waiting i w₁ := by
      intro p
      simp only [Stmt.result, PayoutStmt.result, id_eq, List.append_nil, List.mem_map,
        List.mem_filterMap, Option.map_eq_some_iff]
      constructor
      · rintro ⟨-, ⟨q, hq, r, -, rfl⟩, rfl⟩
        exact hq
      · intro hp
        obtain ⟨row, hrow, -⟩ := hwaiting p hp
        exact ⟨(p, row.holdUntil), ⟨p, hp, row, hrow, rfl⟩, rfl⟩
    refine ⟨PayoutStmt.waiting i w₁, outbox w, keys w, fun p hp => ?_, fun k hk => ?_, rfl⟩
    · obtain ⟨row, hrow, hwaits⟩ := hwaiting p hp
      obtain ⟨e, he, hsched⟩ := hevents p ((hmem p).mpr hp)
      exact ⟨row, e, hlocked w hw₁ p hp ▸ hrow, hwaits, he, by simpa [hrow] using hsched⟩
    · exact hothers k fun p hp => hk p ((hmem p).mp hp)

/-- One more leg. -/
theorem sentLegs_update {p : Nat} {row : TransferKind → Transfer} {kind : TransferKind}
    {done : List TransferKind} (t : Nat × TransferKind → Option Transfer) (hnew : kind ∉ done) :
    Function.update (sentLegs t p done row) (p, kind)
      (some (TransferStmt.upserted (row kind) (sentLegs t p done row (p, kind)))) =
    sentLegs t p (done ++ [kind]) row := by
  funext k
  by_cases hk : k = (p, kind)
  · subst hk
    simp [sentLegs, hnew]
  · obtain ⟨q, kind'⟩ := k
    rw [Function.update_of_ne hk]
    have hne : ¬ (q = p ∧ kind' = kind) := by simpa using hk
    simp only [sentLegs, List.mem_append, List.mem_singleton]
    congr 1
    simp only [eq_iff_iff]
    tauto

/-- The loop of `broadcastPayout`: the legs written so far are those of `done`. -/
theorem legs_body {p : Nat} {row : TransferKind → Transfer} {F : BodyGoal World Lock Unit}
    {L : List Lock} {P : World → Prop} (base : World → World) (done legs : List TransferKind)
    (hnodup : (done ++ legs).Nodup)
    (h : ∀ L' P', L ⊆ L' → (∀ x, P' x → P x) →
      F () (fun x => { base x with transfers := sentLegs x.transfers p (done ++ legs) row }) L' P') :
    Body cfg τ (forEach (fun kind => run (.transfer (.upsert (p, kind) (row kind)))) legs) F
      (fun x => { base x with transfers := sentLegs x.transfers p done row }) L P := by
  induction legs generalizing done L P with
  | nil =>
      rw [List.append_nil] at h
      exact h L P (List.Subset.refl _) fun _ hx => hx
  | cons kind legs ih =>
      refine body_run (fun _ => trivial) fun w _ v P₁ _ hv hP₁ => ?_
      have hnew : kind ∉ done := by
        intro hmem
        exact (List.nodup_append.mp hnodup).2.2 kind hmem kind (by simp) rfl
      obtain rfl : v = fun x => { base x with
          transfers := sentLegs x.transfers p (done ++ [kind]) row } := by
        funext x
        rw [hv, ← sentLegs_update _ hnew]
        rfl
      refine ih (done ++ [kind]) (by simpa using hnodup) fun L' P' hL hP' => ?_
      rw [List.append_assoc]
      exact h L' P' (fun k hk => hL (by simp [hk])) fun x hx => (hP₁ x (hP' x hx)).1

/-- The loop from its start. -/
theorem sendLegs_body {p : Nat} (row : TransferKind → Transfer) {F : BodyGoal World Lock Unit}
    {L : List Lock} {P : World → Prop} (base : World → World) {legs : List TransferKind}
    (hbase : ∀ x, (base x).transfers = x.transfers) (hnodup : legs.Nodup)
    (h : ∀ L' P', L ⊆ L' → (∀ x, P' x → P x) →
      F () (fun x => { base x with transfers := sentLegs x.transfers p legs row }) L' P') :
    Body cfg τ (forEach (fun kind => run (.transfer (.upsert (p, kind) (row kind)))) legs) F base L
      P := by
  have hstart : base = fun x => { base x with transfers := sentLegs x.transfers p [] row } := by
    funext x
    have hnone : sentLegs x.transfers p [] row = (base x).transfers := by
      rw [hbase]
      funext k
      simp [sentLegs]
    rw [hnone]
  rw [hstart]
  exact legs_body base [] legs (by simpa using hnodup) h

theorem Fees.legs_nodup (f : Fees) : f.legs.Nodup := by
  simp only [Fees.legs]
  split_ifs <;> simp

/-- The nonce row, read under its lock, gets the next nonce, or a new row does. -/
theorem storeNonce_body {stored : Option Nat} {next : Nat} {F : BodyGoal World Lock Unit}
    {L : List Lock} {P : World → Prop}
    (hstored : ∀ n, stored = some n → ∀ x, P x → x.cryptoNonce = some n)
    (h : ∀ (nonce : World → Option Nat) L' P', (∀ x, P' x → P x ∧ nonce x = some next) →
      F () (fun x => { x with cryptoNonce := nonce x }) L' P') :
    Body cfg τ (storeNonce stored next) F id L P := by
  cases stored with
  | some n =>
      refine ⟨fun _ _ => trivial, trivial, fun w _ v P' _ hv hP' => ?_⟩
      obtain rfl : v = fun x => { x with cryptoNonce := x.cryptoNonce.map fun _ => next } :=
        funext hv
      exact h _ _ P' fun x hx => ⟨(hP' x hx).1, by simp [hstored n rfl x (hP' x hx).1]⟩
  | none =>
      refine body_run (fun _ => trivial) fun w _ v P' _ hv hP' => ?_
      obtain rfl : v = fun x => { x with
          cryptoNonce := (NonceStmt.insert next).write w x.cryptoNonce } := funext hv
      cases hfree : (Stmt.nonce (.insert next)).result (fun _ => false) (id w) with
      | false =>
          have hfree : w.cryptoNonce.isNone = false := hfree
          simp only [Stmt.result, NonceStmt.result, id_eq, hfree]
          trivial
      | true =>
          have hfree : w.cryptoNonce.isNone = true := hfree
          simp only [Stmt.result, NonceStmt.result, id_eq, hfree]
          exact h _ _ P' fun x hx => ⟨(hP' x hx).1, by simp [NonceStmt.write, hfree]⟩

/-- The end of a broadcast: the confirmation event is there. -/
theorem confirms_of_insertOrIgnore (available now : Nat) (busy : Lock → Bool) {p : Nat}
    {w₀ w : World} (hrow : w₀.outbox (.payoutConfirm p) = w.outbox (.payoutConfirm p)) :
    Confirms p w ((OutboxStmt.insertOrIgnore (.payoutConfirm p) available now).write busy w₀ w.outbox)
      ((OutboxStmt.insertOrIgnore (.payoutConfirm p) available now).writeKeys w₀ w.outboxKeys) := by
  cases hevent : w.outbox (.payoutConfirm p) with
  | none =>
      rw [hevent] at hrow
      refine ⟨fun k hk => ?_, Or.inr ⟨hevent, ?_, .fresh available now, ?_, rfl, rfl⟩⟩
      · simp [OutboxStmt.write, hrow, hk]
      · simp [OutboxStmt.writeKeys, hrow]
      · simp [OutboxStmt.write, hrow]
  | some e =>
      rw [hevent] at hrow
      refine ⟨fun k _ => ?_, Or.inl ⟨?_, ?_, ?_⟩⟩
      · simp [OutboxStmt.write, hrow]
      · simp [OutboxStmt.write, hrow]
      · simp [hevent]
      · simp [OutboxStmt.writeKeys, hrow]

theorem broadcastPayout_keeps {p : Nat} {fees : Fees} {address : Option Nat}
    (hD : Lenient cfg τ a.pid D tags) (htag : ∀ hash, tags (.broadcast p hash))
    (hsplit : ∀ w, known w → SplitOf cfg p fees w) (haddress : address ≠ none)
    (hwallet : cfg.proofworkFeeWallet ≠ none) :
    (broadcastPayout cfg p fees address).Keeps (system cfg note) τ a D known := by
  refine hD.transaction htag ?_
  refine body_run (fun _ => trivial) fun w₁ _ v₁ P₁ _ hv₁ hP₁ => ?_
  obtain rfl : v₁ = id := funext hv₁
  refine body_ask (fun _ => trivial) fun w₂ P₂ _ hP₂ => ?_
  dsimp only
  -- the row is locked if it is there
  have hstored : ∀ n, (Stmt.nonce .lock).result (fun _ => false) (id w₁) = some n →
      ∀ x, P₂ x → x.cryptoNonce = some n := by
    intro n hn x hx
    have hn : w₁.cryptoNonce = some n := hn
    have hsame : w₁.cryptoNonce = x.cryptoNonce :=
      ((hP₁ x (hP₂ x hx).1).2.2.2 .cryptoNonce (by simp [Stmt.locks, NonceStmt.locks, hn])).1
    rw [← hsame, hn]
  generalize reconcileNonce _ _ = nonce
  refine body_perform_bind (fun w hw => ?_) fun w₃ _ v₃ P₃ _ hv₃ hP₃ => ?_
  · exact ⟨fees, address, hsplit w (hP₁ w (hP₂ w hw).1).1, haddress, hwallet, rfl⟩
  obtain rfl : v₃ = id := funext hv₃
  by_cases haccepted : OutsideStmt.accepts nonce w₃ && !w₃.outside.nextLost
  · simp only [engine, Stmt.result, OutsideStmt.result, id_eq, haccepted, if_true]
    have haccepts : OutsideStmt.accepts nonce w₃ = true := by
      simp only [Bool.and_eq_true] at haccepted
      exact haccepted.1
    -- the accepted transaction is on the chain from here on
    have hchain : ∀ x, P₃ x → ∃ tx ∈ x.outside.chain, tx.hash = w₃.nextId ∧ tx.nonce = nonce ∧
        tx.payoutId = p ∧ tx.call = splitterCall cfg fees address := by
      intro x hx
      have hgrown := (hD.grow _ _ (hP₃ x hx).2.2.1).chain
      obtain ⟨tx, htx, hcontent, -⟩ := hgrown
        ⟨w₃.nextId, nonce, p, splitterCall cfg fees address, false⟩
        (by simp [engine, Stmt.effect, OutsideStmt.effect, haccepts])
      simp only [ChainTx.content, Prod.mk.injEq] at hcontent
      exact ⟨tx, htx, hcontent.1, hcontent.2.1, hcontent.2.2.1, hcontent.2.2.2⟩
    refine body_bind.mpr (storeNonce_body (fun n hn x hx => hstored n hn x (hP₃ x hx).1)
      fun stored L₄ P₄ hP₄ => ?_)
    refine body_ask (fun _ => trivial) fun w₅ P₅ _ hP₅ =>
      body_run (fun _ => trivial) fun w₆ _ v₆ P₆ _ hv₆ hP₆ => ?_
    obtain rfl : v₆ = fun x => { x with
        cryptoNonce := stored x
        payouts := modify x.payouts p fun r =>
          { r with
            provider := some cfg.paymentsProvider, providerRef := some w₃.nextId
            payoutChainIsBase := true, fees := fees } } := funext hv₆
    refine body_bind.mpr (sendLegs_body (fees.transfer address w₃.nextId nonce) (fun x => { x with
        cryptoNonce := stored x
        payouts := modify x.payouts p fun r =>
          { r with
            provider := some cfg.paymentsProvider, providerRef := some w₃.nextId
            payoutChainIsBase := true, fees := fees } })
      (fun _ => rfl) fees.legs_nodup fun L₇ P₇ _ hP₇ => ?_)
    refine body_ask (fun _ => trivial) fun w₈ P₈ _ hP₈ =>
      body_run (fun _ => trivial) fun w₉ busy v₉ P₉ _ hv₉ hP₉ => ?_
    intro w hw
    obtain ⟨hw₈, -, -, hlocks⟩ := hP₉ w hw
    have hw₆ := hP₇ w (hP₈ w hw₈).1
    have hrow : w₉.outbox (.payoutConfirm p) = w.outbox (.payoutConfirm p) :=
      (hlocks (.outbox (.payoutConfirm p)) (by simp [Stmt.locks, OutboxStmt.locks])).1
    obtain ⟨hw₃, hnonce⟩ := hP₄ w (hP₅ w (hP₆ w hw₆).1).1
    have hw₀ := (hP₁ w (hP₂ w (hP₃ w hw₃).1).1).1
    refine ⟨fees, address, nonce, _, _, hsplit w hw₀, haddress, hwallet, hchain w hw₃,
      confirms_of_insertOrIgnore (w₈.now + 30000) w₅.now busy hrow, ?_⟩
    rw [hv₉, ← hnonce]
    rfl
  · simp only [engine, Stmt.result, OutsideStmt.result, id_eq, haccepted]
    trivial

/-- What taking the batch `keys` does to the event `k`. -/
def TakenIn (timeout workerId now : Nat) (keys : List OutboxKey) (k : OutboxKey)
    (e e' : Option OutboxEvent) : Prop :=
  (k ∉ keys ∧ e' = e) ∨ ∃ r t, e = some r ∧ t ≤ now ∧
    ((k ∉ keys ∧ OutboxStmt.isStale t timeout r = true ∧ e' = some (OutboxStmt.released r)) ∨
      (k ∈ keys ∧ r.availableAt ≤ t ∧
        (r.status = .pending ∨ OutboxStmt.isStale t timeout r = true) ∧
        e' = some (OutboxStmt.taken workerId t r)))

theorem TakenIn.taken {timeout workerId now : Nat} {keys : List OutboxKey} {k : OutboxKey}
    {e e' : Option OutboxEvent} (h : TakenIn timeout workerId now keys k e e') :
    Taken timeout workerId now e e' := by
  obtain ⟨-, hsame⟩ | ⟨r, t, hr, ht, ⟨-, hreleased⟩ | ⟨-, htaken⟩⟩ := h
  · exact Or.inl hsame
  · exact Or.inr ⟨r, t, hr, ht, Or.inl hreleased⟩
  · exact Or.inr ⟨r, t, hr, ht, Or.inr htaken⟩

/-- What taking the batch does to one event: `t` is the time the transaction
began at, `w₁` the state in which stale locks were released, `w₂` the one in
which the batch was selected. -/
theorem taken_of_due {cfg : Config} {topics : List Topic} {limit t : Nat} {busy : Lock → Bool}
    {w₁ w₂ x : World} {keys : List OutboxKey} {k : OutboxKey}
    (hnow : t ≤ x.now)
    (hstale : ∀ k ∈ OutboxStmt.stale t cfg.outboxLockTimeoutMs w₁, w₁.outbox k = x.outbox k)
    (hdue : ∀ k ∈ keys, k ∈ OutboxStmt.due topics limit t busy { w₂ with
      outbox := modifyAll w₂.outbox (OutboxStmt.stale t cfg.outboxLockTimeoutMs w₁)
        OutboxStmt.released })
    (hlocked : ∀ k ∈ keys, w₂.outbox k = x.outbox k) :
    TakenIn cfg.outboxLockTimeoutMs a.pid x.now keys k (x.outbox k) (modifyAll
      (modifyAll x.outbox (OutboxStmt.stale t cfg.outboxLockTimeoutMs w₁) OutboxStmt.released)
      keys (OutboxStmt.taken a.pid t) k) := by
  have hreleased : k ∈ OutboxStmt.stale t cfg.outboxLockTimeoutMs w₁ →
      ∃ r, x.outbox k = some r ∧ OutboxStmt.isStale t cfg.outboxLockTimeoutMs r = true := by
    intro hk
    obtain ⟨r, hr, hisStale⟩ := (Option.any_eq_true _ _).mp (List.mem_filter.mp hk).2
    exact ⟨r, hstale k hk ▸ hr, hisStale⟩
  by_cases hk : k ∈ keys
  · -- the selected event was pending and due, after its stale lock was released or before
    have hmem := OutboxStmt.mem_due (hdue k hk)
    obtain ⟨e, he, hisDue⟩ := (Option.any_eq_true _ _).mp hmem
    simp only [OutboxStmt.isDue, decide_eq_true_eq] at hisDue
    by_cases hst : k ∈ OutboxStmt.stale t cfg.outboxLockTimeoutMs w₁
    · obtain ⟨r, hr, hstatus⟩ := hreleased hst
      have he' : OutboxStmt.released r = e := by
        simpa [modifyAll, hst, hlocked k hk, hr] using he
      refine Or.inr ⟨r, t, hr, hnow, Or.inr ⟨hk, ?_, Or.inr hstatus, ?_⟩⟩
      · rw [← he'] at hisDue
        exact hisDue.2.1
      · simp [modifyAll, hk, hst, hr, OutboxStmt.taken, OutboxStmt.released]
    · have he' : x.outbox k = some e := by
        simpa [modifyAll, hst, hlocked k hk] using he
      exact Or.inr ⟨e, t, he', hnow, Or.inr ⟨hk, hisDue.2.1, Or.inl hisDue.1,
        by simp [modifyAll, hk, hst, he']⟩⟩
  · rw [modifyAll_of_notMem hk]
    by_cases hst : k ∈ OutboxStmt.stale t cfg.outboxLockTimeoutMs w₁
    · obtain ⟨r, hr, hstatus⟩ := hreleased hst
      exact Or.inr ⟨r, t, hr, hnow, Or.inl ⟨hk, hstatus, by simp [modifyAll, hst, hr]⟩⟩
    · exact Or.inl ⟨hk, modifyAll_of_notMem hst⟩

/-- What a commit of `claimOutboxBatch` does that returns `batch`: the events of the
batch are taken, and numbered with their attempts. -/
structure Deliveries (timeout pid : Nat) (batch : List (OutboxKey × Nat)) (w w' : World) : Prop where
  events : ∀ k, TakenIn timeout pid w.now (batch.map Prod.fst) k (w.outbox k) (w'.outbox k)
  counted : ∀ row ∈ batch, ∃ e, w.outbox row.1 = some e ∧ row.2 = e.attempts + 1
  others : w' = { w with outbox := w'.outbox }

theorem Deliveries.batched {timeout pid : Nat} {batch : List (OutboxKey × Nat)} {w w' : World}
    (h : Deliveries timeout pid batch w w') : Batched timeout pid w w' :=
  ⟨w'.outbox, fun k => (h.events k).taken, h.others⟩

/-- The events of a batch are locked by the runner, and count one attempt more. -/
theorem Deliveries.taken {timeout pid : Nat} {batch : List (OutboxKey × Nat)} {w w' : World}
    (h : Deliveries timeout pid batch w w') : ∀ row ∈ batch, ∃ e, w'.outbox row.1 = some e ∧
      e.status = .processing ∧ e.lockedBy = some pid ∧ e.attempts = row.2 := by
  intro row hrow
  have hk : row.1 ∈ batch.map Prod.fst := List.mem_map_of_mem hrow
  obtain ⟨e, he, hcount⟩ := h.counted row hrow
  obtain ⟨hnot, -⟩ | ⟨r, t, hr, -, ⟨hnot, -⟩ | ⟨-, -, -, hnew⟩⟩ := h.events row.1
  · exact absurd hk hnot
  · exact absurd hk hnot
  · obtain rfl : e = r := Option.some.inj (he.symm.trans hr)
    exact ⟨_, hnew, rfl, rfl, hcount.symm⟩

/-- What `claimOutboxBatch` returns: events of its topics, each once. -/
structure Batch (topics : List Topic) (known : World → Prop) (batch : List (OutboxKey × Nat)) :
    Prop where
  topic : ∀ row ∈ batch, row.1.topic ∈ topics
  nodup : (∀ w, known w → w.outboxKeys.Nodup) → (batch.map Prod.fst).Nodup

/-- The end of `claimOutboxBatch`: the rows selected, which are those of the events
`due`, are taken, after the stale locks `stale` have been released. -/
theorem takeBatch_body {topics : List Topic} {stale due : List OutboxKey} {t : Nat}
    {rows : List (OutboxKey × Nat)} {L : List Lock} {P : World → Prop}
    (hrows : rows.map Prod.fst = due) (htopic : ∀ k ∈ due, k.topic ∈ topics)
    (hnodup : (∀ w, known w → w.outboxKeys.Nodup) → due.Nodup)
    (hevents : ∀ x, P x → ∀ row ∈ rows, ∃ e, x.outbox row.1 = some e ∧ row.2 = e.attempts)
    (htaken : ∀ x, P x → ∀ keys, keys ⊆ due → ∀ k,
      TakenIn cfg.outboxLockTimeoutMs a.pid x.now keys k (x.outbox k)
        (modifyAll (modifyAll x.outbox stale OutboxStmt.released) keys
          (OutboxStmt.taken a.pid t) k)) :
    Body cfg τ ((onlyIf (rows ≠ []) (run (.outbox (.take (rows.map Prod.fst) a.pid t)))).bind
        fun _ => .ret (rows.map fun row => (row.1, row.2 + 1)))
      (fun rows v _ P => Batch topics known rows ∧ ∀ w, P w →
        Deliveries cfg.outboxLockTimeoutMs a.pid rows w (v w))
      (fun x => { x with outbox := modifyAll x.outbox stale OutboxStmt.released }) L P := by
  have hkeys : (rows.map fun row => (row.1, row.2 + 1)).map Prod.fst = due := by
    rw [← hrows]
    simp
  have hbatch : Batch topics known (rows.map fun row => (row.1, row.2 + 1)) :=
    ⟨fun row hrow => htopic _ (hkeys ▸ List.mem_map_of_mem hrow), fun h => hkeys ▸ hnodup h⟩
  have hcounted : ∀ x, P x → ∀ row ∈ rows.map fun row => (row.1, row.2 + 1),
      ∃ e, x.outbox row.1 = some e ∧ row.2 = e.attempts + 1 := by
    intro x hx row hrow
    obtain ⟨row', hrow', rfl⟩ := List.mem_map.mp hrow
    obtain ⟨e, he, hcount⟩ := hevents x hx row' hrow'
    exact ⟨e, he, congrArg (· + 1) hcount⟩
  refine body_bind.mpr (onlyIf_body (fun _ => ?_) fun hempty => ?_)
  · refine ⟨fun _ _ => trivial, trivial, fun w₃ _ v₃ P₃ _ hv₃ hP₃ => ⟨hbatch, fun w hw => ?_⟩⟩
    have hw₂ := (hP₃ w hw).1
    rw [hv₃, hrows]
    refine ⟨fun k => ?_, hcounted w hw₂, rfl⟩
    rw [hkeys]
    exact htaken w hw₂ due (List.Subset.refl _) k
  · obtain rfl : rows = [] := by simpa using hempty
    refine ⟨hbatch, fun w hw => ⟨fun k => ?_, hcounted w hw, rfl⟩⟩
    have hnone := htaken w hw [] (by simp) k
    rwa [modifyAll_nil] at hnone

/-- What is selected is taken. -/
theorem claimOutboxBatch_body (hgrow : ∀ w w', τ.grow w w' → w.Grows w') {topics : List Topic} :
    Body cfg τ (claimOutboxBatch.body cfg topics a.pid)
      (fun rows v _ P => Batch topics known rows ∧ ∀ w, P w →
        Deliveries cfg.outboxLockTimeoutMs a.pid rows w (v w)) id [] known := by
  refine body_ask (fun _ => trivial) fun w₀ P₀ _ hP₀ =>
    body_run (fun _ => trivial) fun w₁ _ v₁ P₁ _ hv₁ hP₁ => ?_
  dsimp only [Query.eval, id_eq] at hv₁ hP₁ ⊢
  obtain rfl : v₁ = fun x => { x with
      outbox := modifyAll x.outbox (OutboxStmt.stale w₀.now cfg.outboxLockTimeoutMs w₁)
        OutboxStmt.released } := funext hv₁
  refine body_run (fun _ => trivial) fun w₂ busy v₂ P₂ hw₂ hv₂ hP₂ => ?_
  obtain rfl : v₂ = fun x => { x with
      outbox := modifyAll x.outbox (OutboxStmt.stale w₀.now cfg.outboxLockTimeoutMs w₁)
        OutboxStmt.released } := funext hv₂
  -- at the commit the released and the selected events are as they were found
  have hnow : ∀ x, P₂ x → w₀.now ≤ x.now := fun x hx =>
    (hgrow _ _ (hP₀ x (hP₁ x (hP₂ x hx).1).1).2.1).now
  have hstale : ∀ x, P₂ x → ∀ k ∈ OutboxStmt.stale w₀.now cfg.outboxLockTimeoutMs w₁,
      w₁.outbox k = x.outbox k := by
    intro x hx k hk
    refine ((hP₁ x (hP₂ x hx).1).2.2.2 (.outbox k) ?_).1
    simp only [Stmt.locks, OutboxStmt.locks, List.append_nil]
    exact List.mem_map.mpr ⟨k, hk, rfl⟩
  have hlocked : ∀ x, P₂ x → ∀ k ∈ OutboxStmt.due topics outboxLimit w₀.now busy { w₂ with
      outbox := modifyAll w₂.outbox (OutboxStmt.stale w₀.now cfg.outboxLockTimeoutMs w₁)
        OutboxStmt.released }, w₂.outbox k = x.outbox k := by
    intro x hx k hk
    refine ((hP₂ x hx).2.2.2 (.outbox k) ?_).1
    simp only [Stmt.locks, OutboxStmt.locks, List.mem_append]
    exact Or.inl (List.mem_map.mpr ⟨k, hk, rfl⟩)
  refine takeBatch_body (OutboxStmt.select_keys _ _ _ _ _) (fun k hk => ?_)
    (fun h => OutboxStmt.due_nodup (h w₂ (hP₀ w₂ (hP₁ w₂ hw₂).1).1)) (fun x hx row hrow => ?_) ?_
  · obtain ⟨e, -, hisDue⟩ := (Option.any_eq_true _ _).mp (OutboxStmt.mem_due hk)
    simp only [OutboxStmt.isDue, decide_eq_true_eq] at hisDue
    exact hisDue.2.2
  · obtain ⟨k, hk, hread⟩ := List.mem_filterMap.mp hrow
    obtain ⟨e, he, rfl⟩ := Option.map_eq_some_iff.mp hread
    obtain ⟨e', he', hattempts⟩ : ∃ e', w₂.outbox k = some e' ∧ e.attempts = e'.attempts := by
      by_cases hst : k ∈ OutboxStmt.stale w₀.now cfg.outboxLockTimeoutMs w₁
      · obtain ⟨e', he', rfl⟩ : ∃ e', w₂.outbox k = some e' ∧ OutboxStmt.released e' = e := by
          simpa [modifyAll, hst] using he
        exact ⟨e', he', rfl⟩
      · exact ⟨e, by simpa [modifyAll, hst] using he, rfl⟩
    exact ⟨e', hlocked x hx k hk ▸ he', hattempts⟩
  · exact fun x hx keys hkeys k => taken_of_due (hnow x hx) (hstale x hx) (fun k hk => hkeys hk)
      fun k hk => hlocked x hx k (hkeys hk)

theorem claimOutboxBatch_does {topics : List Topic} {σ : Stage World Lock H}
    (hD : Lenient cfg τ a.pid D tags) (htag : tags .claimOutboxBatch) (hσ : σ.Knows τ known) :
    (claimOutboxBatch cfg topics a.pid).Does (system cfg note) τ a D
      (fun rows σ => σ.Knows τ known ∧ Batch topics known rows ∧ ∃ g v, ∃ _ : List Lock, τ.inv g ∧
        Deliveries cfg.outboxLockTimeoutMs a.pid rows g.world (v g.world) ∧
        σ.Follows τ a.pid ((system cfg note).afterCommit a .claimOutboxBatch (some v) g : Glob World H))
      (fun _ σ => σ.Knows τ known) σ :=
  Prog.Body.does _ (Batch topics known)
    (fun rows (_ : List Lock) w w' => Deliveries cfg.outboxLockTimeoutMs a.pid rows w w')
    (claimOutboxBatch_body hD.grow) hσ hD.inside
    fun g _ L w _ hw => hD.commit g _ L w htag hw.batched

/-- What the webhook's transaction does; an event to be credited is booked by it. -/
def WebhookEnds (evt : StripeEvent) (w w' : World) : Prop :=
  Webhook evt.id w w' ∧ (evt.creditable = true → w'.booked evt.id = true)

/-- The webhook gives its event a status and, if it is to be credited, has booked it. -/
theorem setStatus_body {evt : StripeEvent} {st : StripeEventStatus} {L : List Lock}
    {P : World → Prop} (accounts : World → Nat → Option Account)
    (billing : World → List BillingEvent) (intents : World → Nat → Bool)
    (hbooks : ∀ x, P x → Books evt.id st x (accounts x) (billing x))
    (hst : evt.creditable = true → st = .processed) :
    Body cfg τ (run (.stripe (.setStatus evt.id st)))
      (fun _ v _ P => ∀ w, P w → WebhookEnds evt w (v w))
      (fun x => { x with
        accounts := accounts x, billing := billing x, paymentIntents := intents x }) L P := by
  refine ⟨fun _ _ => trivial, trivial, fun w₁ _ v₁ P₁ _ hv₁ hP₁ w hw => ?_⟩
  have hbooks' := hbooks w (hP₁ w hw).1
  rw [hv₁]
  refine ⟨⟨accounts w, billing w, intents w, st, hbooks', rfl⟩, fun hcreditable => ?_⟩
  change (billing w).any (fun b => decide (b.kind = .stripeTopup evt.id)) = true
  obtain ⟨-, hbilling, hbooked⟩ | ⟨o, n, t, -, -, -, -, hbilling⟩ := hbooks'
  · rw [hbilling]
    exact hbooked (hst hcreditable)
  · simp [hbilling]

/-- Crediting a Stripe event that is not booked, or leaving it when it is. -/
theorem creditStripe_body (hgrow : ∀ w w', τ.grow w w' → w.Grows w') {e o n : Nat}
    {F : BodyGoal World Lock Unit} {L : List Lock} {P : World → Prop}
    (h : ∀ (accounts : World → Nat → Option Account) (billing : World → List BillingEvent) L' P',
      (∀ x, P' x → Books e .processed x (accounts x) (billing x)) →
      F () (fun x => { x with accounts := accounts x, billing := billing x }) L' P') :
    Body cfg τ (creditStripe e o n) F id L P := by
  refine body_ask (fun _ => trivial) fun w₁ P₁ _ hP₁ => onlyIf_body (fun _ => ?_) fun hbooked => ?_
  · refine body_run (fun _ => trivial) fun w₂ _ v₂ P₂ _ hv₂ hP₂ =>
      body_ask (fun _ => trivial) fun w₃ P₃ _ hP₃ => ?_
    obtain rfl : v₂ = fun x => { x with
        accounts := modify x.accounts o fun a => ⟨a.balanceCents + n⟩ } := funext hv₂
    refine insertBillingEvent_body fun P₄ L₄ w₄ _ hbill hL₄ hkey hP₄ => ?_
    refine h _ (fun x => ⟨o, .stripeTopup e, n, w₃.now⟩ :: x.billing) _ _ fun x hx => ?_
    obtain ⟨-, hlocks⟩ := hP₄ x hx
    have haccount : w₄.accounts o = x.accounts o :=
      (hlocks (.account o) (hL₄ (by simp [Stmt.locks, AccountStmt.locks]))).1
    have hbooked : w₄.booked e = x.booked e := (hlocks (.stripeTopup e) (hkey e rfl)).1
    refine Or.inr ⟨o, n, w₃.now, rfl, ?_, ?_, rfl, rfl⟩
    · rw [← hbooked]
      simp only [Stmt.billable, Bool.and_eq_true, Bool.not_eq_true'] at hbill
      exact hbill.2
    · rw [← haccount]
      simpa using Stmt.billable_isSome hbill
  · have hfound : w₁.booked e = true := by simpa [Query.eval] using hbooked
    refine h World.accounts World.billing L P₁ fun x hx => Or.inl ⟨rfl, rfl, fun _ => ?_⟩
    exact World.booked_of_suffix (hgrow _ _ (hP₁ x hx).2.1).billing hfound

theorem processStripeEvent_body (hgrow : ∀ w w', τ.grow w w' → w.Grows w') {evt : StripeEvent}
    {L : List Lock} {P : World → Prop} :
    Body cfg τ (processStripeEvent.body evt)
      (fun _ v _ P => ∀ w, P w → WebhookEnds evt w (v w)) id L P := by
  have hstatus : ∀ st ≠ StripeEventStatus.processed, evt.creditable = false →
      Body cfg τ (run (.stripe (.setStatus evt.id st)))
        (fun _ v _ P => ∀ w, P w → WebhookEnds evt w (v w)) id L P :=
    fun st hst hnot => setStatus_body World.accounts World.billing World.paymentIntents
      (fun x _ => Or.inl ⟨rfl, rfl, fun h => absurd h hst⟩) fun h => absurd h (by simp [hnot])
  simp only [processStripeEvent.body]
  cases hsession : evt.session with
  | none => exact hstatus _ (by simp) (by simp [StripeEvent.creditable, hsession])
  | some session =>
      dsimp only
      split_ifs with hpaid
      · cases hcredit : session.credit with
        | none =>
            exact hstatus _ (by simp) (by simp [StripeEvent.creditable, hsession, hcredit])
        | some found =>
            obtain ⟨o, intent, n⟩ := found
            refine body_bind.mpr (creditStripe_body hgrow fun accounts billing L₁ P₁ hbooks => ?_)
            refine body_run (fun _ => trivial) fun w₂ _ v₂ P₂ _ hv₂ hP₂ => ?_
            obtain rfl : v₂ = fun x => { x with
                accounts := accounts x, billing := billing x
                paymentIntents := Function.update x.paymentIntents intent true } := funext hv₂
            exact setStatus_body accounts billing _ (fun x hx => hbooks x (hP₂ x hx).1) fun _ => rfl
      · exact hstatus _ (by simp) (by simp [StripeEvent.creditable, hsession, hpaid])

theorem processStripeEvent_keeps {evt : StripeEvent} (hD : Lenient cfg τ a.pid D tags)
    (htag : tags (.stripeWebhook evt.id)) :
    (processStripeEvent evt).Keeps (system cfg note) τ a D known :=
  hD.transaction (fun _ => htag)
    ((processStripeEvent_body hD.grow).mono fun _ _ _ _ h w hw => (h w hw).1)

end Bodies

end OpenUnion
