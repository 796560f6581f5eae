import OpenUnion.Code.Effects
import OpenUnion.Interleave.Atomic
import OpenUnion.Code.Requests

/-!
# The transactions do what they are said to do

For each transaction body the proof that the commit it ends in has the effect
`Tag.Effect` gives it.  The bodies are run on overlays; the rules `body_ask` and
`body_run` are `body_perform_bind` at this database.
-/

namespace OpenUnion

open Interleave

/-- Statements a transaction may execute: a payment provider is called outside, Stripe
events, submissions and verifications are recorded there, and what is sent to the chain
is the call of a payout split to a worker with an address. -/
def Stmt.Inner (cfg : Config) (w : World) : Stmt → Prop
  | .outside (.createPayout _ _ _) | .stripe (.insert _) => False
  | .submission (.insert _ _) | .verification _ => False
  | .read (.submission _) | .read (.verification _ _) | .job (.update _ _) => False
  | .outbox (.insertOrIgnore (.verification _ _) _ _) => False
  | .outside (.sendRawTransaction p call _) =>
      ∃ fees address, SplitOf cfg p fees w ∧ address ≠ none ∧ cfg.proofworkFeeWallet ≠ none ∧
        call = splitterCall cfg fees address
  | _ => True

/-- Running a transaction body of this code. -/
abbrev Body {H β : Type} (cfg : Config) (τ : Terms World Lock H) (p : Code β)
    (F : BodyGoal World Lock β) (v : World → World) (L : List Lock) (P : World → Prop) : Prop :=
  p.Body engine τ (Stmt.Inner cfg) F v L P

section Rules

variable {H β γ : Type} {cfg : Config} {τ : Terms World Lock H} {v : World → World}
  {L : List Lock} {P : World → Prop}

/-- A question and what follows it. -/
theorem body_ask {q : Query} {f : q.Val → Code γ} {F : BodyGoal World Lock γ}
    (hinner : ∀ w, (Stmt.read q).Inner cfg w)
    (h : ∀ w P', P w → (∀ x, P' x → P x ∧ τ.grow w x ∧ ∀ k ∈ L, World.same k w x ∧ τ.hold k w x) →
      Body cfg τ (f (q.eval (v w))) F v L P') :
    Body cfg τ ((ask q).bind f) F v L P := by
  refine body_perform_bind (fun w _ => hinner w) fun w busy v' P' hP hv' hP' => ?_
  obtain rfl : v' = v := funext hv'
  exact h w P' hP fun x hx => ⟨(hP' x hx).1, (hP' x hx).2.1, (hP' x hx).2.2.2⟩

/-- A statement and what follows it. -/
theorem body_run {s : Stmt} {f : s.Val → Code γ} {F : BodyGoal World Lock γ}
    (hinner : ∀ w, s.Inner cfg w) (h : ∀ w busy v' P', P w → (∀ x, v' x = s.write busy (v w) (v x)) →
      (∀ x, P' x → P x ∧ τ.grow w x ∧ τ.grow (s.effect busy (v w) w) x ∧
        ∀ k ∈ s.locks busy (v w) ++ L, World.same k w x ∧ τ.hold k w x) →
      Body cfg τ (f (s.result busy (v w))) F v' (s.locks busy (v w) ++ L) P') :
    Body cfg τ ((run s).bind f) F v L P :=
  body_perform_bind (fun w _ => hinner w) h

end Rules

/-- A conduct that allows reads, fresh identifiers, and the transactions whose
tags satisfy `tags`. -/
structure Lenient {H : Type} (cfg : Config) (τ : Terms World Lock H) (pid : Nat)
    (D : Conduct Stmt Tag World Lock H) (tags : Tag → Prop) : Prop where
  grow : ∀ w w', τ.grow w w' → w.Grows w'
  read : ∀ g q busy, D.out g (.read q) busy
  nanoid : ∀ g busy, D.out g .nanoid busy
  inside : ∀ g s busy seen, s.Inner cfg g.world → D.inside g s busy seen
  commit : ∀ g t L w, tags t → t.Effect cfg τ.hold pid L g.world w → D.commit g t L w

section Bodies

variable {H : Type} {cfg : Config} {note : Actor Request → Happening → World → List H}
  {τ : Terms World Lock H} {a : Actor Request} {D : Conduct Stmt Tag World Lock H} {tags : Tag → Prop} {known : World → Prop}

/-- A transaction of this code, from what its body does and what values it has. -/
theorem Lenient.transaction_of {β : Type} {tag : β → Tag} {p : Code β} (Q : β → Prop)
    (hD : Lenient cfg τ a.pid D tags) (htags : ∀ x, Q x → tags (tag x))
    (h : Body cfg τ p
      (fun x v L P => Q x ∧ ∀ w, P w → (tag x).Effect cfg τ.hold a.pid L w (v w)) id [] known) :
    (Interleave.transaction tag p).Keeps (system cfg note) τ a D known := by
  intro σ hσ
  have hbody := h.mono fun x v L P (hx : Q x ∧ ∀ w, P w →
    (tag x).Effect cfg τ.hold a.pid L w (v w)) => And.intro trivial fun w hw => And.intro hx.1 (hx.2 w hw)
  refine (Prog.Body.does tag (fun _ => True)
    (fun x L w w' => Q x ∧ (tag x).Effect cfg τ.hold a.pid L w w') hbody hσ hD.inside
    fun g x L w _ hw => hD.commit g (tag x) L w (htags x hw.1) hw.2).mono
    (fun _ _ h => h.1) (fun _ _ h => h) (fun _ _ _ h => h) (fun _ _ _ _ h => h) fun _ _ _ _ h => h

/-- A transaction of this code, from what its body does. -/
theorem Lenient.transaction {β : Type} {tag : β → Tag} {p : Code β} (hD : Lenient cfg τ a.pid D tags)
    (htags : ∀ x, tags (tag x))
    (h : Body cfg τ p (fun x v L P => ∀ w, P w → (tag x).Effect cfg τ.hold a.pid L w (v w)) id []
      known) :
    (Interleave.transaction tag p).Keeps (system cfg note) τ a D known :=
  hD.transaction_of (fun _ => True) (fun x _ => htags x) (h.mono fun _ _ _ _ h => ⟨trivial, h⟩)

theorem leaseJob_keeps {j i ttl : Nat} (hD : Lenient cfg τ a.pid D tags)
    (htag : tags (.leaseJob j i)) :
    (leaseJob j i ttl).Keeps (system cfg note) τ a D known := by
  refine Prog.keeps_perform_bind (fun g b => hD.read g _ b) fun start =>
    Prog.keeps_perform_bind hD.nanoid fun nonce => hD.transaction (fun _ => htag) ?_
  refine body_ask (fun _ => trivial) fun w₁ P₁ _ hP₁ => ?_
  refine body_run (fun _ => trivial) fun w₂ _ v₂ P₂ hw₂ hv₂ hP₂ => ?_
  obtain rfl : v₂ = id := funext hv₂
  refine body_ask (fun _ => trivial) fun w₃ P₃ hw₃ hP₃ => ?_
  split_ifs with hactive
  · intro w _
    exact Or.inl rfl
  · refine ⟨fun _ _ => trivial, trivial, fun w₄ busy v₄ P₄ hw₄ hv₄ hP₄ => ?_⟩
    intro w hw
    obtain ⟨h₃, -, -, hlocks⟩ := hP₄ w hw
    obtain ⟨h₂, hgrown, hheld⟩ := hP₃ w h₃
    have hnow : w₁.now ≤ w₃.now := (hD.grow _ _ (hP₁ w₃ (hP₂ w₃ hw₃).1).2.1).now
    have hrow : w₄.jobs j = w.jobs j :=
      (hlocks (.job j) (by simp [engine, Stmt.locks, JobStmt.locks])).1
    have hadvisory : τ.hold (.advisory i) w₃ w := (hheld _ (by simp [Stmt.locks])).2
    have hwrite : v₄ w = { w with
        jobs := if (w₄.jobs j).any (JobStmt.leasable w₁.now) then
          modify w.jobs j (JobStmt.lease' i (start + ttl) nonce)
          else w.jobs } := hv₄ w
    rw [hwrite, hrow]
    by_cases hleasable : (w.jobs j).any (JobStmt.leasable w₁.now) = true
    · refine Or.inr ⟨by simp [engine, Stmt.locks], start + ttl, nonce, w₁.now, w₃, hnow,
        hD.grow _ _ hgrown, hadvisory, (Bool.not_eq_true _).mp hactive, hleasable, ?_⟩
      simp [hleasable]
    · exact Or.inl (by simp [hleasable])

/-- `ensureAccount`, as the first write of a transaction. -/
theorem ensureAccount_body {o : Nat} {F : BodyGoal World Lock Account} {L : List Lock}
    {P : World → Prop}
    (h : ∀ account (accounts : World → Nat → Option Account) L' P', L ⊆ L' →
      (∀ x, P' x → P x ∧ Ensures o x.accounts (accounts x)) →
      (∀ x y, x.accounts o = y.accounts o → accounts x o = accounts y o) →
      F account (fun x => { x with accounts := accounts x }) L' P') :
    Body cfg τ (ensureAccount o) F id L P := by
  refine body_ask (fun _ => trivial) fun w₁ P₁ _ hP₁ => ?_
  cases hfound : (Query.account o).eval (id w₁) with
  | some account =>
      exact h account World.accounts L P₁ (List.Subset.refl _)
        (fun x hx => ⟨(hP₁ x hx).1, Or.inl rfl⟩) fun _ _ h => h
  | none =>
      refine body_run (fun _ => trivial) fun w₂ _ v₂ P₂ hw₂ hv₂ hP₂ => ?_
      have hresult : (Stmt.account (.insertOrIgnore o)).result (fun _ => false) (id w₂) =
          if (w₂.accounts o).isNone then some ⟨0⟩ else none := rfl
      by_cases hfree : w₂.accounts o = none
      · obtain rfl : v₂ = fun x => { x with
            accounts := Function.update x.accounts o (some ⟨0⟩) } := by
          funext x
          rw [hv₂]
          simp [Stmt.write, AccountStmt.write, hfree]
        simp only [Stmt.result, AccountStmt.result, id_eq, hfree, Option.isNone_none, if_true]
        refine h ⟨0⟩ (fun x => Function.update x.accounts o (some ⟨0⟩)) _ P₂ (by simp) ?_ ?_
        · intro x hx
          obtain ⟨h₁, -, -, hlock⟩ := hP₂ x hx
          have hrow : w₂.accounts o = x.accounts o :=
            (hlock (.account o) (by simp [Stmt.locks, AccountStmt.locks])).1
          exact ⟨(hP₁ x h₁).1, Or.inr ⟨hrow ▸ hfree, rfl⟩⟩
        · simp
      · obtain rfl : v₂ = id := by
          funext x
          rw [hv₂]
          simp [Stmt.write, AccountStmt.write, Option.isNone_iff_eq_none, hfree]
        simp only [Stmt.result, AccountStmt.result, id_eq, Option.isNone_iff_eq_none, hfree, if_false]
        refine body_ask (fun _ => trivial) fun w₃ P₃ hw₃ hP₃ => ?_
        cases (Query.account o).eval (id w₃) with
        | none => trivial
        | some account =>
            exact h account World.accounts _ P₃ (by simp)
              (fun x hx => ⟨(hP₁ x (hP₂ x (hP₃ x hx).1).1).1, Or.inl rfl⟩) fun _ _ h => h

theorem Stmt.billable_isSome {e : BillingEvent} {w : World} (h : Stmt.billable e w = true) :
    (w.accounts e.account).isSome := by
  simp only [Stmt.billable, Bool.and_eq_true] at h
  exact h.1

/-- `insertBillingEvent`: the event is booked on an account that exists, and on a
key of its own if it is a Stripe event. -/
theorem insertBillingEvent_body {o : Nat} {kind : BillingKind} {n : Int} {t : Nat}
    {F : BodyGoal World Lock Unit} {v : World → World} {L : List Lock} {P : World → Prop}
    (h : ∀ P' L' w, P w → Stmt.billable ⟨o, kind, n, t⟩ (v w) = true → L ⊆ L' →
      (∀ i, kind = .stripeTopup i → .stripeTopup i ∈ L') →
      (∀ x, P' x → P x ∧ ∀ k ∈ L', World.same k w x ∧ τ.hold k w x) →
      F () (fun x => { v x with billing := ⟨o, kind, n, t⟩ :: (v x).billing }) L' P') :
    Body cfg τ (insertBillingEvent o kind n t) F v L P := by
  refine body_run (fun _ => trivial) fun w _ v' P' hw hv' hP' => ?_
  cases hbill : (Stmt.billing ⟨o, kind, n, t⟩).result (fun _ => false) (v w) with
  | false =>
      have hfail : Stmt.billable ⟨o, kind, n, t⟩ (v w) = false := hbill
      simp only [Stmt.result, hfail]
      trivial
  | true =>
      have hbill : Stmt.billable ⟨o, kind, n, t⟩ (v w) = true := hbill
      obtain rfl : v' = fun x => { v x with billing := ⟨o, kind, n, t⟩ :: (v x).billing } := by
        funext x
        rw [hv']
        simp [Stmt.write, hbill]
      simp only [Stmt.result, hbill]
      refine h P' _ w hw hbill (fun k hk => by simp [hk]) ?_ fun x hx =>
        ⟨(hP' x hx).1, (hP' x hx).2.2.2⟩
      rintro i rfl
      simp [Stmt.locks]

theorem checkSpendLimit_body {o since n : Nat} {limit : Option Nat} {err : Err}
    {F : BodyGoal World Lock Unit} {v : World → World} {L : List Lock} {P : World → Prop}
    (h : ∀ P', (∀ x, P' x → P x) → F () v L P') :
    Body cfg τ (checkSpendLimit o limit since n err) F v L P := by
  cases limit with
  | none => exact h P fun _ hx => hx
  | some limit =>
      refine body_ask (fun _ => trivial) fun w P' _ hP' => ?_
      split_ifs
      · trivial
      · exact h P' fun x hx => (hP' x hx).1

/-- `reserveBudget` after `ensureAccount`. -/
theorem reserveBudget_body {b o n t : Nat} {org : Option Org} {F : BodyGoal World Lock Unit}
    {L : List Lock} {P : World → Prop} {accounts : World → Nat → Option Account}
    (hrow : ∀ x y, x.accounts o = y.accounts o → accounts x o = accounts y o)
    (h : ∀ L' P', L ⊆ L' →
      (∀ x, P' x → P x ∧ x.reservations b = none ∧
        (accounts x o).any (AccountStmt.covers n) = true) →
      F () (fun x => { x with
        accounts := modify (accounts x) o fun a => ⟨a.balanceCents - n⟩
        billing := ⟨o, .bountyBudgetReserve b, -(n : Int), t⟩ :: x.billing
        reservations := Function.update x.reservations b (some ⟨o, n, .active⟩) }) L' P') :
    Body cfg τ (reserveBudget b o n t org) F (fun x => { x with accounts := accounts x }) L P := by
  refine body_bind.mpr (checkSpendLimit_body fun P₁ hP₁ => ?_)
  refine body_bind.mpr (checkSpendLimit_body fun P₂ hP₂ => ?_)
  refine body_run (fun _ => trivial) fun w₃ _ v₃ P₃ hw₃ hv₃ hP₃ => ?_
  cases hcovers : (accounts w₃ o).any (AccountStmt.covers n) with
  | false =>
      simp only [Stmt.result, AccountStmt.result, hcovers]
      trivial
  | true =>
      obtain rfl : v₃ = fun x => { x with
          accounts := modify (accounts x) o fun a => ⟨a.balanceCents - n⟩ } := by
        funext x
        rw [hv₃]
        simp [Stmt.write, AccountStmt.write, hcovers]
      simp only [Stmt.result, AccountStmt.result, hcovers]
      refine body_bind.mpr (insertBillingEvent_body fun P₄ L₄ w₄ hw₄ _ hL₄ _ hP₄ => ?_)
      refine body_run (fun _ => trivial) fun w₅ _ v₅ P₅ hw₅ hv₅ hP₅ => ?_
      cases hfree : w₅.reservations b with
      | none =>
          obtain rfl : v₅ = fun x => { x with
              accounts := modify (accounts x) o fun a => ⟨a.balanceCents - n⟩
              billing := ⟨o, .bountyBudgetReserve b, -(n : Int), t⟩ :: x.billing
              reservations := Function.update x.reservations b (some ⟨o, n, .active⟩) } := by
            funext x
            rw [hv₅]
            simp [Stmt.write, ReservationStmt.write, hfree]
          simp only [Stmt.result, ReservationStmt.result, hfree, Option.isNone_none,
            orUniqueViolation]
          refine h _ P₅ (fun k hk => by simp [hL₄ (List.mem_append_right _ hk)]) fun x hx => ?_
          obtain ⟨h₄, -, -, hlock₅⟩ := hP₅ x hx
          obtain ⟨h₃, -⟩ := hP₄ x h₄
          obtain ⟨h₂, -, -, hlock₃⟩ := hP₃ x h₃
          have hres : w₅.reservations b = x.reservations b :=
            (hlock₅ (.reservation b) (by simp [Stmt.locks, ReservationStmt.locks])).1
          have hacc : w₃.accounts o = x.accounts o :=
            (hlock₃ (.account o) (by simp [Stmt.locks, AccountStmt.locks])).1
          exact ⟨hP₁ x (hP₂ x h₂), hres ▸ hfree, hrow _ _ hacc ▸ hcovers⟩
      | some res =>
          simp only [Stmt.result, ReservationStmt.result, hfree, Option.isNone_some,
            orUniqueViolation]
          trivial

/-- One more job. -/
theorem NewJobs.snoc {b k fp sla t : Nat} {rows : List (Nat × Nat)} {x : World}
    {jobs : Nat → Option Job} (h : NewJobs b sla t rows x jobs) (hlt : k < x.nextId)
    (hfree : x.jobs k = none) (hunused : jobs k = none) :
    NewJobs b sla t (rows ++ [(k, fp)]) x
      (Function.update jobs k (some (.fresh b fp sla t))) := by
  have hk : k ∉ rows.map Prod.fst := by
    intro hmem
    obtain ⟨row, hrow, rfl⟩ := List.mem_map.mp hmem
    exact absurd ((h.fresh row hrow).2.2.symm.trans hunused) (by simp)
  refine ⟨?_, ?_, ?_⟩
  · rw [List.map_append, List.nodup_append]
    refine ⟨h.nodup, List.nodup_singleton _, ?_⟩
    rintro k' hk' _ hsingle rfl
    obtain rfl : k' = k := List.mem_singleton.mp hsingle
    exact hk hk'
  · intro row hrow
    obtain hold | hnew := List.mem_append.mp hrow
    · obtain ⟨hless, hnone, hrow'⟩ := h.fresh row hold
      have hne : row.1 ≠ k := by
        rintro rfl
        exact hk (List.mem_map_of_mem hold)
      exact ⟨hless, hnone, by rw [Function.update_of_ne hne, hrow']⟩
    · obtain rfl := List.mem_singleton.mp hnew
      exact ⟨hlt, hfree, Function.update_self _ _ _⟩
  · intro k' hk'
    have hne : k' ≠ k := by
      rintro rfl
      exact hk' (by simp)
    rw [Function.update_of_ne hne]
    exact h.others k' fun hmem => hk' (by simp [List.mem_map.mp hmem])

/-- The loop of `insertJobs`, after the jobs `rows`. -/
theorem insertJob_body (hgrow : ∀ w w', τ.grow w w' → w.Grows w') {b now : Nat} {bounty : Bounty}
    {base : World → World} {rows : List (Nat × Nat)}
    {F : BodyGoal World Lock Unit} {L : List Lock} {P : World → Prop}
    {jobs : World → Nat → Option Job} (hbase : ∀ x, (base x).nextId = x.nextId)
    (hjobs : ∀ x, P x → NewJobs b bounty.freshnessSlaSec now rows x (jobs x)) (fps : List Nat)
    (h : ∀ L' P' (jobs' : World → Nat → Option Job), L ⊆ L' →
      (∀ x, P' x → P x ∧ AddsJobs b (rows.map Prod.snd ++ fps) x (jobs' x)) →
      F () (fun x => { base x with jobs := jobs' x }) L' P') :
    Body cfg τ (forEach (insertJobs.insertJob b bounty now) fps) F
      (fun x => { base x with jobs := jobs x }) L P := by
  induction fps generalizing rows jobs L P with
  | nil => exact h L P jobs (List.Subset.refl _) fun x hx => ⟨hx, rows, _, now, by simp, hjobs x hx⟩
  | cons fp fps ih =>
      refine body_bind.mpr (body_run (fun _ => trivial) fun w₁ _ v₁ P₁ hw₁ hv₁ hP₁ => ?_)
      obtain rfl : v₁ = fun x => { base x with jobs := jobs x } := funext hv₁
      refine body_run (fun _ => trivial) fun w₂ _ v₂ P₂ hw₂ hv₂ hP₂ => ?_
      have hid := hbase w₁
      simp only [Stmt.result, JobStmt.result, hid] at hv₂ hP₂ ⊢
      cases hfree : jobs w₂ w₁.nextId with
      | some r =>
          simp only [Option.isNone_some, orUniqueViolation]
          trivial
      | none =>
          simp only [Option.isNone_none, orUniqueViolation]
          obtain rfl : v₂ = fun x => { base x with
              jobs := Function.update (jobs x) w₁.nextId
                (some (.fresh b fp bounty.freshnessSlaSec now)) } := by
            funext x
            rw [hv₂]
            simp [Stmt.write, JobStmt.write, hfree]
          refine ih (fun x hx => (?_ : NewJobs b bounty.freshnessSlaSec now
            (rows ++ [(w₁.nextId, fp)]) x _)) fun L' P' jobs' hL' hP' => ?_
          · obtain ⟨h₁, -, -, hlock⟩ := hP₂ x hx
            obtain ⟨h₀, -, hgrown, -⟩ := hP₁ x h₁
            have hlt : w₁.nextId < x.nextId := (hgrow _ _ hgrown).nextId
            have hrow : w₂.jobs w₁.nextId = x.jobs w₁.nextId :=
              (hlock (.job w₁.nextId) (by simp [Stmt.locks, JobStmt.locks])).1
            have hunused : w₁.nextId ∉ rows.map Prod.fst := by
              intro hmem
              obtain ⟨row, hrow', heq⟩ := List.mem_map.mp hmem
              have hnew := ((hjobs w₂ (hP₁ w₂ hw₂).1).fresh row hrow').2.2
              rw [heq, hfree] at hnew
              exact absurd hnew (by simp)
            have hnone : x.jobs w₁.nextId = none := by
              rw [← hrow, ← (hjobs w₂ (hP₁ w₂ hw₂).1).others _ hunused, hfree]
            refine (hjobs x h₀).snoc hlt hnone ?_
            rw [(hjobs x h₀).others _ hunused, hnone]
          · refine h L' P' jobs' (fun k hk => hL' (by simp [hk])) fun x hx => ?_
            obtain ⟨hx₂, hadds⟩ := hP' x hx
            refine ⟨(hP₁ x (hP₂ x hx₂).1).1, ?_⟩
            simpa using hadds

/-- `insertJobs`, from a state without jobs of its own. -/
theorem insertJobs_body (hgrow : ∀ w w', τ.grow w w' → w.Grows w') {b now : Nat} {bounty : Bounty} {org : Option Org} {base : World → World}
    {F : BodyGoal World Lock Unit} {L : List Lock} {P : World → Prop}
    (hbase : ∀ x, (base x).nextId = x.nextId) (hjobs : ∀ x, (base x).jobs = x.jobs)
    (h : ∀ L' P' (jobs : World → Nat → Option Job), L ⊆ L' →
      (∀ x, P' x → P x ∧ AddsJobs b bounty.fingerprintClasses x (jobs x)) →
      F () (fun x => { base x with jobs := jobs x }) L' P') :
    Body cfg τ (insertJobs b bounty org now) F base L P := by
  have hloop : ∀ P', (∀ x, P' x → P x) →
      Body cfg τ (forEach (insertJobs.insertJob b bounty now) bounty.fingerprintClasses) F base L P' := by
    intro P' hP'
    have hinit : base = fun x => { base x with jobs := x.jobs } := by
      funext x
      rw [← hjobs x]
    rw [hinit]
    refine insertJob_body hgrow hbase
      (fun x _ => (?_ : NewJobs b bounty.freshnessSlaSec now [] x _)) _ fun L'' P'' jobs hL hP => ?_
    · exact ⟨List.nodup_nil, by simp, fun _ _ => rfl⟩
    · exact h L'' P'' jobs hL fun x hx => ⟨hP' x (hP x hx).1, by simpa using (hP x hx).2⟩
  cases hmax : org.bind Org.maxOpenJobs with
  | none =>
      simp only [insertJobs, hmax]
      exact hloop P fun _ hx => hx
  | some maxOpen =>
      simp only [insertJobs, hmax]
      refine body_ask (fun _ => trivial) fun w P' _ hP' => ?_
      split_ifs
      · trivial
      · exact hloop P' fun x hx => (hP' x hx).1

/-- `onlyIf` in a transaction. -/
theorem onlyIf_body {c : Prop} [Decidable c] {p : Code Unit} {F : BodyGoal World Lock Unit}
    {v : World → World} {L : List Lock} {P : World → Prop}
    (hyes : c → Body cfg τ p F v L P) (hno : ¬ c → F () v L P) : Body cfg τ (onlyIf c p) F v L P := by
  by_cases hc : c
  · simpa [onlyIf, hc] using hyes hc
  · simp only [onlyIf, hc, if_false]
    exact hno hc

/-- A bounty whose jobs have been counted has one. -/
theorem exists_of_countJobs {w : World} {b : Nat} (h : (Query.countJobs b).eval w ≠ 0) :
    ∃ k j, w.jobs k = some j ∧ j.bountyId = b := by
  obtain ⟨k, hk⟩ := List.exists_mem_of_length_pos (Nat.pos_of_ne_zero h)
  obtain ⟨j, hj, hbounty⟩ := (Option.any_eq_true _ _).mp (List.mem_filter.mp hk).2
  exact ⟨k, j, hj, by simpa using hbounty⟩

/-- The end of `publishBounty`: status and jobs. -/
theorem publishBounty_end (hgrow : ∀ w w', τ.grow w w' → w.Grows w') {b t pid : Nat}
    {org : Option Org} {L : List Lock} {P : World → Prop} (bounty : Bounty)
    (accounts accounts' : World → Nat → Option Account) (billing : World → List BillingEvent)
    (reservations : World → Nat → Option Reservation)
    (hP : ∀ x, P x → (∃ r, x.bounties b = some r ∧ r.terms = bounty.terms) ∧
      Ensures bounty.orgId x.accounts (accounts x) ∧
      Funds b bounty x (accounts x) (accounts' x) (billing x) (reservations x)) :
    Body cfg τ (do
        match ← run (.bounty (.setStatus b .published (some t))) with
        | none => throw .noResult
        | some updated =>
            let existingJobs ← ask (.countJobs b)
            onlyIf (existingJobs = 0 ∧ updated.fingerprintClasses ≠ [])
              (insertJobs b updated org t)
            return updated : Code Bounty)
      (fun _ v L P => ∀ w, P w → (Tag.publishBounty b).Effect cfg τ.hold pid L w (v w))
      (fun x => { x with
        accounts := accounts' x, billing := billing x, reservations := reservations x }) L P := by
  refine body_run (fun _ => trivial) fun w₁ _ v₁ P₁ hw₁ hv₁ hP₁ => ?_
  obtain rfl : v₁ = fun x => { x with
      accounts := accounts' x, billing := billing x, reservations := reservations x
      bounties := modify x.bounties b (BountyStmt.apply .published (some t)) } := funext hv₁
  cases hrow : w₁.bounties b with
  | none =>
      simp only [Stmt.result, BountyStmt.result, hrow]
      trivial
  | some r =>
      simp only [Stmt.result, BountyStmt.result, hrow]
      -- the row and its terms at the commit
      have hterms : ∀ x, P₁ x → x.bounties b = some r ∧ r.terms = bounty.terms := by
        intro x hx
        obtain ⟨hx₀, -, -, hlock⟩ := hP₁ x hx
        have hsame : w₁.bounties b = x.bounties b :=
          (hlock (.bounty b) (by simp [Stmt.locks, BountyStmt.locks])).1
        obtain ⟨⟨r', hr', hterms⟩, -⟩ := hP x hx₀
        rw [← hsame, hrow, Option.some.injEq] at hr'
        exact ⟨hsame ▸ hrow, hr' ▸ hterms⟩
      have hdone : ∀ (L' : List Lock) (P' : World → Prop) (jobs : World → Nat → Option Job),
          .bounty b ∈ L' →
          (∀ x, P' x → P₁ x ∧ Populates τ.hold b r x (jobs x)) →
          ∀ w, P' w → .bounty b ∈ L' ∧ Published τ.hold b w { w with
            accounts := accounts' w, billing := billing w, reservations := reservations w
            bounties := modify w.bounties b (BountyStmt.apply .published (some t))
            jobs := jobs w } := by
        intro L' P' jobs hL hP' w hw
        obtain ⟨hw₁', hpop⟩ := hP' w hw
        obtain ⟨-, hensure, hfunds⟩ := hP w (hP₁ w hw₁').1
        obtain ⟨hr, hterms⟩ := hterms w hw₁'
        have horg : r.orgId = bounty.orgId := congrArg Prod.fst hterms
        have hreserve : r.reserveCents = bounty.reserveCents := by
          simp only [Bounty.terms, Prod.mk.injEq] at hterms
          simp [Bounty.reserveCents, hterms]
        refine ⟨hL, r, accounts w, accounts' w, billing w, reservations w, jobs w, t, hr,
          horg ▸ hensure, ?_, hpop, rfl⟩
        rw [Funds, horg, hreserve]
        exact hfunds
      refine body_ask (fun _ => trivial) fun w₂ P₂ hw₂ hP₂ => ?_
      refine body_bind.mpr (onlyIf_body ?_ ?_)
      · rintro ⟨hcount, -⟩
        refine insertJobs_body hgrow (fun _ => rfl) (fun _ => rfl) fun L' P' jobs hL hP' => ?_
        refine hdone L' P' jobs (hL (by simp [Stmt.locks, BountyStmt.locks])) fun x hx => ?_
        obtain ⟨hx₂, hadds⟩ := hP' x hx
        obtain ⟨hx₁, -, hlocks⟩ := hP₂ x hx₂
        exact ⟨hx₁, Or.inr ⟨w₂, (hlocks (.bounty b) (by simp [Stmt.locks, BountyStmt.locks])).2,
          hcount, hadds⟩⟩
      · intro hnone
        refine hdone _ P₂ World.jobs (by simp [Stmt.locks, BountyStmt.locks])
          fun x hx => ⟨(hP₂ x hx).1, Or.inl ⟨?_, rfl⟩⟩
        by_cases hclasses : r.fingerprintClasses = []
        · exact Or.inr hclasses
        · obtain ⟨k, j, hj, hbounty⟩ := exists_of_countJobs (w := w₂) (b := b)
            fun hzero => hnone ⟨hzero, hclasses⟩
          obtain ⟨j', hj', hsame⟩ := (hgrow _ _ (hP₂ x hx).2.1).jobs k j hj
          exact Or.inl ⟨k, j', hj', hsame.trans hbounty⟩

theorem publishBounty_keeps {b : Nat} (hD : Lenient cfg τ a.pid D tags)
    (htag : tags (.publishBounty b)) :
    (publishBounty b).Keeps (system cfg note) τ a D known := by
  refine hD.transaction (fun _ => htag) ?_
  refine body_ask (fun _ => trivial) fun w₁ P₁ _ hP₁ => ?_
  cases hrow : w₁.bounties b with
  | none =>
      simp only [Query.eval, id_eq, hrow]
      trivial
  | some existing =>
      simp only [Query.eval, id_eq, hrow]
      have hterms : ∀ x, P₁ x → ∃ r, x.bounties b = some r ∧ r.terms = existing.terms :=
        fun x hx => (hD.grow _ _ (hP₁ x hx).2.1).bounties b existing hrow
      refine body_ask (fun _ => trivial) fun w₂ P₂ _ hP₂ =>
        body_ask (fun _ => trivial) fun w₃ P₃ _ hP₃ => ?_
      refine body_bind.mpr (ensureAccount_body fun account accounts L₄ P₄ _ hP₄ hacc => ?_)
      refine body_ask (fun _ => trivial) fun w₅ P₅ _ hP₅ => body_bind.mpr (onlyIf_body ?_ ?_)
      · intro _
        refine reserveBudget_body hacc fun L₆ P₆ _ hP₆ => publishBounty_end hD.grow existing
          accounts _ _ _ fun x hx => ?_
        obtain ⟨hx₅, hfree, hcovers⟩ := hP₆ x hx
        obtain ⟨hx₃, hensure⟩ := hP₄ x (hP₅ x hx₅).1
        have hnow : w₃.now ≤ x.now := (hD.grow _ _ (hP₃ x hx₃).2.1).now
        exact ⟨hterms x (hP₂ x (hP₃ x hx₃).1).1, hensure,
          Or.inr ⟨w₃.now, hnow, hfree, hcovers, rfl, rfl, rfl⟩⟩
      · intro hnone
        refine publishBounty_end hD.grow existing accounts accounts World.billing World.reservations
          fun x hx => ?_
        obtain ⟨hx₃, hensure⟩ := hP₄ x (hP₅ x hx).1
        refine ⟨hterms x (hP₂ x (hP₃ x hx₃).1).1, hensure, Or.inl ⟨?_, rfl, rfl, rfl⟩⟩
        by_cases hzero : existing.reserveCents = 0
        · exact Or.inr hzero
        · left
          obtain ⟨res, hres⟩ : ∃ res, w₅.reservations b = some res := by
            refine Option.ne_none_iff_exists'.mp fun h => hnone ⟨?_, Nat.pos_of_ne_zero hzero⟩
            simpa [Query.eval] using h
          obtain ⟨res', hres', -⟩ := (hD.grow _ _ (hP₅ x hx).2.1).reservations b res hres
          simp [hres']

/-- `releaseBudget`, after the bounty's status is set. -/
theorem releaseBudget_body {b now : Nat} {res : Reservation} {base : World → World}
    {F : BodyGoal World Lock Nat} {L : List Lock} {P : World → Prop}
    (haccounts : ∀ x, (base x).accounts = x.accounts) (hbilling : ∀ x, (base x).billing = x.billing)
    (hreservations : ∀ x, (base x).reservations = x.reservations)
    (h : ∀ committed (accounts : World → Nat → Option Account) (billing : World → List BillingEvent)
      L' P', L ⊆ L' →
      (∀ x, P' x → P x ∧
        ((res.amountCents ≤ committed ∧ accounts x = x.accounts ∧ billing x = x.billing) ∨
          ∃ t ≤ now, committed < res.amountCents ∧ (x.accounts res.account).isSome ∧
            accounts x = modify x.accounts res.account
              (fun a => ⟨a.balanceCents + (res.amountCents - committed : Nat)⟩) ∧
            billing x = ⟨res.account, .bountyBudgetRelease b,
              (res.amountCents - committed : Nat), t⟩ :: x.billing)) →
      F committed (fun x => { base x with
        accounts := accounts x, billing := billing x
        reservations := modify x.reservations b fun r => { r with status := .released } }) L' P') :
    Body cfg τ (releaseBudget b res now) F base L P := by
  refine body_ask (fun _ => trivial) fun w₁ P₁ _ hP₁ => ?_
  generalize (Query.committedCents b).eval (base w₁) = committed
  change Nat at committed
  refine body_bind.mpr (onlyIf_body ?_ ?_)
  · intro hpos
    have hlt : committed < res.amountCents := by omega
    refine body_run (fun _ => trivial) fun w₂ _ v₂ P₂ hw₂ hv₂ hP₂ => ?_
    obtain rfl : v₂ = fun x => { base x with
        accounts := modify x.accounts res.account
          fun a => ⟨a.balanceCents + (res.amountCents - committed : Nat)⟩ } := by
      funext x
      rw [hv₂]
      simp [Stmt.write, AccountStmt.write, haccounts]
    refine insertBillingEvent_body fun P₃ L₃ w₃ hw₃ hbill hL₃ _ hP₃ => ?_
    refine body_run (fun _ => trivial) fun w₄ _ v₄ P₄ hw₄ hv₄ hP₄ => ?_
    obtain rfl : v₄ = fun x => { base x with
        accounts := modify x.accounts res.account
          (fun a => ⟨a.balanceCents + (res.amountCents - committed : Nat)⟩)
        billing := ⟨res.account, .bountyBudgetRelease b, (res.amountCents - committed : Nat), now⟩ ::
          x.billing
        reservations := modify x.reservations b fun r => { r with status := .released } } := by
      funext x
      rw [hv₄]
      simp [Stmt.write, ReservationStmt.write, hbilling, hreservations]
    refine h committed _ _ _ P₄ (fun k hk => by simp [hL₃ (List.mem_append_right _ hk)])
      fun x hx => ?_
    obtain ⟨hx₃, -, -, -⟩ := hP₄ x hx
    obtain ⟨hx₂, hlocks⟩ := hP₃ x hx₃
    obtain ⟨hx₁, -⟩ := hP₂ x hx₂
    refine ⟨(hP₁ x hx₁).1, Or.inr ⟨now, Nat.le_refl _, hlt, ?_, rfl, rfl⟩⟩
    have hsame : w₃.accounts res.account = x.accounts res.account :=
      (hlocks (.account res.account) (hL₃ (by simp [Stmt.locks, AccountStmt.locks]))).1
    rw [← hsame]
    simpa using Stmt.billable_isSome hbill
  · intro hpos
    have hle : res.amountCents ≤ committed := by omega
    refine body_run (fun _ => trivial) fun w₂ _ v₂ P₂ hw₂ hv₂ hP₂ => ?_
    obtain rfl : v₂ = fun x => { base x with
        accounts := x.accounts, billing := x.billing
        reservations := modify x.reservations b fun r => { r with status := .released } } := by
      funext x
      rw [hv₂, ← haccounts x, ← hbilling x, ← hreservations x]
      rfl
    exact h committed World.accounts World.billing _ P₂ (by simp)
      fun x hx => ⟨(hP₁ x (hP₂ x hx).1).1, Or.inl ⟨hle, rfl, rfl⟩⟩

theorem setBountyStatus_keeps {b : Nat} {status : BountyStatus} (hD : Lenient cfg τ a.pid D tags)
    (htag : ∀ r, (status ≠ .closed → r.bind Prod.snd = none) → tags (statusTag b status r)) :
    (setBountyStatus b status).Keeps (system cfg note) τ a D known := by
  refine hD.transaction_of (fun r => status ≠ .closed → r.bind Prod.snd = none) htag ?_
  refine body_ask (fun _ => trivial) fun w₁ P₁ _ hP₁ => ?_
  refine body_run (fun _ => trivial) fun w₂ _ v₂ P₂ hw₂ hv₂ hP₂ => ?_
  obtain rfl : v₂ = fun x => { x with
      bounties := modify x.bounties b (BountyStmt.apply status none) } := funext hv₂
  simp only [Stmt.result, BountyStmt.result]
  cases hrow : ((id w₂ : World).bounties b).map (BountyStmt.apply status none) with
  | none => exact ⟨fun _ => rfl, fun w _ => rfl⟩
  | some row =>
      dsimp only
      split_ifs with hclosed
      · refine body_ask (fun _ => trivial) fun w₃ P₃ _ hP₃ => ?_
        cases hres : w₃.reservations b with
        | none =>
            simp only [Query.eval, hres]
            exact ⟨fun _ => rfl, fun w _ => rfl⟩
        | some res =>
            simp only [Query.eval, hres]
            split_ifs with hreleased
            · exact ⟨fun _ => rfl, fun w _ => rfl⟩
            · refine body_bind.mpr (releaseBudget_body (fun _ => rfl) (fun _ => rfl) (fun _ => rfl)
                fun committed accounts billing L' P' hL hP' => ?_)
              refine ⟨fun hopen => absurd hclosed hopen, fun w hw => ?_⟩
              obtain ⟨hw₃, hcredit⟩ := hP' w hw
              have hhold : τ.hold (.bounty b) w₃ w :=
                ((hP₃ w hw₃).2.2 (.bounty b) (by simp [Stmt.locks, BountyStmt.locks])).2
              have hnow : w₁.now ≤ w.now :=
                (hD.grow _ _ (hP₁ w (hP₂ w (hP₃ w hw₃).1).1).2.1).now
              refine ⟨hL (by simp [Stmt.locks, BountyStmt.locks]), res, accounts w, billing w, w₃,
                hD.grow _ _ (hP₃ w hw₃).2.1, hhold, hres, hreleased, ?_, ?_⟩
              · obtain hnothing | ⟨t, ht, hcredit⟩ := hcredit
                · exact Or.inl hnothing
                · exact Or.inr ⟨t, Nat.le_trans ht hnow, hcredit⟩
              · rw [hclosed]
      · exact ⟨fun _ => rfl, fun w _ => rfl⟩

end Bodies

end OpenUnion
