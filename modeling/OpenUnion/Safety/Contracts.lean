import OpenUnion.Safety.Tokens

/-!
# What messages can do to the contracts

Messages change a chain in few ways (`Effect`), and a payout is made of these and of what
other code does in between.  `Becomes.rel` is the rule for a relation that every effect
respects: then every run respects it, also where code that is not of this repository is
called in the middle of a payout and sends messages of its own.

* `Respected.execute`: one message; `Becomes.rel`: every run.
* `tokens_accounted`: in every run from an empty chain the balances of a token amount to its
  supply, the supply fits, no transfer fails in the arithmetic, and the balances are what the
  `Transfer` events say.
-/

namespace OpenUnion

open Holdings

/-! ## What a message does -/

/-- The same code, and for a splitter the same owner. -/
inductive Contract.SameCode : Contract → Contract → Prop
  | mockUSDC (m m' : MockUSDC) : SameCode (.mockUSDC m) (.mockUSDC m')
  | payoutSplitter {p p' : PayoutSplitter} (owner : p'.owner = p.owner) :
      SameCode (.payoutSplitter p) (.payoutSplitter p')
  | other : SameCode .other .other

theorem Contract.SameCode.refl (contract : Contract) : contract.SameCode contract := by
  cases contract with
  | mockUSDC m => exact .mockUSDC m m
  | payoutSplitter p => exact .payoutSplitter rfl
  | other => exact .other

theorem Contract.SameCode.trans {a b c : Contract} (h : a.SameCode b) (h' : b.SameCode c) :
    a.SameCode c := by
  cases h with
  | mockUSDC m m' =>
      cases h' with
      | mockUSDC _ m'' => exact .mockUSDC m m''
  | payoutSplitter howner =>
      cases h' with
      | payoutSplitter howner' => exact .payoutSplitter (howner'.trans howner)
  | other => exact h'

namespace Chain

variable {chain next c c' : Chain} {address t : Nat} {contract : Contract}
  {done : MockUSDC × TokenEvent} {log : ChainLog}

@[simp] theorem put_contracts (chain : Chain) (address : Nat) (contract : Contract) :
    (chain.put address contract).contracts =
      Function.update chain.contracts address (some contract) := rfl

@[simp] theorem put_moves (chain : Chain) (address : Nat) (contract : Contract) (t : Nat) :
    (chain.put address contract).moves t = chain.moves t := rfl

@[simp] theorem emit_contracts (chain : Chain) (log : ChainLog) :
    (chain.emit log).contracts = chain.contracts := rfl

theorem emit_moves (chain : Chain) (log : ChainLog) (t : Nat) :
    (chain.emit log).moves t = chain.moves t ++ (log.move t).toList := by
  cases h : log.move t <;> simp [moves, emit, List.filterMap_append, h]

theorem tokenDone_contracts (chain : Chain) (address : Nat) (done : MockUSDC × TokenEvent) :
    (chain.tokenDone address done).contracts =
      Function.update chain.contracts address (some (.mockUSDC done.1)) := rfl

theorem tokenDone_self (chain : Chain) (address : Nat) (done : MockUSDC × TokenEvent) :
    (chain.tokenDone address done).contracts address = some (.mockUSDC done.1) := by
  rw [tokenDone_contracts, Function.update_self]

theorem tokenDone_other (h : t ≠ address) (chain : Chain) (done : MockUSDC × TokenEvent) :
    (chain.tokenDone address done).contracts t = chain.contracts t := by
  rw [tokenDone_contracts, Function.update_of_ne h]

theorem tokenDone_moves_self (chain : Chain) (address : Nat) (done : MockUSDC × TokenEvent) :
    (chain.tokenDone address done).moves address = MockUSDC.after (chain.moves address) done.2 := by
  simp [tokenDone, emit_moves, ChainLog.move, MockUSDC.after]

theorem tokenDone_moves_other (h : t ≠ address) (chain : Chain) (done : MockUSDC × TokenEvent) :
    (chain.tokenDone address done).moves t = chain.moves t := by
  simp [tokenDone, emit_moves, ChainLog.move, h.symm]

/-- Code stays where it is, and a splitter keeps its owner. -/
def Keeps (c c' : Chain) : Prop :=
  ∀ a old, c.contracts a = some old → ∃ new, c'.contracts a = some new ∧ old.SameCode new

theorem Keeps.refl (c : Chain) : c.Keeps c := fun _ old h => ⟨old, h, .refl old⟩

theorem Keeps.trans {a b c : Chain} (h : a.Keeps b) (h' : b.Keeps c) : a.Keeps c := by
  intro t old ht
  obtain ⟨mid, hmid, hsame⟩ := h t old ht
  obtain ⟨new, hnew, hsame'⟩ := h' t mid hmid
  exact ⟨new, hnew, hsame.trans hsame'⟩

theorem Keeps.token (h : c.Keeps c') {m : MockUSDC} (hm : c.contracts t = some (.mockUSDC m)) :
    ∃ m', c'.contracts t = some (.mockUSDC m') := by
  obtain ⟨new, hnew, hsame⟩ := h t _ hm
  cases hsame with
  | mockUSDC _ m' => exact ⟨m', hnew⟩

theorem Keeps.splitter (h : c.Keeps c') {p : PayoutSplitter}
    (hp : c.contracts t = some (.payoutSplitter p)) :
    ∃ p', c'.contracts t = some (.payoutSplitter p') ∧ p'.owner = p.owner := by
  obtain ⟨new, hnew, hsame⟩ := h t _ hp
  cases hsame with
  | payoutSplitter howner => exact ⟨_, hnew, howner⟩

theorem Keeps.other (h : c.Keeps c') (ho : c.contracts t = some .other) :
    c'.contracts t = some .other := by
  obtain ⟨new, hnew, hsame⟩ := h t _ ho
  cases hsame with
  | other => exact hnew

/-- A deployment, a new storage of a token and a new state of a splitter keep the rest. -/
theorem keeps_put (h : ∀ old, c.contracts address = some old → old.SameCode contract) :
    c.Keeps (c.put address contract) := by
  intro a old ha
  by_cases haddress : a = address
  · subst haddress
    exact ⟨contract, by simp, h old ha⟩
  · exact ⟨old, by simpa [haddress] using ha, .refl old⟩

theorem keeps_tokenDone {m : MockUSDC} (h : c.contracts address = some (.mockUSDC m)) :
    c.Keeps (c.tokenDone address done) := by
  apply keeps_put
  intro old hold
  rw [h] at hold
  rw [← Option.some.inj hold]
  exact .mockUSDC m done.1

end Chain

/-- What one message does at a time: a contract is deployed, a function of a token is called,
a splitter is paused or goes on, a leg of a payout is transferred, or an event that is not of
a token is emitted. -/
inductive Effect (msg : ChainMessage) (c : Chain) : Chain → Prop
  | deployed {contract : Contract} (deploys : msg.deploys = some contract)
      (vacant : c.contracts msg.target = none) : Effect msg c (c.put msg.target contract)
  | token {m : MockUSDC} {done : MockUSDC × TokenEvent} (external : c.External msg.sender)
      (at_target : c.contracts msg.target = some (.mockUSDC m))
      (called : m.called msg.sender msg.call = .ok done) :
      Effect msg c (c.tokenDone msg.target done)
  | paused {p : PayoutSplitter} {v : Bool}
      (at_target : c.contracts msg.target = some (.payoutSplitter p))
      (owner : msg.sender = p.owner) :
      Effect msg c (c.put msg.target (.payoutSplitter { p with paused := v }))
  | leg {p : PayoutSplitter} {m : MockUSDC} {t : TransferFrom} {done : MockUSDC × TokenEvent}
      (at_target : c.contracts msg.target = some (.payoutSplitter p)) (running : p.paused = false)
      (at_token : c.contracts t.token = some (.mockUSDC m)) (payer : t.sender = msg.sender)
      (called : m.transferFrom msg.target t.sender t.recipient t.amount = .ok done) :
      Effect msg c (c.tokenDone t.token done)
  | logged {log : ChainLog} (plain : ∀ t, log.move t = none) : Effect msg c (c.emit log)

theorem Effect.keeps {msg : ChainMessage} {c c' : Chain} (h : Effect msg c c') : c.Keeps c' := by
  cases h with
  | deployed deploys vacant =>
      apply Chain.keeps_put
      intro old hold
      exact absurd hold (by simp [vacant])
  | token external at_target called => exact Chain.keeps_tokenDone at_target
  | paused at_target owner =>
      apply Chain.keeps_put
      intro old hold
      rw [at_target] at hold
      rw [← Option.some.inj hold]
      exact .payoutSplitter rfl
  | leg at_target running at_token payer called => exact Chain.keeps_tokenDone at_token
  | logged plain => exact .refl c

/-! ## Payouts as effects -/

/-- The legs of `payout`, each with the reason it fails with. -/
def PayoutCall.legs (c : PayoutCall) (payer : Nat) : List (TransferFrom × String) :=
  [(⟨c.token, payer, c.worker, c.net⟩, "net_transfer_failed"),
    (⟨c.token, payer, c.platform, c.fee⟩, "fee_transfer_failed")]

/-- The legs of `payoutV2`. -/
def SplitterCall.legs (c : SplitterCall) (payer : Nat) : List (TransferFrom × String) :=
  [(⟨c.token, payer, c.worker, c.net⟩, "net_transfer_failed"),
    (⟨c.token, payer, c.platform, c.platformFee⟩, "platform_fee_transfer_failed"),
    (⟨c.token, payer, c.proofwork, c.proofworkFee⟩, "proofwork_fee_transfer_failed")]

/-- Legs one after the other. -/
def payLegs (other : OtherCode) (splitter : Nat) (legs : List (TransferFrom × String))
    (chain : Chain) : Except Revert Chain :=
  legs.foldlM (fun chain leg => payLeg other splitter leg.1 leg.2 chain) chain

section Payouts

variable {other : OtherCode} {p : PayoutSplitter} {self sender payer token : Nat}
  {legs : List (TransferFrom × String)} {leg : TransferFrom × String}
  {chain next : Chain} {m : MockUSDC}

theorem payLegs_cons_ok : payLegs other self (leg :: legs) chain = .ok next ↔
    ∃ mid, payLeg other self leg.1 leg.2 chain = .ok mid ∧
      payLegs other self legs mid = .ok next := by
  rw [payLegs, List.foldlM_cons, binds_ok]
  rfl

theorem payLegs_nil_ok : payLegs other self [] chain = .ok next ↔ chain = next := by
  simp [payLegs, pure, Except.pure]

theorem PayoutSplitter.payout_ok {c : PayoutCall} :
    p.payout other self sender c chain = .ok next ↔
      p.paused = false ∧ (c.worker ≠ 0 ∧ c.platform ≠ 0) ∧
        ∃ paid, payLegs other self (c.legs sender) chain = .ok paid ∧
          next = paid.emit (.payout self sender c) := by
  simp only [PayoutSplitter.payout, binds_ok, demand_ok, PayoutCall.legs, payLegs_cons_ok,
    payLegs_nil_ok, pure, Except.pure, Except.ok.injEq, decide_eq_true_eq, Bool.not_eq_true']
  constructor
  · rintro ⟨-, hrunning, -, haddresses, one, hone, two, htwo, rfl⟩
    exact ⟨hrunning, haddresses, two, ⟨one, hone, two, htwo, rfl⟩, rfl⟩
  · rintro ⟨hrunning, haddresses, paid, ⟨one, hone, two, htwo, rfl⟩, rfl⟩
    exact ⟨(), hrunning, (), haddresses, one, hone, two, htwo, rfl⟩

theorem PayoutSplitter.payoutV2_ok {c : SplitterCall} :
    p.payoutV2 other self sender c chain = .ok next ↔
      p.paused = false ∧ (c.worker ≠ 0 ∧ c.proofwork ≠ 0) ∧
        (0 < c.platformFee → c.platform ≠ 0) ∧
        ∃ paid, payLegs other self (c.legs sender) chain = .ok paid ∧
          next = paid.emit (.payoutV2 self sender c) := by
  have hplatform : ∀ u : Unit, (if 0 < c.platformFee then
      demand (decide (c.platform ≠ 0)) "bad_platform" else .ok ()) = .ok u ↔
        (0 < c.platformFee → c.platform ≠ 0) := by
    intro u
    split_ifs with hfee
    · simp [demand_ok, hfee]
    · simp [hfee]
  simp only [PayoutSplitter.payoutV2, binds_ok, demand_ok, hplatform, SplitterCall.legs,
    payLegs_cons_ok, payLegs_nil_ok, pure, Except.pure, Except.ok.injEq, decide_eq_true_eq,
    Bool.not_eq_true']
  constructor
  · rintro ⟨-, hrunning, -, haddresses, -, hfee, one, hone, two, htwo, three, hthree, rfl⟩
    exact ⟨hrunning, haddresses, hfee, three, ⟨one, hone, two, htwo, three, hthree, rfl⟩, rfl⟩
  · rintro ⟨hrunning, haddresses, hfee, paid, ⟨one, hone, two, htwo, three, hthree, rfl⟩, rfl⟩
    exact ⟨(), hrunning, (), haddresses, (), hfee, one, hone, two, htwo, three, hthree, rfl⟩

/-- A leg in a token of the repository. -/
theorem payLeg_token_ok {t : TransferFrom} {reason : String}
    (hm : chain.contracts t.token = some (.mockUSDC m)) :
    payLeg other self t reason chain = .ok next ↔
      (t.amount = 0 ∧ next = chain) ∨
        (0 < t.amount ∧ ∃ done, m.transferFrom self t.sender t.recipient t.amount = .ok done ∧
          next = chain.tokenDone t.token done) := by
  by_cases hamount : 0 < t.amount
  · simp only [payLeg, if_pos hamount, callTransferFrom, hm, binds_ok, demand_ok, pure,
      Except.pure, Except.ok.injEq]
    constructor
    · rintro ⟨called, ⟨done, hdone, rfl⟩, -, -, rfl⟩
      exact .inr ⟨hamount, done, hdone, rfl⟩
    · rintro (⟨hzero, -⟩ | ⟨-, done, hdone, rfl⟩)
      · omega
      · exact ⟨(true, _), ⟨done, hdone, rfl⟩, (), rfl, rfl⟩
  · simp only [payLeg, if_neg hamount, pure, Except.pure, Except.ok.injEq]
    constructor
    · intro hnext
      exact .inl ⟨by omega, hnext.symm⟩
    · rintro (⟨-, hnext⟩ | ⟨hpos, -⟩)
      · exact hnext.symm
      · exact absurd hpos hamount

/-- A leg in a token of other code. -/
theorem payLeg_other {t : TransferFrom} {reason : String}
    (hother : chain.contracts t.token = some .other)
    (h : payLeg other self t reason chain = .ok next) :
    next = chain ∨ ∃ done, other self t chain = .ok (done, next) := by
  by_cases hamount : 0 < t.amount
  · simp only [payLeg, if_pos hamount, callTransferFrom, hother, binds_ok, pure, Except.pure,
      Except.ok.injEq] at h
    obtain ⟨⟨done, c'⟩, hcalled, -, -, rfl⟩ := h
    exact .inr ⟨done, hcalled⟩
  · simp only [payLeg, if_neg hamount, pure, Except.pure, Except.ok.injEq] at h
    exact .inl h.symm

/-- A leg in what is no token: only one of nothing passes. -/
theorem payLeg_refused {t : TransferFrom} {reason : String}
    (hm : ∀ m, chain.contracts t.token ≠ some (.mockUSDC m))
    (hother : chain.contracts t.token ≠ some .other)
    (h : payLeg other self t reason chain = .ok next) : next = chain := by
  by_cases hamount : 0 < t.amount
  · simp only [payLeg, if_pos hamount, callTransferFrom, binds_ok] at h
    obtain ⟨called, hcalled, -⟩ := h
    cases hcode : chain.contracts t.token with
    | none => simp [hcode] at hcalled
    | some contract =>
        cases contract with
        | mockUSDC m => exact absurd hcode (hm m)
        | payoutSplitter p => simp [hcode] at hcalled
        | other => exact absurd hcode hother
  · simp only [payLeg, if_neg hamount, pure, Except.pure, Except.ok.injEq] at h
    exact h.symm

end Payouts

/-- A relation that every effect of the messages in `may` respects. -/
structure Respected (may : ChainMessage → Prop) (R : Chain → Chain → Prop) : Prop where
  refl : ∀ c, R c c
  trans : ∀ {a b c}, R a b → R b c → R a c
  keeps : ∀ {c c'}, R c c' → c.Keeps c'
  effect : ∀ {msg c c'}, may msg → Effect msg c c' → R c c'

section Respected

variable {may : ChainMessage → Prop} {R : Chain → Chain → Prop} {other : OtherCode}
  {msg : ChainMessage} {p : PayoutSplitter} {token : Nat}
  {legs : List (TransferFrom × String)} {chain next : Chain}

/-- Legs in a token of the repository: each is an effect. -/
theorem Respected.legs_token (hR : Respected may R) (hmay : may msg)
    (hlegs : ∀ leg ∈ legs, leg.1.token = token ∧ leg.1.sender = msg.sender)
    (hp : chain.contracts msg.target = some (.payoutSplitter p)) (running : p.paused = false)
    {m : MockUSDC} (hm : chain.contracts token = some (.mockUSDC m))
    (h : payLegs other msg.target legs chain = .ok next) : R chain next := by
  induction legs generalizing chain m with
  | nil =>
      rw [payLegs_nil_ok.mp h]
      exact hR.refl next
  | cons leg legs ih =>
      obtain ⟨htoken, hpayer⟩ := hlegs leg List.mem_cons_self
      have hrest := fun leg' hleg' => hlegs leg' (List.mem_cons_of_mem leg hleg')
      obtain ⟨mid, hleg, hlater⟩ := payLegs_cons_ok.mp h
      rw [← htoken] at hm
      rcases (payLeg_token_ok hm).mp hleg with ⟨-, rfl⟩ | ⟨-, done, hdone, rfl⟩
      · rw [htoken] at hm
        exact ih hrest hp hm hlater
      · have hne : msg.target ≠ leg.1.token := by
          intro heq
          rw [heq, hm] at hp
          simp at hp
        have hone := hR.effect hmay (.leg hp running hm hpayer hdone)
        have hp' := (Chain.tokenDone_other hne chain done).trans hp
        have hm' := Chain.tokenDone_self chain leg.1.token done
        rw [htoken] at hm' hp' hone hlater
        exact hR.trans hone (ih hrest hp' hm' hlater)

/-- Legs in a token of other code: each is what that code does. -/
theorem Respected.legs_other (hR : Respected may R)
    (hother : ∀ splitter t c done c', other splitter t c = .ok (done, c') → R c c')
    (hlegs : ∀ leg ∈ legs, leg.1.token = token)
    (ho : chain.contracts token = some .other)
    (h : payLegs other msg.target legs chain = .ok next) : R chain next := by
  induction legs generalizing chain with
  | nil =>
      rw [payLegs_nil_ok.mp h]
      exact hR.refl next
  | cons leg legs ih =>
      have htoken := hlegs leg List.mem_cons_self
      have hrest := fun leg' hleg' => hlegs leg' (List.mem_cons_of_mem leg hleg')
      obtain ⟨mid, hleg, hlater⟩ := payLegs_cons_ok.mp h
      have ho' := ho
      rw [← htoken] at ho'
      have hone : R chain mid := by
        rcases payLeg_other ho' hleg with rfl | ⟨done, hdone⟩
        · exact hR.refl _
        · exact hother _ _ _ _ _ hdone
      exact hR.trans hone (ih hrest ((hR.keeps hone).other ho) hlater)

/-- Legs of a payout, whatever the token is. -/
theorem Respected.payLegs (hR : Respected may R) (hmay : may msg)
    (hother : ∀ splitter t c done c', other splitter t c = .ok (done, c') → R c c')
    (hlegs : ∀ leg ∈ legs, leg.1.token = token ∧ leg.1.sender = msg.sender)
    (hp : chain.contracts msg.target = some (.payoutSplitter p)) (running : p.paused = false)
    (h : payLegs other msg.target legs chain = .ok next) : R chain next := by
  by_cases hm : ∃ m, chain.contracts token = some (.mockUSDC m)
  · obtain ⟨m, hm⟩ := hm
    exact hR.legs_token hmay hlegs hp running hm h
  · by_cases ho : chain.contracts token = some .other
    · exact hR.legs_other hother (fun leg hleg => (hlegs leg hleg).1) ho h
    · have hsame : next = chain := by
        clear hp
        induction legs with
        | nil => exact (payLegs_nil_ok.mp h).symm
        | cons leg legs ih =>
            obtain ⟨htoken, -⟩ := hlegs leg List.mem_cons_self
            obtain ⟨mid, hleg, hlater⟩ := payLegs_cons_ok.mp h
            have hmid : mid = chain := by
              apply payLeg_refused _ _ hleg
              · rw [htoken]
                exact fun m hcode => hm ⟨m, hcode⟩
              · rwa [htoken]
            subst hmid
            exact ih (fun leg' hleg' => hlegs leg' (List.mem_cons_of_mem leg hleg')) hlater
      rw [hsame]
      exact hR.refl chain

/-- **One message**: what it does is made of effects and of what other code does. -/
theorem Respected.execute (hR : Respected may R) (hmay : may msg)
    (external : chain.External msg.sender)
    (hother : ∀ splitter t c done c', other splitter t c = .ok (done, c') → R c c')
    (h : chain.execute other msg = .ok next) : R chain next := by
  cases hdeploys : msg.deploys with
  | some contract =>
      cases hcode : chain.contracts msg.target with
      | none =>
          simp only [Chain.execute, hdeploys, hcode, Except.ok.injEq] at h
          rw [← h]
          exact hR.effect hmay (.deployed hdeploys hcode)
      | some old => simp [Chain.execute, hdeploys, hcode] at h
  | none =>
      cases hcode : chain.contracts msg.target with
      | none =>
          simp only [Chain.execute, hdeploys, hcode, Except.ok.injEq] at h
          rw [h]
          exact hR.refl next
      | some contract =>
          cases contract with
          | other =>
              simp only [Chain.execute, hdeploys, hcode, Except.ok.injEq] at h
              rw [h]
              exact hR.refl next
          | mockUSDC m =>
              simp only [Chain.execute, hdeploys, hcode, binds_ok, pure, Except.pure,
                Except.ok.injEq] at h
              obtain ⟨done, hdone, rfl⟩ := h
              exact hR.effect hmay (.token external hcode hdone)
          | payoutSplitter p =>
              simp only [Chain.execute, hdeploys, hcode] at h
              cases hcall : msg.call with
              | setPaused v =>
                  simp only [hcall, PayoutSplitter.called, PayoutSplitter.setPaused, binds_ok,
                    demand_ok, pure, Except.pure, Except.ok.injEq, decide_eq_true_eq] at h
                  obtain ⟨-, ⟨-, howner, rfl⟩, rfl⟩ := h
                  exact hR.effect hmay (.paused hcode howner)
              | payout c =>
                  rw [hcall] at h
                  obtain ⟨running, -, paid, hpaid, rfl⟩ := PayoutSplitter.payout_ok.mp h
                  have hlegs : ∀ leg ∈ c.legs msg.sender,
                      leg.1.token = c.token ∧ leg.1.sender = msg.sender := by
                    simp [PayoutCall.legs]
                  exact hR.trans (hR.payLegs hmay hother hlegs hcode running hpaid)
                    (hR.effect hmay (.logged fun _ => rfl))
              | payoutV2 c =>
                  rw [hcall] at h
                  obtain ⟨running, -, -, paid, hpaid, rfl⟩ := PayoutSplitter.payoutV2_ok.mp h
                  have hlegs : ∀ leg ∈ c.legs msg.sender,
                      leg.1.token = c.token ∧ leg.1.sender = msg.sender := by
                    simp [SplitterCall.legs]
                  exact hR.trans (hR.payLegs hmay hother hlegs hcode running hpaid)
                    (hR.effect hmay (.logged fun _ => rfl))
              | _ => simp [hcall, PayoutSplitter.called] at h

/-- **The rule for runs**, with other code in the middle of payouts. -/
theorem Becomes.rel (hR : Respected may R) (h : Becomes may chain next) : R chain next := by
  induction h with
  | refl chain => exact hR.refl chain
  | call before external allowed within executed ih ihwithin =>
      exact hR.trans ih (hR.execute allowed external
        (fun splitter t c done c' hcalled => ihwithin splitter t c done c' hcalled) executed)

end Respected

/-! ## What holds in every run -/

/-- The tokens of a chain are sound and their events say what they hold. -/
structure Chain.Sound (c : Chain) : Prop where
  token : ∀ t m, c.contracts t = some (.mockUSDC m) → m.Sound ∧ m.Replays (c.moves t)
  silent : ∀ t, (∀ m, c.contracts t ≠ some (.mockUSDC m)) → c.moves t = []

namespace Chain.Sound

variable {c c' : Chain} {address : Nat} {contract : Contract} {msg : ChainMessage}

/-- A chain without contracts. -/
theorem empty : Chain.Sound {} := ⟨fun _ _ h => absurd h (by simp), fun _ _ => rfl⟩

theorem tokenDone (h : c.Sound) {m : MockUSDC} {done : MockUSDC × TokenEvent}
    (hm : c.contracts address = some (.mockUSDC m)) (hsound : done.1.Sound)
    (hreplays : done.1.Replays (MockUSDC.after (c.moves address) done.2)) :
    (c.tokenDone address done).Sound := by
  constructor
  · intro t m' hm'
    by_cases ht : t = address
    · subst ht
      rw [Chain.tokenDone_self, Option.some.injEq, Contract.mockUSDC.injEq] at hm'
      rw [← hm', Chain.tokenDone_moves_self]
      exact ⟨hsound, hreplays⟩
    · rw [Chain.tokenDone_other ht] at hm'
      rw [Chain.tokenDone_moves_other ht]
      exact h.token t m' hm'
  · intro t ht
    by_cases haddress : t = address
    · subst haddress
      exact absurd (Chain.tokenDone_self c t done) (ht done.1)
    · rw [Chain.tokenDone_moves_other haddress]
      apply h.silent
      intro m' hm'
      exact ht m' ((Chain.tokenDone_other haddress c done).trans hm')

/-- What is put is no token with a history. -/
theorem put (h : c.Sound) (hold : ∀ m, c.contracts address ≠ some (.mockUSDC m))
    (hnew : ∀ m, contract = .mockUSDC m → m.Sound ∧ m.Replays []) :
    (c.put address contract).Sound := by
  constructor
  · intro t m hm
    rw [Chain.put_moves]
    by_cases ht : t = address
    · subst ht
      rw [Chain.put_contracts, Function.update_self, Option.some.injEq] at hm
      rw [h.silent t hold]
      exact hnew m hm
    · rw [Chain.put_contracts, Function.update_of_ne ht] at hm
      exact h.token t m hm
  · intro t ht
    rw [Chain.put_moves]
    apply h.silent
    intro m hm
    by_cases haddress : t = address
    · subst haddress
      exact hold m hm
    · exact ht m ((congrFun (Chain.put_contracts c address contract) t).trans
        ((Function.update_of_ne haddress _ _).trans hm))

/-- **One effect** keeps a chain sound. -/
theorem effect (h : c.Sound) (heffect : Effect msg c c') : c'.Sound := by
  cases heffect with
  | @deployed contract deploys vacant =>
      apply h.put
      · intro m
        simp [vacant]
      · intro m hm
        have hnew : m = {} := by
          subst hm
          unfold ChainMessage.deploys at deploys
          split at deploys <;> simp_all
        rw [hnew]
        exact ⟨.new, .new⟩
  | token external at_target called =>
      obtain ⟨hsound, hreplays⟩ := h.token _ _ at_target
      exact h.tokenDone at_target (hsound.called external.1 called)
        (hreplays.called hsound external.1 called)
  | paused at_target owner =>
      apply h.put
      · intro m
        simp [at_target]
      · intro m hm
        exact absurd hm (by simp)
  | leg at_target running at_token payer called =>
      obtain ⟨hsound, hreplays⟩ := h.token _ _ at_token
      exact h.tokenDone at_token (hsound.transferFrom called) (hreplays.transferFrom hsound called)
  | @logged log plain =>
      constructor
      · intro t m hm
        rw [Chain.emit_moves, plain t, Option.toList_none, List.append_nil]
        exact h.token t m hm
      · intro t ht
        rw [Chain.emit_moves, plain t, Option.toList_none, List.append_nil]
        exact h.silent t ht

/-- **Every run** keeps a chain sound. -/
theorem becomes {may : ChainMessage → Prop} (h : c.Sound) (hrun : Becomes may c c') : c'.Sound := by
  have hrespected : Respected may fun c c' => c.Keeps c' ∧ (c.Sound → c'.Sound) :=
    { refl := fun c => ⟨.refl c, id⟩
      trans := fun hab hbc => ⟨hab.1.trans hbc.1, hbc.2 ∘ hab.2⟩
      keeps := And.left
      effect := fun _ he => ⟨he.keeps, fun hc => hc.effect he⟩ }
  exact (hrun.rel hrespected).2 h

end Chain.Sound

instance (chain : Chain) (sender : Nat) : Decidable (chain.External sender) :=
  match h : chain.contracts sender with
  | none => decidable_of_iff (sender ≠ 0) (by simp [Chain.External, h])
  | some .other => decidable_of_iff (sender ≠ 0) (by simp [Chain.External, h])
  | some (.mockUSDC _) => .isFalse fun hext => absurd (hext.2 _ h) (by simp)
  | some (.payoutSplitter _) => .isFalse fun hext => absurd (hext.2 _ h) (by simp)

/-- Code without the function. -/
def noCode : OtherCode := fun _ _ _ => .error .bare

/-- A chain after a message; one that reverts leaves it as it is. -/
def Chain.after (chain : Chain) (msg : ChainMessage) : Chain :=
  match chain.execute noCode msg with
  | .ok next => next
  | .error _ => chain

/-- The senders of messages, one after the other, are external. -/
def Chain.Admits (chain : Chain) : List ChainMessage → Prop
  | [] => True
  | msg :: msgs => chain.External msg.sender ∧ (chain.after msg).Admits msgs

instance Chain.decidableAdmits (chain : Chain) :
    (msgs : List ChainMessage) → Decidable (chain.Admits msgs)
  | [] => .isTrue trivial
  | msg :: msgs => @instDecidableAnd _ _ _ ((chain.after msg).decidableAdmits msgs)

/-- Messages one after the other are a run. -/
theorem Becomes.messages {may : ChainMessage → Prop} {start chain : Chain}
    {msgs : List ChainMessage} (h : Becomes may start chain) (hmay : ∀ msg ∈ msgs, may msg)
    (hadmits : chain.Admits msgs) : Becomes may start (msgs.foldl Chain.after chain) := by
  induction msgs generalizing chain with
  | nil => exact h
  | cons msg msgs ih =>
      obtain ⟨hext, hrest⟩ := hadmits
      refine ih ?_ (fun m hm => hmay m (List.mem_cons_of_mem msg hm)) hrest
      cases hexec : chain.execute noCode msg with
      | error e =>
          have hsame : chain.after msg = chain := by simp [Chain.after, hexec]
          rwa [hsame]
      | ok next =>
          have hnext : chain.after msg = next := by simp [Chain.after, hexec]
          rw [hnext]
          refine .call h hext (hmay msg List.mem_cons_self) ?_ hexec
          intro splitter t c done c' hcalled
          simp [noCode] at hcalled

/-- **The accounts of a token.**  In every run from an empty chain, with whatever code is
called in between, the balances of a token amount to its supply, which is a `uint256`; no
transfer fails in the arithmetic; and the balances and the supply are those of the moves
that the `Transfer` events say. -/
theorem tokens_accounted {may : ChainMessage → Prop} {chain : Chain} {t : Nat} {m : MockUSDC}
    (hrun : Becomes may {} chain) (hm : chain.contracts t = some (.mockUSDC m)) :
    (Total m.balanceOf m.totalSupply ∧ m.totalSupply < 2 ^ 256) ∧
      (∀ msgSender sender recipient amount,
        m.transfer sender recipient amount ≠ .error .panic ∧
          m.transferFrom msgSender sender recipient amount ≠ .error .panic) ∧
      (∀ a, a ≠ 0 →
        m.balanceOf a + sent (chain.moves t) a = received (chain.moves t) a) ∧
      m.balanceOf 0 = received (chain.moves t) 0 ∧ m.totalSupply = sent (chain.moves t) 0 := by
  obtain ⟨hsound, hreplays⟩ := (Chain.Sound.empty.becomes hrun).token t m hm
  refine ⟨⟨hsound.total, hsound.bounded⟩, ?_, hreplays.balance, hreplays.nobody, hreplays.supply⟩
  intro msgSender sender recipient amount
  exact ⟨hsound.transferInternal_no_panic sender recipient amount,
    hsound.transferFrom_no_panic msgSender sender recipient amount⟩

/-- A token at 100, a splitter at 200, and a payer at 2 that has approved 600 of its 1000. -/
def approvedMessages : List ChainMessage :=
  [⟨1, 100, .deployToken⟩, ⟨1, 200, .deploySplitter⟩, ⟨5, 100, .mint 2 1000⟩,
    ⟨2, 100, .approve 200 600⟩]

def approvedChain : Chain := approvedMessages.foldl Chain.after {}

def approvedToken : MockUSDC where
  totalSupply := 1000
  balanceOf := Function.update (fun _ => 0) 2 1000
  allowance := Function.update (fun _ => fun _ => 0) 2 (Function.update (fun _ => 0) 200 600)

theorem approvedChain_run : Becomes (fun _ => True) {} approvedChain :=
  Becomes.messages (.refl {}) (fun _ _ => trivial) (by decide)

theorem tokens_accounted_approved :
    Total approvedToken.balanceOf 1000 ∧ sent (approvedChain.moves 100) 0 = 1000 := by
  have h := tokens_accounted approvedChain_run
    (show approvedChain.contracts 100 = some (.mockUSDC approvedToken) from rfl)
  exact ⟨h.1.1, h.2.2.2.2.symm⟩

end OpenUnion
