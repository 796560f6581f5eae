import OpenUnion.Safety.SplitterPayouts

/-!
# Who may spend

* `approved_tokens_stay`: whatever others do, nobody but the holder spends what the holder
  has approved for splitters.
* `paused_splitter_idles`: while its owner is silent a paused splitter stays paused and
  spends nothing.
-/

namespace OpenUnion

open Holdings

/-! ## Who may spend -/

section Holders

variable {may : ChainMessage → Prop} {c c' : Chain} {msg : ChainMessage} {a t : Nat}
  {m : MockUSDC}

/-- All that `a` has approved is for splitters. -/
def ForSplitters (c : Chain) (m : MockUSDC) (a : Nat) : Prop :=
  ∀ s, 0 < m.allowance a s → ∃ p, c.contracts s = some (.payoutSplitter p)

/-- A token lets others take nothing from `a`. -/
def Untouched (t a : Nat) (c c' : Chain) : Prop :=
  ∀ m, c.contracts t = some (.mockUSDC m) → ForSplitters c m a →
    ∃ m', c'.contracts t = some (.mockUSDC m') ∧ m.balanceOf a ≤ m'.balanceOf a ∧
      m'.allowance a = m.allowance a

theorem Untouched.of_same (h : ∀ m, c.contracts t = some (.mockUSDC m) →
    c'.contracts t = some (.mockUSDC m)) : Untouched t a c c' :=
  fun m hm _ => ⟨m, h m hm, le_refl _, rfl⟩

theorem Untouched.trans {b : Chain} (hkeeps : c.Keeps b) (h : Untouched t a c b)
    (h' : Untouched t a b c') : Untouched t a c c' := by
  intro m hm happroved
  obtain ⟨m', hm', hbalance, hallowance⟩ := h m hm happroved
  have happroved' : ForSplitters b m' a := by
    intro s hs
    rw [hallowance] at hs
    obtain ⟨p, hp⟩ := happroved s hs
    obtain ⟨p', hp', -⟩ := hkeeps.splitter hp
    exact ⟨p', hp'⟩
  obtain ⟨m'', hm'', hbalance', hallowance'⟩ := h' m' hm' happroved'
  exact ⟨m'', hm'', hbalance.trans hbalance', hallowance'.trans hallowance⟩

/-- What `a` does not send it does not lose. -/
theorem move_keeps {f : Nat → Nat} {sender recipient k : Nat} (hk : k ≤ f sender)
    (h : a = sender → k = 0) : f a ≤ move f sender recipient k a := by
  have hone := move_balance hk recipient a
  split_ifs at hone with hsender hrecipient
  · have := h hsender
    omega
  · have := h hsender
    omega
  · omega
  · omega

namespace MockUSDC

variable {done : MockUSDC × TokenEvent} {spender sender recipient amount msgSender : Nat}

/-- A transfer that takes nothing from `a`, by the balance or by the allowance. -/
theorem transferFrom_others (hsender : a = sender → amount = 0)
    (hdone : m.transferFrom spender sender recipient amount = .ok done) :
    m.balanceOf a ≤ done.1.balanceOf a ∧ done.1.allowance a = m.allowance a := by
  obtain ⟨hallowed, hmoved⟩ := transferFrom_ok.mp hdone
  obtain ⟨hbalance, -, rfl⟩ := transferInternal_ok.mp hmoved
  refine ⟨move_keeps hbalance hsender, ?_⟩
  funext s
  by_cases hs : a = sender ∧ s = spender
  · obtain ⟨rfl, rfl⟩ := hs
    rw [hsender rfl, Nat.sub_zero, setBalances_allowance, setAllowance_self]
  · rw [setBalances_allowance, setAllowance_other (not_and_or.mp hs)]

/-- A function called by another account, which `a` has approved nothing. -/
theorem called_others (hne : msgSender ≠ a) (hallowance : m.allowance a msgSender = 0)
    {call : ContractCall} (hdone : m.called msgSender call = .ok done) :
    m.balanceOf a ≤ done.1.balanceOf a ∧ done.1.allowance a = m.allowance a := by
  cases call with
  | mint recipient amount =>
      obtain ⟨-, -, rfl⟩ := mint_ok.mp hdone
      refine ⟨?_, rfl⟩
      by_cases hr : a = recipient
      · subst hr
        simp
      · simp [hr]
  | approve spender amount =>
      rw [approve_ok.mp hdone]
      exact ⟨le_refl _, funext fun s => setAllowance_other (.inl hne.symm) m amount⟩
  | transfer recipient amount =>
      obtain ⟨hbalance, -, rfl⟩ := transferInternal_ok.mp hdone
      exact ⟨move_keeps hbalance fun h => absurd h.symm hne, rfl⟩
  | transferFrom sender recipient amount =>
      apply transferFrom_others _ hdone
      intro hsender
      obtain ⟨hallowed, -⟩ := transferFrom_ok.mp hdone
      rw [← hsender, hallowance] at hallowed
      omega
  | deployToken | deploySplitter | deployOther | setPaused | payout | payoutV2 =>
      exact absurd hdone (by simp [MockUSDC.called])

end MockUSDC

/-- **One effect** of a message that `a` does not send. -/
theorem Effect.untouched (h : Effect msg c c') (hne : msg.sender ≠ a) : Untouched t a c c' := by
  cases h with
  | deployed deploys vacant =>
      apply Untouched.of_same
      intro m hm
      have ht : t ≠ msg.target := by
        intro heq
        rw [heq, vacant] at hm
        simp at hm
      simpa [ht] using hm
  | @token mt done external at_target called =>
      by_cases ht : t = msg.target
      · subst ht
        intro m hm happroved
        rw [at_target, Option.some.injEq, Contract.mockUSDC.injEq] at hm
        subst hm
        have hnone : mt.allowance a msg.sender = 0 := by
          by_contra hpos
          obtain ⟨p, hp⟩ := happroved msg.sender (Nat.pos_of_ne_zero hpos)
          exact absurd (external.2 _ hp) (by simp)
        obtain ⟨hbalance, hallowance⟩ := MockUSDC.called_others hne hnone called
        exact ⟨done.1, Chain.tokenDone_self _ _ _, hbalance, hallowance⟩
      · apply Untouched.of_same
        intro m hm
        rw [Chain.tokenDone_other ht]
        exact hm
  | paused at_target owner =>
      apply Untouched.of_same
      intro m hm
      have ht : t ≠ msg.target := by
        intro heq
        rw [heq, at_target] at hm
        simp at hm
      simpa [ht] using hm
  | @leg p mt tr done at_target running at_token payer called =>
      by_cases ht : t = tr.token
      · subst ht
        intro m hm happroved
        rw [at_token, Option.some.injEq, Contract.mockUSDC.injEq] at hm
        subst hm
        have hsender : a = tr.sender → tr.amount = 0 := by
          intro heq
          exact absurd (payer.symm.trans heq.symm) hne
        obtain ⟨hbalance, hallowance⟩ := MockUSDC.transferFrom_others hsender called
        exact ⟨done.1, Chain.tokenDone_self _ _ _, hbalance, hallowance⟩
      · apply Untouched.of_same
        intro m hm
        rw [Chain.tokenDone_other ht]
        exact hm
  | logged plain => exact Untouched.of_same fun m hm => hm

/-- **Nobody but the holder spends what it has approved for splitters.**  Whatever messages
others send, and whatever other code does in the middle of payouts, the balance of a holder
that sends none does not fall and its allowances stay. -/
theorem approved_tokens_stay (hrun : Becomes may c c') (hsilent : ∀ msg, may msg → msg.sender ≠ a)
    (hm : c.contracts t = some (.mockUSDC m)) (happroved : ForSplitters c m a) :
    ∃ m', c'.contracts t = some (.mockUSDC m') ∧ m.balanceOf a ≤ m'.balanceOf a ∧
      m'.allowance a = m.allowance a := by
  have hrespected : Respected may fun c c' => c.Keeps c' ∧ Untouched t a c c' :=
    { refl := fun c => ⟨.refl c, .of_same fun _ h => h⟩
      trans := fun hab hbc => ⟨hab.1.trans hbc.1, hab.2.trans hab.1 hbc.2⟩
      keeps := And.left
      effect := fun hmay he => ⟨he.keeps, he.untouched (hsilent _ hmay)⟩ }
  exact (hrun.rel hrespected).2 m hm happroved

/-- Code at 300 that mints when a splitter calls it. -/
def mintingCode : OtherCode := fun _ _ chain =>
  if chain.External 300 then do
    let next ← chain.execute noCode ⟨300, 100, .mint 2 5⟩
    return (true, next)
  else .error .bare

/-- Others deploy that code and pay through it. -/
def othersMessages : List ChainMessage :=
  [⟨5, 300, .deployOther⟩, ⟨300, 100, .mint 2 5⟩, ⟨5, 200, .payout ⟨300, 7, 9, 1, 0⟩⟩]

theorem mintingCode_within (splitter : Nat) (tr : TransferFrom) (c : Chain) (done : Bool)
    (c' : Chain) (h : mintingCode splitter tr c = .ok (done, c')) :
    Becomes (fun msg => msg ∈ othersMessages) c c' := by
  unfold mintingCode at h
  split_ifs at h with hext
  · simp only [binds_ok, pure, Except.pure, Except.ok.injEq, Prod.mk.injEq] at h
    obtain ⟨next, hexec, -, rfl⟩ := h
    refine .call (.refl c) hext (by decide) ?_ hexec
    intro splitter t c done c' hcalled
    simp [noCode] at hcalled

theorem approved_tokens_stay_minting : ∃ c' m',
    Becomes (fun msg => msg ∈ othersMessages) approvedChain c' ∧
      c'.contracts 100 = some (.mockUSDC m') ∧ 1000 ≤ m'.balanceOf 2 ∧
      m'.allowance 2 = approvedToken.allowance 2 := by
  have hdeployed : Becomes (fun msg => msg ∈ othersMessages) approvedChain
      (approvedChain.put 300 .other) :=
    .call (.refl _) (by decide : approvedChain.External 5) (by decide)
      (fun _ _ _ _ _ h => mintingCode_within _ _ _ _ _ h)
      (rfl : approvedChain.execute mintingCode ⟨5, 300, .deployOther⟩ = .ok _)
  have hrun := Becomes.call hdeployed
    (by decide : (approvedChain.put 300 .other).External 5) (by decide)
    (fun _ _ _ _ _ h => mintingCode_within _ _ _ _ _ h)
    (rfl : (approvedChain.put 300 .other).execute mintingCode
      ⟨5, 200, .payout ⟨300, 7, 9, 1, 0⟩⟩ = .ok _)
  have hm : approvedChain.contracts 100 = some (.mockUSDC approvedToken) := rfl
  have happroved : ForSplitters approvedChain approvedToken 2 := by
    intro s hs
    by_cases h200 : s = 200
    · subst h200
      exact ⟨{ owner := 1 }, rfl⟩
    · simp [approvedToken, h200] at hs
  obtain ⟨m', hm', hstay⟩ := approved_tokens_stay hrun
    (by simp [othersMessages] : ∀ msg, msg ∈ othersMessages → msg.sender ≠ 2) hm happroved
  exact ⟨_, m', hrun, hm', hstay⟩

/-- A holder approves nothing for a splitter. -/
def Quiet (may : ChainMessage → Prop) (splitter holder : Nat) : Prop :=
  ∀ msg, may msg → msg.sender = holder → ∀ amount, msg.call ≠ .approve splitter amount

/-- A paused splitter stays as it is, and every token lets it spend what it could. -/
def Idles (may : ChainMessage → Prop) (splitter : Nat) (p : PayoutSplitter) (c c' : Chain) : Prop :=
  c.contracts splitter = some (.payoutSplitter p) →
    c'.contracts splitter = some (.payoutSplitter p) ∧
      ∀ holder, Quiet may splitter holder → ∀ t m, c.contracts t = some (.mockUSDC m) →
        ∃ m', c'.contracts t = some (.mockUSDC m') ∧
          m'.allowance holder splitter = m.allowance holder splitter

section Idles

variable {splitter : Nat} {p : PayoutSplitter}

theorem Idles.refl (c : Chain) : Idles may splitter p c c :=
  fun hp => ⟨hp, fun _ _ _ m hm => ⟨m, hm, rfl⟩⟩

theorem Idles.trans {b : Chain} (h : Idles may splitter p c b) (h' : Idles may splitter p b c') :
    Idles may splitter p c c' := by
  intro hp
  obtain ⟨hp', htokens⟩ := h hp
  obtain ⟨hp'', htokens'⟩ := h' hp'
  refine ⟨hp'', ?_⟩
  intro holder hquiet t m hm
  obtain ⟨m', hm', hallowance⟩ := htokens holder hquiet t m hm
  obtain ⟨m'', hm'', hallowance'⟩ := htokens' holder hquiet t m' hm'
  exact ⟨m'', hm'', hallowance'.trans hallowance⟩

/-- A new storage of a token with the same allowances for the splitter. -/
theorem Idles.tokenDone {address : Nat} {mt : MockUSDC} {done : MockUSDC × TokenEvent}
    (hmt : c.contracts address = some (.mockUSDC mt))
    (hallowance : c.contracts splitter = some (.payoutSplitter p) → ∀ holder,
      Quiet may splitter holder →
        done.1.allowance holder splitter = mt.allowance holder splitter) :
    Idles may splitter p c (c.tokenDone address done) := by
  intro hp
  have hne : splitter ≠ address := by
    intro heq
    rw [heq, hmt] at hp
    simp at hp
  refine ⟨(Chain.tokenDone_other hne c done).trans hp, ?_⟩
  intro holder hquiet t m hm
  by_cases ht : t = address
  · subst ht
    rw [hmt, Option.some.injEq, Contract.mockUSDC.injEq] at hm
    subst hm
    exact ⟨done.1, Chain.tokenDone_self c t done, hallowance hp holder hquiet⟩
  · exact ⟨m, (Chain.tokenDone_other ht c done).trans hm, rfl⟩

/-- What is put where there is neither the splitter nor a token. -/
theorem Idles.put {address : Nat} {contract : Contract} (hsplitter : address ≠ splitter)
    (htoken : ∀ m, c.contracts address ≠ some (.mockUSDC m)) :
    Idles may splitter p c (c.put address contract) := by
  intro hp
  refine ⟨by simpa [hsplitter.symm] using hp, ?_⟩
  intro holder hquiet t m hm
  have ht : t ≠ address := by
    intro heq
    rw [heq] at hm
    exact htoken m hm
  exact ⟨m, by simpa [ht] using hm, rfl⟩

/-- A function called by an account that is not the splitter changes an allowance for it only
by an approval. -/
theorem MockUSDC.called_allowance {holder msgSender : Nat} {call : ContractCall}
    {done : MockUSDC × TokenEvent} (hne : msgSender ≠ splitter)
    (happrove : msgSender = holder → ∀ amount, call ≠ .approve splitter amount)
    (hdone : m.called msgSender call = .ok done) :
    done.1.allowance holder splitter = m.allowance holder splitter := by
  cases call with
  | mint recipient amount =>
      obtain ⟨-, -, rfl⟩ := mint_ok.mp hdone
      rfl
  | approve spender amount =>
      rw [approve_ok.mp hdone]
      apply setAllowance_other
      by_cases hholder : holder = msgSender
      · right
        intro hspender
        exact happrove hholder.symm amount (by rw [hspender])
      · exact .inl hholder
  | transfer recipient amount =>
      obtain ⟨-, -, rfl⟩ := transferInternal_ok.mp hdone
      rfl
  | transferFrom sender recipient amount =>
      obtain ⟨-, hmoved⟩ := transferFrom_ok.mp hdone
      obtain ⟨-, -, rfl⟩ := transferInternal_ok.mp hmoved
      exact setAllowance_other (.inr hne.symm) m _
  | deployToken | deploySplitter | deployOther | setPaused | payout | payoutV2 =>
      exact absurd hdone (by simp [MockUSDC.called])

/-- **One effect** of a message that is not the owner's. -/
theorem Effect.idles (h : Effect msg c c') (hmay : may msg) (hpaused : p.paused = true)
    (howner : msg.sender ≠ p.owner) : Idles may splitter p c c' := by
  cases h with
  | deployed deploys vacant =>
      intro hp
      have hne : msg.target ≠ splitter := by
        intro heq
        rw [heq, hp] at vacant
        simp at vacant
      exact Idles.put hne (fun m => by simp [vacant]) hp
  | token external at_target called =>
      apply Idles.tokenDone at_target
      intro hp holder hquiet
      have hne : msg.sender ≠ splitter := by
        intro heq
        have := external.2 _ (heq ▸ hp)
        simp at this
      exact MockUSDC.called_allowance hne (hquiet msg hmay) called
  | paused at_target owner =>
      intro hp
      have hne : msg.target ≠ splitter := by
        intro heq
        rw [heq, hp, Option.some.injEq, Contract.payoutSplitter.injEq] at at_target
        exact howner (owner.trans (congrArg PayoutSplitter.owner at_target.symm))
      exact Idles.put hne (fun m => by simp [at_target]) hp
  | leg at_target running at_token payer called =>
      apply Idles.tokenDone at_token
      intro hp holder hquiet
      have hne : splitter ≠ msg.target := by
        intro heq
        rw [← heq, hp, Option.some.injEq, Contract.payoutSplitter.injEq] at at_target
        rw [← at_target, hpaused] at running
        simp at running
      obtain ⟨-, hmoved⟩ := MockUSDC.transferFrom_ok.mp called
      obtain ⟨-, -, rfl⟩ := MockUSDC.transferInternal_ok.mp hmoved
      exact MockUSDC.setAllowance_other (.inr hne) _ _
  | logged plain => exact Idles.refl c

/-- **A paused splitter spends nothing.**  While its owner is silent it stays paused under
the same owner, and what a holder has approved for it on any token changes only by approvals
of the holder. -/
theorem paused_splitter_idles (hrun : Becomes may c c')
    (hp : c.contracts splitter = some (.payoutSplitter p)) (hpaused : p.paused = true)
    (hsilent : ∀ msg, may msg → msg.sender ≠ p.owner) :
    c'.contracts splitter = some (.payoutSplitter p) ∧
      ∀ holder, Quiet may splitter holder → ∀ t m, c.contracts t = some (.mockUSDC m) →
        ∃ m', c'.contracts t = some (.mockUSDC m') ∧
          m'.allowance holder splitter = m.allowance holder splitter := by
  have hrespected : Respected may fun c c' => c.Keeps c' ∧ Idles may splitter p c c' :=
    { refl := fun c => ⟨.refl c, .refl c⟩
      trans := fun hab hbc => ⟨hab.1.trans hbc.1, hab.2.trans hbc.2⟩
      keeps := And.left
      effect := fun hmay he => ⟨he.keeps, he.idles hmay hpaused (hsilent _ hmay)⟩ }
  exact (hrun.rel hrespected).2 hp

end Idles

/-- The owner pauses; then others mint and the payer tries to pay. -/
def pausedChain : Chain := approvedChain.after ⟨1, 200, .setPaused true⟩

def idleMessages : List ChainMessage := [⟨5, 100, .mint 2 5⟩, ⟨2, 200, .payoutV2 approvedCall⟩]

theorem paused_splitter_idles_minting :
    (idleMessages.foldl Chain.after pausedChain).contracts 200 =
        some (.payoutSplitter { paused := true, owner := 1 }) ∧
      ∃ m', (idleMessages.foldl Chain.after pausedChain).contracts 100 = some (.mockUSDC m') ∧
        m'.allowance 2 200 = 600 := by
  have hrun : Becomes (fun msg => msg ∈ idleMessages) pausedChain
      (idleMessages.foldl Chain.after pausedChain) :=
    Becomes.messages (.refl _) (fun msg hmsg => hmsg) (by decide)
  have hp : pausedChain.contracts 200 =
      some (.payoutSplitter { paused := true, owner := 1 }) := rfl
  obtain ⟨hstill, htokens⟩ := paused_splitter_idles hrun hp rfl (by simp [idleMessages])
  have hquiet : Quiet (fun msg => msg ∈ idleMessages) 200 2 := by
    simp [Quiet, idleMessages]
  exact ⟨hstill, htokens 2 hquiet 100 approvedToken rfl⟩

end Holders

end OpenUnion
