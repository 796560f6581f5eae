import OpenUnion.Safety.Contracts
import OpenUnion.Safety.SplitterCalls

/-!
# Payouts on the chain

The legs of a payout are transfers out of one allowance, one after the other.

* `payLegs_token_ok`: they succeed if the allowance covers their sum and the balance each of
  them in its turn, and then all are paid.
* `payoutV2_all_or_nothing`: a payout the worker encodes succeeds exactly if the splitter
  runs, its addresses are set and the payer has approved and holds what it takes; then every
  leg is paid and nothing else has changed.
-/

namespace OpenUnion

open Holdings

/-! ## A payout -/

/-- The move of a transfer. -/
def TransferFrom.move (t : TransferFrom) : Move Nat := ⟨t.sender, t.recipient, t.amount⟩

/-- The event of a transfer. -/
def TransferFrom.log (t : TransferFrom) : ChainLog :=
  .token t.token (.transfer t.sender t.recipient t.amount)

/-- The legs that carry money. -/
def positiveLegs (legs : List (TransferFrom × String)) : List TransferFrom :=
  (legs.map Prod.fst).filter fun t => decide (0 < t.amount)

theorem SplitterCall.positiveLegs_legs (c : SplitterCall) (payer : Nat) :
    positiveLegs (c.legs payer) = c.transfers payer := rfl

/-- The storage of a token after `payer` has spent `total` of what `spender` may spend. -/
def MockUSDC.spent (m : MockUSDC) (payer spender total : Nat) (balances : Nat → Nat) : MockUSDC :=
  (m.setAllowance payer spender (m.allowance payer spender - total)).setBalances balances

/-- A chain after transfers in a token whose storage is then `m`. -/
def Chain.transferred (chain : Chain) (token : Nat) (m : MockUSDC) (ts : List TransferFrom) :
    Chain where
  contracts := Function.update chain.contracts token (some (.mockUSDC m))
  logs := chain.logs ++ ts.map TransferFrom.log

section Payout

variable {m : MockUSDC} {chain next : Chain} {other : OtherCode} {self payer token : Nat}
  {legs : List (TransferFrom × String)} {balances : Nat → Nat}

theorem MockUSDC.spent_zero (m : MockUSDC) (payer spender : Nat) :
    m.spent payer spender 0 m.balanceOf = m := by
  cases m
  simp [spent, setAllowance, setBalances]

theorem MockUSDC.spent_spent (m : MockUSDC) (payer spender a b : Nat) (f g : Nat → Nat) :
    (m.spent payer spender a f).spent payer spender b g = m.spent payer spender (a + b) g := by
  simp [spent, setAllowance, setBalances, Nat.sub_sub]

theorem MockUSDC.Sound.transferFrom_ok (h : m.Sound) {spender sender recipient amount : Nat}
    {done : MockUSDC × TokenEvent} :
    m.transferFrom spender sender recipient amount = .ok done ↔
      amount ≤ m.allowance sender spender ∧ amount ≤ m.balanceOf sender ∧
        done = (m.spent sender spender amount (move m.balanceOf sender recipient amount),
          .transfer sender recipient amount) := by
  rw [MockUSDC.transferFrom_ok, (h.spend sender spender amount).transferInternal_ok]
  rfl

/-- What a leg leaves of a sound token. -/
def MockUSDC.afterLeg (m : MockUSDC) (spender : Nat) (t : TransferFrom) : MockUSDC :=
  m.spent t.sender spender t.amount (move m.balanceOf t.sender t.recipient t.amount)

/-- The first of some legs, one that carries money. -/
theorem payLegs_positive_ok {t : TransferFrom} {reason : String} (hamount : 0 < t.amount)
    (hm : chain.contracts t.token = some (.mockUSDC m)) (hsound : m.Sound) :
    payLegs other self ((t, reason) :: legs) chain = .ok next ↔
      (t.amount ≤ m.allowance t.sender self ∧ t.amount ≤ m.balanceOf t.sender) ∧
        payLegs other self legs (chain.tokenDone t.token
          (m.afterLeg self t, .transfer t.sender t.recipient t.amount)) = .ok next := by
  simp only [payLegs_cons_ok, payLeg_token_ok hm, hsound.transferFrom_ok]
  constructor
  · rintro ⟨mid, ⟨hzero, -⟩ | ⟨-, done, ⟨hallowed, hbalance, rfl⟩, rfl⟩, hlater⟩
    · omega
    · exact ⟨⟨hallowed, hbalance⟩, hlater⟩
  · rintro ⟨⟨hallowed, hbalance⟩, hlater⟩
    exact ⟨_, .inr ⟨hamount, _, ⟨hallowed, hbalance, rfl⟩, rfl⟩, hlater⟩

/-- The first transfer and the later ones. -/
theorem Chain.tokenDone_transferred (chain : Chain) (t : TransferFrom) (m m' : MockUSDC)
    (ts : List TransferFrom) :
    (chain.tokenDone t.token (m, .transfer t.sender t.recipient t.amount)).transferred t.token m' ts
      = chain.transferred t.token m' (t :: ts) := by
  simp [transferred, tokenDone, emit, put, TransferFrom.log]

/-- **Legs are all paid or none is**: they succeed if the allowance covers their sum and the
balance each of them in its turn. -/
theorem payLegs_token_ok (hlegs : ∀ leg ∈ legs, leg.1.token = token ∧ leg.1.sender = payer)
    (hm : chain.contracts token = some (.mockUSDC m)) (hsound : m.Sound) :
    payLegs other self legs chain = .ok next ↔
      ((positiveLegs legs).map TransferFrom.amount).sum ≤ m.allowance payer self ∧
        ∃ balances, moveAll m.balanceOf ((positiveLegs legs).map TransferFrom.move) =
            some balances ∧
          next = chain.transferred token
            (m.spent payer self ((positiveLegs legs).map TransferFrom.amount).sum balances)
            (positiveLegs legs) := by
  induction legs generalizing chain m with
  | nil =>
      have hsame : chain.transferred token (m.spent payer self 0 m.balanceOf) [] = chain := by
        rw [MockUSDC.spent_zero, Chain.transferred, ← hm, Function.update_eq_self]
        simp
      rw [payLegs_nil_ok]
      simp [positiveLegs, moveAll, hsame, eq_comm]
  | cons leg legs ih =>
      obtain ⟨t, reason⟩ := leg
      have htoken : t.token = token := (hlegs _ List.mem_cons_self).1
      have hpayer : t.sender = payer := (hlegs _ List.mem_cons_self).2
      subst htoken hpayer
      have hrest := fun leg' hleg' => hlegs leg' (List.mem_cons_of_mem _ hleg')
      by_cases hamount : 0 < t.amount
      · have hpositive : positiveLegs ((t, reason) :: legs) = t :: positiveLegs legs := by
          simp [positiveLegs, hamount]
        rw [payLegs_positive_ok hamount hm hsound, hpositive, List.map_cons, List.map_cons,
          List.sum_cons, moveAll]
        have hone : ∀ h : t.amount ≤ m.allowance t.sender self ∧ t.amount ≤ m.balanceOf t.sender,
            (m.afterLeg self t).Sound := fun h =>
          hsound.transferFrom (hsound.transferFrom_ok.mpr ⟨h.1, h.2, rfl⟩)
        have hleft : (m.afterLeg self t).allowance t.sender self =
            m.allowance t.sender self - t.amount := by
          simp [MockUSDC.afterLeg, MockUSDC.spent, MockUSDC.setAllowance_self]
        constructor
        · rintro ⟨hcovered, hlater⟩
          obtain ⟨hsum, balances, hmoved, hnext⟩ :=
            (ih hrest (Chain.tokenDone_self _ _ _) (hone hcovered)).mp hlater
          rw [hleft] at hsum
          have hbalance : t.move.amount ≤ m.balanceOf t.move.sender := hcovered.2
          refine ⟨by omega, balances, ?_, ?_⟩
          · rw [if_pos hbalance]
            exact hmoved
          · rw [hnext, Chain.tokenDone_transferred, MockUSDC.afterLeg, MockUSDC.spent_spent]
        · rintro ⟨hsum, balances, hmoved, hnext⟩
          split_ifs at hmoved with hbalance
          have hcovered : t.amount ≤ m.allowance t.sender self ∧
              t.amount ≤ m.balanceOf t.sender := ⟨by omega, hbalance⟩
          refine ⟨hcovered, (ih hrest (Chain.tokenDone_self _ _ _) (hone hcovered)).mpr ?_⟩
          refine ⟨by rw [hleft]; omega, balances, hmoved, ?_⟩
          rw [hnext, Chain.tokenDone_transferred, MockUSDC.afterLeg, MockUSDC.spent_spent]
      · have hpositive : positiveLegs ((t, reason) :: legs) = positiveLegs legs := by
          simp [positiveLegs, hamount]
        rw [hpositive, ← ih hrest hm hsound]
        have hzero : t.amount = 0 := by omega
        rw [payLegs_cons_ok]
        simp only [payLeg_token_ok hm]
        constructor
        · rintro ⟨mid, ⟨-, rfl⟩ | ⟨hpos, -⟩, hlater⟩
          · exact hlater
          · exact absurd hpos hamount
        · intro hlater
          exact ⟨chain, .inl ⟨hzero, rfl⟩, hlater⟩

end Payout

/-- What a payout of `c` by `payer` through the splitter at `splitter` has done to a chain, whose
token was `m` and is `m'`. -/
structure Paid (chain next : Chain) (splitter payer : Nat) (c : SplitterCall) (m m' : MockUSDC) :
    Prop where
  token : next.contracts c.token = some (.mockUSDC m')
  others : ∀ a, a ≠ c.token → next.contracts a = chain.contracts a
  supply : m'.totalSupply = m.totalSupply
  balances : ∀ a, m'.balanceOf a + (if a = payer then c.total else 0) =
    m.balanceOf a + received ((c.transfers payer).map TransferFrom.move) a
  allowance : m'.allowance payer splitter + c.total = m.allowance payer splitter
  allowances : ∀ o s, o ≠ payer ∨ s ≠ splitter → m'.allowance o s = m.allowance o s
  logs : next.logs =
    chain.logs ++ (c.transfers payer).map TransferFrom.log ++ [.payoutV2 splitter payer c]

/-- What one holder sends by moves of its own. -/
theorem sent_own {payer : Nat} {ts : List TransferFrom} (h : ∀ t ∈ ts, t.sender = payer)
    (a : Nat) : sent (ts.map TransferFrom.move) a =
      if a = payer then (ts.map TransferFrom.amount).sum else 0 := by
  induction ts with
  | nil => simp
  | cons t ts ih =>
      have hsender := h t List.mem_cons_self
      have hrest := ih fun t' ht' => h t' (List.mem_cons_of_mem t ht')
      rw [List.map_cons, sent_cons, hrest, List.map_cons, List.sum_cons]
      split_ifs <;> simp_all [TransferFrom.move]

theorem SplitterCall.transfers_sender {c : SplitterCall} {payer : Nat} {t : TransferFrom}
    (h : t ∈ c.transfers payer) : t.sender = payer := by
  have hmem := (List.mem_filter.mp h).1
  simp only [List.mem_cons, List.not_mem_nil, or_false] at hmem
  rcases hmem with rfl | rfl | rfl <;> rfl

section PayoutV2

variable {may : ChainMessage → Prop} {chain : Chain} {splitter payer : Nat} {p : PayoutSplitter}
  {c : SplitterCall} {m : MockUSDC}

/-- What a payout needs: a splitter that runs, addresses that are set, an allowance that
covers the sum and a balance that covers each leg in its turn. -/
structure Payable (p : PayoutSplitter) (m : MockUSDC) (splitter payer : Nat) (c : SplitterCall) :
    Prop where
  running : p.paused = false
  worker : c.worker ≠ 0
  proofwork : c.proofwork ≠ 0
  platform : 0 < c.platformFee → c.platform ≠ 0
  allowed : c.total ≤ m.allowance payer splitter
  covered : ∃ balances, moveAll m.balanceOf ((c.transfers payer).map TransferFrom.move) =
    some balances

theorem SplitterCall.legs_own (c : SplitterCall) (payer : Nat) :
    ∀ leg ∈ c.legs payer, leg.1.token = c.token ∧ leg.1.sender = payer := by
  simp [SplitterCall.legs]

/-- When `payoutV2` succeeds, and what it leaves. -/
theorem payoutV2_next {other : OtherCode} {next : Chain} (hsound : m.Sound)
    (hp : chain.contracts splitter = some (.payoutSplitter p))
    (hm : chain.contracts c.token = some (.mockUSDC m)) :
    chain.execute other ⟨payer, splitter, .payoutV2 c⟩ = .ok next ↔
      p.paused = false ∧ (c.worker ≠ 0 ∧ c.proofwork ≠ 0) ∧
        (0 < c.platformFee → c.platform ≠ 0) ∧ c.total ≤ m.allowance payer splitter ∧
        ∃ balances, moveAll m.balanceOf ((c.transfers payer).map TransferFrom.move) =
            some balances ∧
          next = (chain.transferred c.token (m.spent payer splitter c.total balances)
            (c.transfers payer)).emit (.payoutV2 splitter payer c) := by
  have hexec : chain.execute other ⟨payer, splitter, .payoutV2 c⟩ =
      p.payoutV2 other splitter payer c chain := by
    simp [Chain.execute, ChainMessage.deploys, hp, PayoutSplitter.called]
  simp only [hexec, PayoutSplitter.payoutV2_ok, payLegs_token_ok (c.legs_own payer) hm hsound,
    SplitterCall.positiveLegs_legs, SplitterCall.transfers_sum]
  constructor
  · rintro ⟨hrunning, haddresses, hplatform, paid, ⟨hallowed, balances, hmoved, rfl⟩, rfl⟩
    exact ⟨hrunning, haddresses, hplatform, hallowed, balances, hmoved, rfl⟩
  · rintro ⟨hrunning, haddresses, hplatform, hallowed, balances, hmoved, rfl⟩
    exact ⟨hrunning, haddresses, hplatform, _, ⟨hallowed, balances, hmoved, rfl⟩, rfl⟩

/-- The recipients of a call are not its payer. -/
def SplitterCall.PaysOthers (c : SplitterCall) (payer : Nat) : Prop :=
  c.worker ≠ payer ∧ c.platform ≠ payer ∧ c.proofwork ≠ payer

theorem SplitterCall.PaysOthers.apart (h : c.PaysOthers payer) :
    ∀ move ∈ (c.transfers payer).map TransferFrom.move,
      move.sender = payer ∧ move.recipient ≠ payer := by
  intro move hmove
  obtain ⟨t, ht, rfl⟩ := List.mem_map.mp hmove
  refine ⟨SplitterCall.transfers_sender ht, ?_⟩
  have hmem := (List.mem_filter.mp ht).1
  simp only [List.mem_cons, List.not_mem_nil, or_false] at hmem
  rcases hmem with rfl | rfl | rfl
  · exact h.1
  · exact h.2.1
  · exact h.2.2

/-- **A payout is paid in full or not at all.**  In every run from an empty chain, the splitter
reads the call that the worker has encoded.  The call succeeds if and only if it is payable;
when it pays others than the payer, the balance has to cover the sum.  A call that succeeds
has paid every leg and changed nothing else. -/
theorem payoutV2_all_or_nothing (k : Keccak) {input : EncodeInput} (hnames : input.Names c)
    (hfits : c.Fits) (hrun : Becomes may {} chain)
    (hp : chain.contracts splitter = some (.payoutSplitter p))
    (hm : chain.contracts c.token = some (.mockUSDC m)) (other : OtherCode) :
    (calldata (encodePayoutSplitterCallV2 k input)).bind (decodeCall k) = some c ∧
      ((∃ next, chain.execute other ⟨payer, splitter, .payoutV2 c⟩ = .ok next) ↔
        Payable p m splitter payer c) ∧
      (c.PaysOthers payer →
        ((∃ balances, moveAll m.balanceOf ((c.transfers payer).map TransferFrom.move) =
          some balances) ↔ c.total ≤ m.balanceOf payer)) ∧
      ∀ next, chain.execute other ⟨payer, splitter, .payoutV2 c⟩ = .ok next →
        ∃ m', Paid chain next splitter payer c m m' := by
  have hsound := ((Chain.Sound.empty.becomes hrun).token c.token m hm).1
  refine ⟨decode_encode k hnames hfits, ⟨?_, ?_⟩, ?_, ?_⟩
  · rintro ⟨next, hnext⟩
    obtain ⟨hrunning, haddresses, hplatform, hallowed, balances, hmoved, -⟩ :=
      (payoutV2_next hsound hp hm).mp hnext
    exact ⟨hrunning, haddresses.1, haddresses.2, hplatform, hallowed, balances, hmoved⟩
  · intro h
    obtain ⟨balances, hmoved⟩ := h.covered
    exact ⟨_, (payoutV2_next hsound hp hm).mpr
      ⟨h.running, ⟨h.worker, h.proofwork⟩, h.platform, h.allowed, balances, hmoved, rfl⟩⟩
  · intro hothers
    rw [moveAll_apart hothers.apart, ← c.transfers_sum payer, List.map_map]
    rfl
  · intro next hnext
    obtain ⟨-, -, -, hallowed, balances, hmoved, rfl⟩ := (payoutV2_next hsound hp hm).mp hnext
    have hbalances := moveAll_balance hmoved
    refine ⟨m.spent payer splitter c.total balances, ?_, ?_, rfl, ?_, ?_, ?_, ?_⟩
    · simp [Chain.transferred]
    · intro a ha
      simp [Chain.transferred, ha]
    · intro a
      have hone := hbalances a
      rw [sent_own (fun t => SplitterCall.transfers_sender), c.transfers_sum] at hone
      exact hone
    · simp only [MockUSDC.spent, MockUSDC.setBalances_allowance, MockUSDC.setAllowance_self]
      omega
    · intro o s hos
      simp [MockUSDC.spent, MockUSDC.setAllowance_other hos]
    · rfl

end PayoutV2

/-- 500 to a worker and 100 to the platform of the repository. -/
def approvedCall : SplitterCall := ⟨100, 7, 0, 9, 500, 0, 100⟩

theorem payoutV2_all_or_nothing_approved :
    ∃ next m', approvedChain.execute noCode ⟨2, 200, .payoutV2 approvedCall⟩ = .ok next ∧
      Paid approvedChain next 200 2 approvedCall approvedToken m' := by
  have hnames : approvedCall.input.Names approvedCall := SplitterCall.input_names (by decide)
  have hfits : approvedCall.Fits := ⟨by decide, by decide, by decide⟩
  have hp : approvedChain.contracts 200 = some (.payoutSplitter { owner := 1 }) := rfl
  have hm : approvedChain.contracts approvedCall.token = some (.mockUSDC approvedToken) := rfl
  obtain ⟨-, hiff, -, hpaid⟩ := @payoutV2_all_or_nothing _ _ _ 2 _ _ _ signatureHash _ hnames
    hfits approvedChain_run hp hm noCode
  have hpayable : Payable { owner := 1 } approvedToken 200 2 approvedCall :=
    ⟨rfl, by decide, by decide, by decide, by decide, ⟨_, rfl⟩⟩
  obtain ⟨next, hnext⟩ := hiff.mpr hpayable
  obtain ⟨m', hm'⟩ := hpaid next hnext
  exact ⟨next, m', hnext, hm'⟩

end OpenUnion
