import OpenUnion.Code.Contracts

/-!
# What the functions of a token keep

* `MockUSDC.Sound`: the balances amount to the supply, which fits into a word, so a transfer
  within a balance never fails in the arithmetic; `MockUSDC.Sound.called` is that every
  function keeps it.
* `MockUSDC.Replays`: the balances and the supply are those of the moves that the `Transfer`
  events say; `MockUSDC.Replays.called` is that every function says what it does.
-/

namespace OpenUnion

open Holdings

/-! ## Functions of a token -/

theorem binds_ok {ε α β : Type} {x : Except ε α} {f : α → Except ε β} {b : β} :
    x >>= f = .ok b ↔ ∃ a, x = .ok a ∧ f a = .ok b := by
  cases x with
  | error e => simp [bind, Except.bind]
  | ok a => simp [bind, Except.bind]

theorem demand_ok {condition : Bool} {reason : String} {u : Unit} :
    demand condition reason = .ok u ↔ condition = true := by
  cases condition <;> simp [demand, require, Except.mapError]

theorem checkedAdd_ok {a b n : Nat} : checkedAdd a b = .ok n ↔ a + b < 2 ^ 256 ∧ n = a + b := by
  by_cases h : a + b < 2 ^ 256
  · rw [checkedAdd, if_pos h, Except.ok.injEq]
    exact ⟨fun hn => ⟨h, hn.symm⟩, fun hn => hn.2.symm⟩
  · rw [checkedAdd, if_neg h]
    exact ⟨fun hn => by simp at hn, fun hn => absurd hn.1 h⟩

theorem checkedSub_ok {a b n : Nat} : checkedSub a b = .ok n ↔ b ≤ a ∧ n = a - b := by
  by_cases h : b ≤ a
  · simp [checkedSub, h, eq_comm]
  · simp [checkedSub, h]

namespace MockUSDC

variable {m : MockUSDC} {done : MockUSDC × TokenEvent}
  {msgSender sender recipient spender owner amount : Nat}

/-- Set the balances of a token. -/
def setBalances (m : MockUSDC) (balances : Nat → Nat) : MockUSDC := { m with balanceOf := balances }

theorem mint_ok : m.mint recipient amount = .ok done ↔
    m.balanceOf recipient + amount < 2 ^ 256 ∧ m.totalSupply + amount < 2 ^ 256 ∧
      done = ({ m with
        balanceOf := Function.update m.balanceOf recipient (m.balanceOf recipient + amount)
        totalSupply := m.totalSupply + amount }, .transfer 0 recipient amount) := by
  simp only [mint, binds_ok, checkedAdd_ok, pure, Except.pure, Except.ok.injEq]
  constructor
  · rintro ⟨balance, ⟨hbalance, rfl⟩, supply, ⟨hsupply, rfl⟩, rfl⟩
    exact ⟨hbalance, hsupply, rfl⟩
  · rintro ⟨hbalance, hsupply, rfl⟩
    exact ⟨_, ⟨hbalance, rfl⟩, _, ⟨hsupply, rfl⟩, rfl⟩

theorem approve_ok : m.approve msgSender spender amount = .ok done ↔
    done = (m.setAllowance msgSender spender amount, .approval msgSender spender amount) := by
  simp [approve, pure, Except.pure, eq_comm]

/-- A transfer that succeeds is a move. -/
theorem transferInternal_ok : m.transferInternal sender recipient amount = .ok done ↔
    amount ≤ m.balanceOf sender ∧
      Function.update m.balanceOf sender (m.balanceOf sender - amount) recipient + amount
        < 2 ^ 256 ∧
      done = (m.setBalances (move m.balanceOf sender recipient amount),
        .transfer sender recipient amount) := by
  simp only [transferInternal, binds_ok, demand_ok, checkedSub_ok, checkedAdd_ok, pure,
    Except.pure, Except.ok.injEq, decide_eq_true_eq]
  constructor
  · rintro ⟨-, hbalance, left, ⟨-, rfl⟩, credited, ⟨hfits, rfl⟩, rfl⟩
    exact ⟨hbalance, hfits, rfl⟩
  · rintro ⟨hbalance, hfits, rfl⟩
    exact ⟨(), hbalance, _, ⟨hbalance, rfl⟩, _, ⟨hfits, rfl⟩, rfl⟩

theorem transferFrom_ok : m.transferFrom msgSender sender recipient amount = .ok done ↔
    amount ≤ m.allowance sender msgSender ∧
      (m.setAllowance sender msgSender (m.allowance sender msgSender - amount)).transferInternal
        sender recipient amount = .ok done := by
  simp only [transferFrom, binds_ok, demand_ok, checkedSub_ok, decide_eq_true_eq]
  constructor
  · rintro ⟨-, hallowed, left, ⟨-, rfl⟩, hdone⟩
    exact ⟨hallowed, hdone⟩
  · rintro ⟨hallowed, hdone⟩
    exact ⟨(), hallowed, _, ⟨hallowed, rfl⟩, hdone⟩

@[simp] theorem setAllowance_balanceOf (m : MockUSDC) (owner spender amount : Nat) :
    (m.setAllowance owner spender amount).balanceOf = m.balanceOf := rfl

@[simp] theorem setAllowance_totalSupply (m : MockUSDC) (owner spender amount : Nat) :
    (m.setAllowance owner spender amount).totalSupply = m.totalSupply := rfl

@[simp] theorem setBalances_allowance (m : MockUSDC) (balances : Nat → Nat) :
    (m.setBalances balances).allowance = m.allowance := rfl

@[simp] theorem setBalances_balanceOf (m : MockUSDC) (balances : Nat → Nat) :
    (m.setBalances balances).balanceOf = balances := rfl

@[simp] theorem setBalances_totalSupply (m : MockUSDC) (balances : Nat → Nat) :
    (m.setBalances balances).totalSupply = m.totalSupply := rfl

theorem setAllowance_self (m : MockUSDC) (owner spender amount : Nat) :
    (m.setAllowance owner spender amount).allowance owner spender = amount := by
  simp [setAllowance]

theorem setAllowance_other {o s : Nat} (h : o ≠ owner ∨ s ≠ spender) (m : MockUSDC) (amount : Nat) :
    (m.setAllowance owner spender amount).allowance o s = m.allowance o s := by
  by_cases ho : o = owner
  · have hs : s ≠ spender := h.resolve_left fun hne => hne ho
    subst ho
    simp [setAllowance, hs]
  · simp [setAllowance, ho]

/-- The balances amount to the supply, which is a `uint256`, and the zero address, which has
no key, approves nothing. -/
structure Sound (m : MockUSDC) : Prop where
  total : Total m.balanceOf m.totalSupply
  bounded : m.totalSupply < 2 ^ 256
  nobody : ∀ spender, m.allowance 0 spender = 0

/-- In a sound token a transfer within the balance fits. -/
theorem Sound.transferInternal_ok (h : m.Sound) :
    m.transferInternal sender recipient amount = .ok done ↔
      amount ≤ m.balanceOf sender ∧
        done = (m.setBalances (move m.balanceOf sender recipient amount),
          .transfer sender recipient amount) := by
  rw [MockUSDC.transferInternal_ok]
  constructor
  · rintro ⟨hbalance, -, hdone⟩
    exact ⟨hbalance, hdone⟩
  · rintro ⟨hbalance, hdone⟩
    have hle := h.total.given_le hbalance recipient
    exact ⟨hbalance, hle.trans_lt h.bounded, hdone⟩

/-- The arithmetic of a transfer does not fail: it is done, or the balance is too small. -/
theorem Sound.transferInternal_no_panic (h : m.Sound) (sender recipient amount : Nat) :
    m.transferInternal sender recipient amount ≠ .error .panic := by
  intro hpanic
  by_cases hbalance : amount ≤ m.balanceOf sender
  · have hdone : m.transferInternal sender recipient amount = .ok _ :=
      h.transferInternal_ok.mpr ⟨hbalance, rfl⟩
    rw [hdone] at hpanic
    exact absurd hpanic (by simp)
  · have hreason : m.transferInternal sender recipient amount = .error (.reason "balance") := by
      simp [transferInternal, demand, require, hbalance, Except.mapError, bind, Except.bind]
    rw [hreason] at hpanic
    exact absurd hpanic (by simp)

theorem Sound.new : Sound {} := ⟨total_zero, by norm_num, fun _ => rfl⟩

theorem Sound.mint (h : m.Sound) (hdone : m.mint recipient amount = .ok done) : done.1.Sound := by
  obtain ⟨-, hsupply, rfl⟩ := mint_ok.mp hdone
  exact ⟨h.total.credit recipient amount, hsupply, h.nobody⟩

theorem Sound.approve (h : m.Sound) (hsender : msgSender ≠ 0)
    (hdone : m.approve msgSender spender amount = .ok done) : done.1.Sound := by
  rw [approve_ok.mp hdone]
  refine ⟨h.total, h.bounded, ?_⟩
  intro s
  rw [setAllowance_other (.inl hsender.symm), h.nobody]

theorem Sound.transferInternal (h : m.Sound)
    (hdone : m.transferInternal sender recipient amount = .ok done) : done.1.Sound := by
  obtain ⟨hbalance, rfl⟩ := h.transferInternal_ok.mp hdone
  exact ⟨h.total.move hbalance recipient, h.bounded, h.nobody⟩

/-- Spending an allowance leaves the token sound. -/
theorem Sound.spend (h : m.Sound) (owner spender amount : Nat) :
    (m.setAllowance owner spender (m.allowance owner spender - amount)).Sound := by
  refine ⟨h.total, h.bounded, ?_⟩
  intro s
  by_cases hs : 0 = owner ∧ s = spender
  · obtain ⟨rfl, rfl⟩ := hs
    rw [setAllowance_self, h.nobody, Nat.zero_sub]
  · rw [setAllowance_other (not_and_or.mp hs), h.nobody]

theorem Sound.transferFrom_no_panic (h : m.Sound) (msgSender sender recipient amount : Nat) :
    m.transferFrom msgSender sender recipient amount ≠ .error .panic := by
  intro hpanic
  by_cases hallowed : amount ≤ m.allowance sender msgSender
  · have hspent : m.transferFrom msgSender sender recipient amount =
        (m.setAllowance sender msgSender (m.allowance sender msgSender - amount)).transferInternal
          sender recipient amount := by
      simp [transferFrom, demand, require, hallowed, checkedSub, Except.mapError, bind,
        Except.bind]
    rw [hspent] at hpanic
    exact (h.spend sender msgSender amount).transferInternal_no_panic sender recipient amount hpanic
  · have hreason : m.transferFrom msgSender sender recipient amount =
        .error (.reason "allowance") := by
      simp [transferFrom, demand, require, hallowed, Except.mapError, bind, Except.bind]
    rw [hreason] at hpanic
    exact absurd hpanic (by simp)

theorem Sound.transferFrom (h : m.Sound)
    (hdone : m.transferFrom msgSender sender recipient amount = .ok done) : done.1.Sound := by
  obtain ⟨-, hmoved⟩ := transferFrom_ok.mp hdone
  exact (h.spend sender msgSender amount).transferInternal hmoved

/-- **Every function keeps a token sound.** -/
theorem Sound.called (h : m.Sound) (hsender : msgSender ≠ 0) {call : ContractCall}
    (hdone : m.called msgSender call = .ok done) : done.1.Sound := by
  cases call with
  | mint recipient amount => exact h.mint hdone
  | approve spender amount => exact h.approve hsender hdone
  | transfer recipient amount => exact h.transferInternal hdone
  | transferFrom sender recipient amount => exact h.transferFrom hdone
  | deployToken | deploySplitter | deployOther | setPaused | payout | payoutV2 =>
      exact absurd hdone (by simp [MockUSDC.called])

end MockUSDC

/-! ## Events -/

/-- The move a `Transfer` says. -/
def TokenEvent.move : TokenEvent → Option (Move Nat)
  | .transfer sender recipient amount => some ⟨sender, recipient, amount⟩
  | .approval _ _ _ => none

/-- The move an event of a token says. -/
def ChainLog.move (address : Nat) : ChainLog → Option (Move Nat)
  | .token a event => if a = address then event.move else none
  | .payout _ _ _ => none
  | .payoutV2 _ _ _ => none

/-- The moves the events of a token say. -/
def Chain.moves (chain : Chain) (address : Nat) : List (Move Nat) :=
  chain.logs.filterMap (ChainLog.move address)

/-- The balances of a token are what moves say, and what comes from the zero address is its
supply. -/
structure MockUSDC.Replays (m : MockUSDC) (moves : List (Move Nat)) : Prop where
  balance : ∀ a, a ≠ 0 → m.balanceOf a + sent moves a = received moves a
  nobody : m.balanceOf 0 = received moves 0
  supply : m.totalSupply = sent moves 0

namespace MockUSDC

variable {m : MockUSDC} {done : MockUSDC × TokenEvent} {moves : List (Move Nat)}
  {msgSender sender recipient spender amount : Nat}

/-- The moves after an event. -/
def after (moves : List (Move Nat)) (event : TokenEvent) : List (Move Nat) :=
  moves ++ event.move.toList

theorem Replays.new : Replays {} [] := ⟨fun _ _ => rfl, rfl, rfl⟩

theorem Replays.mint (h : m.Replays moves) (hdone : m.mint recipient amount = .ok done) :
    done.1.Replays (after moves done.2) := by
  obtain ⟨-, -, rfl⟩ := mint_ok.mp hdone
  refine ⟨?_, ?_, ?_⟩
  · intro a ha
    have hbalance := h.balance a ha
    by_cases hr : a = recipient
    · subst hr
      simp [after, TokenEvent.move, sent_append, received_append, ha]
      omega
    · simp [after, TokenEvent.move, sent_append, received_append, ha, hr]
      omega
  · have hbalance := h.nobody
    by_cases hr : 0 = recipient
    · subst hr
      simp [after, TokenEvent.move, received_append]
      omega
    · simp [after, TokenEvent.move, received_append, hr]
      omega
  · have hsupply := h.supply
    simp [after, TokenEvent.move, sent_append]
    omega

theorem Replays.approve (h : m.Replays moves)
    (hdone : m.approve msgSender spender amount = .ok done) :
    done.1.Replays (after moves done.2) := by
  rw [approve_ok.mp hdone]
  simpa [after, TokenEvent.move] using (⟨h.balance, h.nobody, h.supply⟩ :
    (m.setAllowance msgSender spender amount).Replays moves)

/-- A transfer that nobody without a key pays. -/
theorem Replays.transferInternal (h : m.Replays moves) (hsender : sender = 0 → amount = 0)
    (hdone : m.transferInternal sender recipient amount = .ok done) :
    done.1.Replays (after moves done.2) := by
  obtain ⟨hamount, -, rfl⟩ := transferInternal_ok.mp hdone
  have hmove := move_balance hamount recipient
  refine ⟨?_, ?_, ?_⟩
  · intro a ha
    have hone := hmove a
    have hbalance := h.balance a ha
    simp only [after, TokenEvent.move, Option.toList_some, sent_append, received_append,
      sent_cons, received_cons, sent_nil, received_nil, setBalances_balanceOf]
    omega
  · have hone := hmove 0
    have hbalance := h.nobody
    simp only [after, TokenEvent.move, Option.toList_some, received_append, received_cons,
      received_nil, setBalances_balanceOf]
    split_ifs at hone ⊢ <;> omega
  · have hsupply := h.supply
    simp only [after, TokenEvent.move, Option.toList_some, sent_append, sent_cons, sent_nil,
      setBalances_totalSupply]
    split_ifs with h0
    · have := hsender h0.symm
      omega
    · omega

/-- The zero address has approved nothing, so what is transferred from it is nothing. -/
theorem Replays.transferFrom (h : m.Replays moves) (hm : m.Sound)
    (hdone : m.transferFrom msgSender sender recipient amount = .ok done) :
    done.1.Replays (after moves done.2) := by
  obtain ⟨hallowed, hmoved⟩ := transferFrom_ok.mp hdone
  have hspent : (m.setAllowance sender msgSender
      (m.allowance sender msgSender - amount)).Replays moves := ⟨h.balance, h.nobody, h.supply⟩
  apply hspent.transferInternal _ hmoved
  intro hsender
  rw [hsender, hm.nobody] at hallowed
  omega

/-- **Every function of a token says what it does.** -/
theorem Replays.called (h : m.Replays moves) (hm : m.Sound) (hsender : msgSender ≠ 0)
    {call : ContractCall} (hdone : m.called msgSender call = .ok done) :
    done.1.Replays (after moves done.2) := by
  cases call with
  | mint recipient amount => exact h.mint hdone
  | approve spender amount => exact h.approve hdone
  | transfer recipient amount =>
      exact h.transferInternal (fun h0 => absurd h0 hsender) hdone
  | transferFrom sender recipient amount => exact h.transferFrom hm hdone
  | deployToken | deploySplitter | deployOther | setPaused | payout | payoutV2 =>
      exact absurd hdone (by simp [MockUSDC.called])

end MockUSDC

end OpenUnion
