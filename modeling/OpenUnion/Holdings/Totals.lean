import Mathlib.Algebra.BigOperators.Group.Finset.Basic
import Mathlib.Algebra.Order.BigOperators.Group.Finset
import Mathlib.Algebra.Ring.Nat

/-!
# Finitely many holders

A ledger of balances is a function from holders to numbers that is zero outside a finite
set.  `Total f n` says that the holdings `f` amount to `n`.

* `Total.le`, `Total.pair_le`: what one holder, or two, hold is part of the total.
* `Total.credit`, `Total.move`: what a credit and a transfer do to the total.
* `move_balance`: what a transfer does to each holder, the sender being the recipient or not.
* `sent`, `received`: the sums of a list of moves, holder by holder.
* `moveAll_balance`, `moveAll_total`: moves one after the other, each within what its sender
  then holds; `moveAll_apart` is when they all go through if one holder pays others.
-/

namespace Holdings

variable {α : Type*} [DecidableEq α]

/-- The holdings `f` are those of finitely many holders and amount to `n`. -/
def Total (f : α → Nat) (n : Nat) : Prop :=
  ∃ holders : Finset α, (∀ a, a ∉ holders → f a = 0) ∧ ∑ a ∈ holders, f a = n

variable {f : α → Nat} {a b c : α} {n k : Nat}

omit [DecidableEq α] in
theorem total_zero : Total (fun _ : α => 0) 0 := ⟨∅, fun _ _ => rfl, rfl⟩

/-- The holders may be any larger finite set. -/
theorem Total.over (h : Total f n) (more : Finset α) :
    ∃ holders : Finset α, more ⊆ holders ∧ (∀ a, a ∉ holders → f a = 0) ∧
      ∑ a ∈ holders, f a = n := by
  obtain ⟨holders, hzero, hsum⟩ := h
  refine ⟨holders ∪ more, Finset.subset_union_right, ?_, ?_⟩
  · intro a ha
    exact hzero a fun h => ha (Finset.mem_union_left _ h)
  · rw [← hsum]
    symm
    apply Finset.sum_subset Finset.subset_union_left
    intro a _ ha
    exact hzero a ha

/-- One holder holds part of the total. -/
theorem Total.le (h : Total f n) (a : α) : f a ≤ n := by
  obtain ⟨holders, hmore, -, hsum⟩ := h.over {a}
  have ha : a ∈ holders := hmore (Finset.mem_singleton_self a)
  rw [← hsum]
  exact Finset.single_le_sum (fun _ _ => Nat.zero_le _) ha

/-- The total apart from one holder. -/
theorem Total.split (h : Total f n) (a : α) :
    ∃ rest : Finset α, a ∉ rest ∧ (∀ b, b ≠ a → b ∉ rest → f b = 0) ∧
      f a + ∑ b ∈ rest, f b = n := by
  obtain ⟨holders, hmore, hzero, hsum⟩ := h.over {a}
  have ha : a ∈ holders := hmore (Finset.mem_singleton_self a)
  refine ⟨holders.erase a, Finset.notMem_erase a holders, ?_, ?_⟩
  · intro b hb hrest
    apply hzero b
    intro hmem
    exact hrest (Finset.mem_erase.mpr ⟨hb, hmem⟩)
  · rw [← hsum, Finset.add_sum_erase holders f ha]

/-- Changing one holding changes the total by the difference. -/
theorem Total.update (h : Total f n) (a : α) (k : Nat) :
    ∃ m, Total (Function.update f a k) m ∧ m + f a = n + k := by
  obtain ⟨rest, ha, hzero, hsum⟩ := h.split a
  have hrest : ∑ b ∈ rest, Function.update f a k b = ∑ b ∈ rest, f b := by
    apply Finset.sum_congr rfl
    intro b hb
    apply Function.update_of_ne
    intro hba
    rw [hba] at hb
    exact ha hb
  refine ⟨k + ∑ b ∈ rest, f b, ⟨insert a rest, ?_, ?_⟩, by omega⟩
  · intro b hb
    have hne : b ≠ a := fun h => hb (h ▸ Finset.mem_insert_self a rest)
    rw [Function.update_of_ne hne]
    exact hzero b hne fun h => hb (Finset.mem_insert_of_mem h)
  · rw [Finset.sum_insert ha, Function.update_self, hrest]

/-- A credit adds to the total. -/
theorem Total.credit (h : Total f n) (a : α) (k : Nat) :
    Total (Function.update f a (f a + k)) (n + k) := by
  obtain ⟨m, htotal, hm⟩ := h.update a (f a + k)
  have : m = n + k := by omega
  rwa [← this]

/-- Two holders hold part of the total. -/
theorem Total.pair_le (h : Total f n) (hab : a ≠ b) : f a + f b ≤ n := by
  obtain ⟨m, htotal, hm⟩ := h.update a 0
  have hb := htotal.le b
  rw [Function.update_of_ne hab.symm] at hb
  omega

/-! ## Moves -/

/-- Take `k` from `a`, then give it to `b`. -/
def move (f : α → Nat) (a b : α) (k : Nat) : α → Nat :=
  Function.update (Function.update f a (f a - k)) b (Function.update f a (f a - k) b + k)

/-- A move keeps the total. -/
theorem Total.move (h : Total f n) (hk : k ≤ f a) (b : α) : Total (move f a b k) n := by
  obtain ⟨m, htaken, hm⟩ := h.update a (f a - k)
  have hgiven := htaken.credit b k
  have : m + k = n := by omega
  rwa [this] at hgiven

/-- What a move does to one holder. -/
theorem move_balance (hk : k ≤ f a) (b c : α) :
    move f a b k c + (if c = a then k else 0) = f c + (if c = b then k else 0) := by
  by_cases hca : c = a
  · subst hca
    by_cases hcb : c = b
    · subst hcb
      simp only [move, Function.update_self, if_true]
      omega
    · simp only [move, Function.update_of_ne hcb, Function.update_self, if_true, if_neg hcb]
      omega
  · by_cases hcb : c = b
    · subst hcb
      simp only [move, Function.update_self, Function.update_of_ne hca, if_true, if_neg hca]
      omega
    · simp only [move, Function.update_of_ne hcb, Function.update_of_ne hca, if_neg hca,
        if_neg hcb]

/-- What the recipient of a move holds in between is still part of the total. -/
theorem Total.given_le (h : Total f n) (hk : k ≤ f a) (b : α) :
    Function.update f a (f a - k) b + k ≤ n := by
  have hle := (h.move hk b).le b
  rwa [Holdings.move, Function.update_self] at hle

/-- A move of an amount from one holder to another. -/
structure Move (α : Type*) where
  sender : α
  recipient : α
  amount : Nat
  deriving DecidableEq

/-- What moves take from a holder. -/
def sent (moves : List (Move α)) (a : α) : Nat :=
  (moves.map fun m => if a = m.sender then m.amount else 0).sum

/-- What moves give to a holder. -/
def received (moves : List (Move α)) (a : α) : Nat :=
  (moves.map fun m => if a = m.recipient then m.amount else 0).sum

variable {m : Move α} {moves more : List (Move α)} {g : α → Nat}

@[simp] theorem sent_nil (a : α) : sent [] a = 0 := rfl

@[simp] theorem received_nil (a : α) : received [] a = 0 := rfl

@[simp] theorem sent_cons (m : Move α) (moves : List (Move α)) (a : α) :
    sent (m :: moves) a = (if a = m.sender then m.amount else 0) + sent moves a := by
  simp [sent]

@[simp] theorem received_cons (m : Move α) (moves : List (Move α)) (a : α) :
    received (m :: moves) a = (if a = m.recipient then m.amount else 0) + received moves a := by
  simp [received]

theorem sent_append (moves more : List (Move α)) (a : α) :
    sent (moves ++ more) a = sent moves a + sent more a := by
  simp [sent]

theorem received_append (moves more : List (Move α)) (a : α) :
    received (moves ++ more) a = received moves a + received more a := by
  simp [received]

/-- Moves one after the other, each within what its sender then holds. -/
def moveAll (f : α → Nat) : List (Move α) → Option (α → Nat)
  | [] => some f
  | m :: moves =>
      if m.amount ≤ f m.sender then moveAll (move f m.sender m.recipient m.amount) moves else none

theorem moveAll_cons_eq_some :
    moveAll f (m :: moves) = some g ↔
      m.amount ≤ f m.sender ∧ moveAll (move f m.sender m.recipient m.amount) moves = some g := by
  by_cases hm : m.amount ≤ f m.sender <;> simp [moveAll, hm]

/-- What moves do to each holder. -/
theorem moveAll_balance (h : moveAll f moves = some g) (a : α) :
    g a + sent moves a = f a + received moves a := by
  induction moves generalizing f with
  | nil =>
      have hfg : f = g := Option.some.inj h
      simp [hfg]
  | cons m moves ih =>
      obtain ⟨hm, hrest⟩ := moveAll_cons_eq_some.mp h
      have hone := move_balance hm m.recipient a
      have hmore := ih hrest
      rw [sent_cons, received_cons]
      omega

/-- Moves keep the total. -/
theorem moveAll_total (h : moveAll f moves = some g) (hf : Total f n) : Total g n := by
  induction moves generalizing f with
  | nil => rwa [← Option.some.inj h]
  | cons m moves ih =>
      obtain ⟨hm, hrest⟩ := moveAll_cons_eq_some.mp h
      exact ih hrest (hf.move hm m.recipient)

/-- One holder pays others: all goes through if and only if it holds the sum. -/
theorem moveAll_apart (h : ∀ m ∈ moves, m.sender = a ∧ m.recipient ≠ a) :
    (∃ g, moveAll f moves = some g) ↔ (moves.map Move.amount).sum ≤ f a := by
  induction moves generalizing f with
  | nil => simp [moveAll]
  | cons m moves ih =>
      obtain ⟨hsender, hrecipient⟩ := h m List.mem_cons_self
      have hrest := ih (f := move f m.sender m.recipient m.amount) fun m' hm' =>
        h m' (List.mem_cons_of_mem m hm')
      simp only [moveAll_cons_eq_some, exists_and_left, hrest, List.map_cons, List.sum_cons]
      constructor
      · rintro ⟨hm, hsum⟩
        have hone := move_balance hm m.recipient a
        rw [if_pos hsender.symm, if_neg hrecipient.symm] at hone
        rw [hsender] at hm
        omega
      · intro hsum
        have hm : m.amount ≤ f m.sender := by
          rw [hsender]
          omega
        have hone := move_balance hm m.recipient a
        rw [if_pos hsender.symm, if_neg hrecipient.symm] at hone
        exact ⟨hm, by omega⟩

end Holdings
