import Mathlib.Algebra.BigOperators.Group.List.Basic
import OpenUnion.Interleave.Progress

/-!
# Programs that are followed by their notes, and sums over a history

What a process has noted so far is part of its stage, so a program without transactions
can be proved one statement at a time, with the notes before it and what it has read:
`Stage.Noted` is where it stands and `does_noted` the rule for one statement.

A quantity that every note adds to is a sum over the history, and that sum is made up
of what each process has noted: `tally_induction`.  `Machine.exec_strengthen` adds to the
condition of a run what every step of it meets.
-/

namespace Interleave

section Stages

variable {S : Type} {R : S → Type} {T ε α Q W K E H β γ : Type}

/-- Outside transactions, having noted `ns` and knowing `known` of the committed state. -/
structure Stage.Noted (σ : Stage W K H) (ns : List H) (known : W → Prop) : Prop where
  outside : σ.Outside
  trace : σ.trace = ns
  facts : ∀ g, σ.known g → known g.world

theorem Stage.Noted.start : (Stage.start : Stage W K H).Noted [] fun _ => True :=
  ⟨⟨rfl, rfl⟩, rfl, fun _ _ => trivial⟩

variable {m : Machine S R T ε α Q W K E H} {τ : Terms W K H} {a : Actor Q}
  {D : Conduct S T W K H} {σ : Stage W K H} {ns : List H} {known : W → Prop}

/-- The notes and the facts after a statement. -/
theorem Stage.Noted.after (hσ : σ.Noted ns known) {s : S} {busy : K → Bool} {g : Glob W H}
    (hg : σ.Holds a.pid g) :
    (σ.after m τ a s busy g).Noted
      (m.note a (.stmt s (m.engine.result s busy g.world)) g.world ++ ns)
      fun w => known w ∧ τ.grow g.world w where
  outside := hσ.outside.after s busy g
  trace := by
    simp [Stage.after, Machine.afterStmt, hg.trace, hσ.trace, hσ.outside.1, seenBy]
  facts x hx := ⟨hσ.facts x hx.1, hx.2.1⟩

/-- A statement and what follows it, given the notes made before it. -/
theorem does_noted [Inhabited ε] {s : S} {f : R s → Prog S R T ε β}
    {F : β → Stage W K H → Prop} (hσ : σ.Noted ns known)
    (h : ∀ g busy, τ.inv g → own a.pid g.hist = ns → known g.world →
      D.out g s busy ∧ ∀ σ' : Stage W K H,
        σ'.Noted (m.note a (.stmt s (m.engine.result s busy g.world)) g.world ++ ns)
          (fun w => known w ∧ τ.grow g.world w) →
        (f (m.engine.result s busy g.world)).Does m τ a D F (fun _ _ => True) σ') :
    ((perform s : Prog S R T ε (R s)).bind f).Does m τ a D F (fun _ _ => True) σ := by
  refine ⟨trivial, fun g busy hinv hg _ => ?_⟩
  obtain ⟨hout, hnext⟩ := h g busy hinv (hg.trace.trans hσ.trace) (hσ.facts g hg.known)
  have hafter : (σ.after m τ a s busy g).Noted _ _ := hσ.after hg
  rw [hσ.outside.1]
  exact ⟨hout, hnext _ hafter⟩

/-- Where a program ends, the process has made the notes of its stage. -/
theorem Stage.Noted.entails (hσ : σ.Noted ns known) {i : Nat} {Φ : Assertion W H}
    (h : ∀ g, own i g.hist = ns → known g.world → Φ g) : σ.Entails τ i Φ :=
  fun g _ hg => h g (hg.trace.trans hσ.trace) (hσ.facts g hg.known)

end Stages

section Runs

variable {S : Type} {R : S → Type} {T ε α Q W K E H : Type} [DecidableEq K]
  {m : Machine S R T ε α Q W K E H} {ok ok' : Label S R T α Q E → Glob W H → Bool}
  {c c₀ : Sys S R T ε α Q W K H} {cs : List (Choice Q E)}

/-- A condition that every step of the runs meets may be added to the one they are run
under. -/
theorem Machine.exec_strengthen
    (hok : ∀ cs c ch l c', m.exec ok cs c₀ = some c → m.move ch c = some (l, c') →
      ok l c.glob = true → ok' l c.glob = true)
    (h : m.exec ok cs c₀ = some c) : m.exec ok' cs c₀ = some c := by
  refine Machine.exec_choices_induction (I := fun cs c => m.exec ok' cs c₀ = some c) rfl ?_ h
  intro cs c ch l c' hrun hrun' hmove hstep
  rw [Machine.exec_append hrun']
  simp [Machine.exec, hmove, hok cs c ch l c' hrun hmove hstep]

end Runs

section Tallies


variable {H M : Type} [AddCommMonoid M]

/-- What the notes of a history add up to. -/
def tally (f : H → M) (hist : List (Nat × H)) : M := (hist.map fun e => f e.2).sum

variable {f : H → M} {hist : List (Nat × H)} {i j : Nat}

@[simp] theorem tally_nil : tally f ([] : List (Nat × H)) = 0 := rfl

@[simp] theorem tally_append (hist' : List (Nat × H)) :
    tally f (hist ++ hist') = tally f hist + tally f hist' := by
  simp [tally]

/-- The notes a process adds. -/
@[simp] theorem tally_notes (ns : List H) : tally f (ns.map fun n => (i, n)) = (ns.map f).sum := by
  simp [tally, Function.comp_def]

/-- The notes of one process, and those of the others. -/
theorem tally_split (f : H → M) (i : Nat) (hist : List (Nat × H)) :
    tally f hist = ((own i hist).map f).sum + tally f (hist.filter fun e => ¬ e.1 = i) := by
  have hperm := List.filter_append_perm (fun e : Nat × H => e.1 = i) hist
  calc tally f hist
      = ((hist.filter (fun e => e.1 = i) ++ hist.filter fun e => ¬ e.1 = i).map
          fun e => f e.2).sum := by simpa [tally] using (hperm.map fun e => f e.2).sum_eq.symm
    _ = ((own i hist).map f).sum + tally f (hist.filter fun e => ¬ e.1 = i) := by
        simp [own, tally, Function.comp_def]

/-- The notes of another process are among the notes of the others. -/
theorem own_others (hist : List (Nat × H)) (i j : Nat) :
    own j (hist.filter fun e => ¬ e.1 = i) = if j = i then [] else own j hist := by
  simp only [own, List.filter_filter]
  split_ifs with hj
  · subst hj
    simp
  · congr 1
    apply List.filter_congr
    intro e _
    by_cases he : e.1 = j
    · simp [he, hj]
    · simp [he]

/-- What holds of the sum of each process's notes holds of the whole sum. -/
theorem tally_induction {motive : M → Prop} (hzero : motive 0)
    (hadd : ∀ x y, motive x → motive y → motive (x + y))
    (h : ∀ i, motive ((own i hist).map f).sum) : motive (tally f hist) := by
  induction hlen : hist.length using Nat.strongRecOn generalizing hist with
  | ind len ih =>
      cases hist with
      | nil => exact hzero
      | cons e rest =>
          rw [tally_split f e.1]
          have hshorter : ((e :: rest).filter fun e' => ¬ e'.1 = e.1).length < len := by
            rw [List.filter_cons_of_neg (by simp), ← hlen, List.length_cons]
            exact Nat.lt_succ_of_le (List.length_filter_le _ _)
          refine hadd _ _ (h e.1) (ih _ hshorter (fun j => ?_) rfl)
          rw [own_others]
          split_ifs
          · exact hzero
          · exact h j

end Tallies

end Interleave
