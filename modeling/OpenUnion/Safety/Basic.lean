import OpenUnion.Code.DisputeRows
import OpenUnion.Code.JobRows
import OpenUnion.Code.Ledger

/-!
# Plans for this system

Each result about runs of the system has its own condition, notes and invariant.
`systemPlan` puts them together with the conduct of the requests, and
`systemPlan_valid` leaves only the step of the invariant to prove, and the
steps of what else is relied on.

`runs` and `moves` read a concrete run off a computation.
-/

namespace OpenUnion

open Interleave

variable {H : Type} {cfg : Config} {note : Actor Request → Happening → World → List H}

/-- Every step of a conduct whose commits respect it keeps what never changes. -/
theorem Conducted.grows {asked : Request → Prop}
    {conduct : Actor Request → Conduct Stmt Tag World Lock H}
    {answers : Actor Request → Glob World H → Reply → Prop} {l : Step} {L : List Lock}
    {g g' : Glob World H}
    (hcommit : ∀ a g t L w, (conduct a).commit g t L w → g.world.Grows w)
    (h : Conducted (system cfg note) asked conduct answers l L g g') : g.world.Grows g'.world := by
  cases h with
  | stmt a s busy _ _ _ _ => exact Stmt.grows s
  | inner a s busy v _ _ _ => exact Stmt.effect_grows s _
  | commit a t L v _ _ hcom => exact hcommit a _ t _ _ hcom
  | reply a x _ _ _ => exact .refl _
  | env e _ => exact e.apply_grows _

/-- The plan for an invariant `inv` of the runs that meet `ok`. -/
def systemPlan (cfg : Config) (note : Actor Request → Happening → World → List H)
    (ok : Step → Glob World H → Bool) (asked : Request → Prop) (inv : Glob World H → Prop)
    (hold : Lock → World → World → Prop) (drift : Nat → Glob World H → Glob World H → Prop) :
    Plan (system cfg note) where
  inv := inv
  grow := World.Grows
  hold := hold
  drift := drift
  ok := ok
  asked := asked
  conduct := Request.conduct cfg hold
  answers _ _ _ := True

section Valid

variable {ok : Step → Glob World H → Bool} {asked : Request → Prop} {inv : Glob World H → Prop}
  {hold : Lock → World → World → Prop}

/-- Without facts that other processes keep, only the invariant and what locks
protect need a step. -/
theorem systemPlan_valid (hspawn : ∀ q g, ok (.spawn q) g = true → asked q)
    (hinv : ∀ l L g g',
      (systemPlan cfg note ok asked inv hold fun _ _ _ => True).Move l L g g' → inv g')
    (htrans : ∀ k u v w, hold k u v → hold k v w → hold k u w)
    (hhold : ∀ l L g g',
      (systemPlan cfg note ok asked inv hold fun _ _ _ => True).Move l L g g' →
        ∀ k, k ∉ L → hold k g.world g'.world) :
    (systemPlan cfg note ok asked inv hold fun _ _ _ => True).Valid where
  grow_trans _ _ _ := World.Grows.trans
  grow_refl := World.Grows.refl
  hold_trans := htrans
  drift_refl _ _ := trivial
  drift_trans _ _ _ _ _ _ := trivial
  spawn := hspawn
  does i q _ := (Request.code_does (fun _ _ h => h) i q).mono (fun _ _ _ _ _ _ => trivial)
    (fun _ _ h => h) (fun _ _ _ h => h) (fun _ _ _ _ h => h) fun _ _ _ _ h => h
  inv_step := hinv
  grow_step _ _ _ _ h := Conducted.grows
    (fun a g t L w (hcom : a.req.Ends t ∧ t.Effect cfg hold a.pid L g.world w) => hcom.2.grows)
    h.conducted
  hold_step := hhold
  drift_step _ _ _ _ _ _ _ := trivial

end Valid

/-- A system. -/
abbrev State (H : Type) := Sys Stmt Stmt.Val Tag Err Reply Request World Lock H

/-- A scheduler choice. -/
abbrev Pick := Choice Request Outdoors

/-- Whatever runs. -/
def anyStep : Step → Glob World Unit → Bool := fun _ _ => true

section Computed

variable (cfg : Config) (note : Actor Request → Happening → World → List H)
  (ok : Step → Glob World H → Bool) (cs : List Pick) (w : World)

/-- A run found by computation. -/
theorem runs (P : State H → Bool)
    (h : ((system cfg note).exec ok cs (Sys.start w)).any P = true) :
    ∃ c, (system cfg note).exec ok cs (Sys.start w) = some c ∧ P c = true :=
  (Option.any_eq_true _ _).mp h

/-- A run and one more step, found by computation. -/
theorem runs_and_moves (ch : Pick) (P : Step → State H → State H → Bool)
    (h : ((system cfg note).exec ok cs (Sys.start w)).any (fun c =>
      ((system cfg note).move ch c).any fun r => P r.1 c r.2) = true) :
    ∃ c l c', (system cfg note).exec ok cs (Sys.start w) = some c ∧
      (system cfg note).move ch c = some (l, c') ∧ P l c c' = true := by
  obtain ⟨c, hc, h⟩ := runs cfg note ok cs w _ h
  obtain ⟨⟨l, c'⟩, hm, h⟩ := (Option.any_eq_true _ _).mp h
  exact ⟨c, l, c', hc, hm, h⟩

end Computed

/-- A pending payout with its event. -/
def payoutWorld : World :=
  { World.empty with
    nextId := 5
    payouts := Function.update World.empty.payouts 1
      (some ⟨1, 1, 100, .pending, none, none, false, ⟨99, 0, 0, none, 1, 100, none⟩, none, none⟩)
    outbox := Function.update World.empty.outbox (.payout 1) (some (.fresh 0 0))
    outboxKeys := [.payout 1] }

end OpenUnion
