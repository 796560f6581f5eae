import OpenUnion.Interleave.Progress

/-!
# A program on its own

`Prog.solo` is what a program ends in, and the state it leaves, when nothing else runs and
nothing fails.  A program without transactions (`Prog.Flat`) is run piece by piece:
`Prog.Flat.solo_bind` and `Prog.Flat.solo_orElse`.
-/

namespace Interleave

variable {S : Type} {R : S → Type} {T ε K W β γ : Type}

/-- No lock is held by anybody else. -/
def free (_ : K) : Bool := false

/-- Run a program alone; `view` is the overlay of an open transaction. -/
def Prog.solo (e : Engine S R W K) : Prog S R T ε β → Option (W → W) → W → Except ε β × W
  | .ret x, _, w => (.ok x, w)
  | .fail err, _, w => (.error err, w)
  | .op s next _, view, w =>
      let seen := seenBy view w
      let outside := e.effect s free seen w
      let after := match view with
        | none => e.write s free seen outside
        | some _ => outside
      (next (e.result s free seen)).solo e
        (view.map fun v => fun x => e.write s free (v w) (v x)) after
  | .begin next, _, w => next.solo e (some id) w
  | .commit _ next _, view, w => next.solo e none (seenBy view w)
  | .rollback next, _, w => next.solo e none w

/-- The program opens no transaction. -/
def Prog.Flat : Prog S R T ε β → Prop
  | .ret _ | .fail _ => True
  | .op _ next _ => ∀ r, (next r).Flat
  | .begin _ | .commit _ _ _ | .rollback _ => False

variable {e : Engine S R W K} {p : Prog S R T ε β} {view : Option (W → W)} {w : W}

@[simp] theorem Prog.solo_ret (x : β) : (.ret x : Prog S R T ε β).solo e view w = (.ok x, w) := rfl

@[simp] theorem Prog.solo_fail (err : ε) :
    (.fail err : Prog S R T ε β).solo e view w = (.error err, w) := rfl

/-- A statement outside a transaction. -/
theorem Prog.solo_perform_bind [Inhabited ε] {s : S} {f : R s → Prog S R T ε β} :
    ((perform s : Prog S R T ε (R s)).bind f).solo e none w =
      (f (e.result s free w)).solo e none (e.write s free w (e.effect s free w w)) := rfl

theorem Prog.flat_perform [Inhabited ε] (s : S) : (perform s : Prog S R T ε (R s)).Flat :=
  fun _ => trivial

theorem Prog.Flat.bind {f : β → Prog S R T ε γ} (hp : p.Flat) (hf : ∀ x, (f x).Flat) :
    (p.bind f).Flat := by
  induction p with
  | ret x => exact hf x
  | fail err => trivial
  | op s next err ihn _ => exact fun r => ihn r (hp r)
  | begin next => exact hp.elim
  | commit t next err => exact hp.elim
  | rollback next => exact hp.elim

theorem Prog.Flat.orElse {h : ε → Prog S R T ε β} (hp : p.Flat) (hh : ∀ err, (h err).Flat) :
    (p.orElse h).Flat := by
  induction p with
  | ret x => trivial
  | fail err => exact hh err
  | op s next err ihn _ => exact fun r => ihn r (hp r)
  | begin next => exact hp.elim
  | commit t next err => exact hp.elim
  | rollback next => exact hp.elim

theorem Prog.flat_forEach {f : γ → Prog S R T ε Unit} (hf : ∀ b, (f b).Flat) (bs : List γ) :
    (forEach f bs).Flat := by
  induction bs with
  | nil => trivial
  | cons b bs ih => exact (hf b).bind fun _ => ih

/-- What follows a program runs in the state it leaves. -/
theorem Prog.Flat.solo_bind (hp : p.Flat) (f : β → Prog S R T ε γ) :
    (p.bind f).solo e none w =
      match p.solo e none w with
      | (.ok x, w') => (f x).solo e none w'
      | (.error err, w') => (.error err, w') := by
  induction p generalizing w with
  | ret x => rfl
  | fail err => rfl
  | op s next err ihn _ => exact ihn _ (hp _)
  | begin next => exact hp.elim
  | commit t next err => exact hp.elim
  | rollback next => exact hp.elim

/-- A handler runs in the state in which the error was thrown. -/
theorem Prog.Flat.solo_orElse (hp : p.Flat) (h : ε → Prog S R T ε β) :
    (p.orElse h).solo e none w =
      match p.solo e none w with
      | (.ok x, w') => (.ok x, w')
      | (.error err, w') => (h err).solo e none w' := by
  induction p generalizing w with
  | ret x => rfl
  | fail err => rfl
  | op s next err ihn _ => exact ihn _ (hp _)
  | begin next => exact hp.elim
  | commit t next err => exact hp.elim
  | rollback next => exact hp.elim

section Ends

variable {x : β} {err : ε} {w' : W}

theorem Prog.Flat.solo_bind_ok {f : β → Prog S R T ε γ} (hp : p.Flat)
    (h : p.solo e none w = (.ok x, w')) : (p.bind f).solo e none w = (f x).solo e none w' := by
  rw [hp.solo_bind, h]

theorem Prog.Flat.solo_bind_error {f : β → Prog S R T ε γ} (hp : p.Flat)
    (h : p.solo e none w = (.error err, w')) : (p.bind f).solo e none w = (.error err, w') := by
  rw [hp.solo_bind, h]

theorem Prog.Flat.solo_orElse_ok {handler : ε → Prog S R T ε β} (hp : p.Flat)
    (h : p.solo e none w = (.ok x, w')) : (p.orElse handler).solo e none w = (.ok x, w') := by
  rw [hp.solo_orElse, h]

theorem Prog.Flat.solo_orElse_error {handler : ε → Prog S R T ε β} (hp : p.Flat)
    (h : p.solo e none w = (.error err, w')) :
    (p.orElse handler).solo e none w = (handler err).solo e none w' := by
  rw [hp.solo_orElse, h]

end Ends

/-- The ways a program can end are the ways it ends in alone. -/
theorem Prog.Leaves.solo {F : β → Prop} {G : ε → Prop} (hp : p.Leaves F G) {x : β} {w' : W}
    (h : p.solo e view w = (.ok x, w')) : F x := by
  induction p generalizing w view with
  | ret y =>
      obtain ⟨rfl, -⟩ : y = x ∧ w = w' := by simpa using h
      exact hp
  | fail err => simp at h
  | op s next err ihn _ => exact ihn _ (hp.1 _) h
  | begin next ih => exact ih hp h
  | commit t next err ihn _ => exact ihn hp.1 h
  | rollback next ih => exact ih hp h

end Interleave
