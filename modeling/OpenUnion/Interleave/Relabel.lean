import OpenUnion.Interleave.Traces

/-!
# The notes taken of a run do not matter to it

What is noted of a run is chosen for a proof, and no process reads it.  So a run with one
kind of notes is a run with any other kind, and what is known about a program with some
notes is known with notes that contain them.

* `Machine.exec_renote`: a run with other notes.
* `Prog.Tells.relabel`: what a program does by some of its notes.
* `Prog.Tells.and`: two accounts of one program.
* `Prog.Every.tells_kept`: a program that begins with a fact about its notes.
-/

namespace Interleave

variable {S : Type} {R : S → Type} {T ε α β Q W K E H H' : Type}

/-- The machine that notes something else. -/
def Machine.renote (m : Machine S R T ε α Q W K E H)
    (note : Actor Q → Event S R T α → W → List H') : Machine S R T ε α Q W K E H' where
  engine := m.engine
  code := m.code
  env := m.env
  env_same := m.env_same
  note := note

/-- The system with another history. -/
def Sys.renote (c : Sys S R T ε α Q W K H) (hist : List (Nat × H')) : Sys S R T ε α Q W K H' where
  glob := ⟨hist, c.glob.world⟩
  procs := c.procs
  nextPid := c.nextPid
  held := c.held

section Runs

variable [DecidableEq K] {m : Machine S R T ε α Q W K E H}
  {note : Actor Q → Event S R T α → W → List H'} {c c' : Sys S R T ε α Q W K H}
  {l : Label S R T α Q E}

theorem Machine.runProc_renote {i : Nat} {p : Proc S R T ε α Q W}
    (h : m.runProc i p c = some (l, c')) (hist : List (Nat × H')) :
    ∃ hist', (m.renote note).runProc i p (c.renote hist) = some (l, c'.renote hist') := by
  obtain ⟨req, prog, view⟩ := p
  cases prog with
  | ret x =>
      obtain ⟨rfl, rfl⟩ := Prod.mk.inj (Option.some.inj h)
      exact ⟨_, rfl⟩
  | fail e =>
      obtain ⟨rfl, rfl⟩ := Prod.mk.inj (Option.some.inj h)
      exact ⟨_, rfl⟩
  | op s next err =>
      simp only [Machine.runProc] at h ⊢
      split at h
      · rename_i hfree
        obtain ⟨rfl, rfl⟩ := Prod.mk.inj (Option.some.inj h)
        refine ⟨((m.renote note).afterStmt ⟨i, req⟩ s (busyFor c.held i) view
          (c.renote hist).glob).hist, ?_⟩
        exact if_pos hfree
      · exact absurd h (by simp)
  | begin next =>
      obtain ⟨rfl, rfl⟩ := Prod.mk.inj (Option.some.inj h)
      exact ⟨_, rfl⟩
  | commit t next err =>
      obtain ⟨rfl, rfl⟩ := Prod.mk.inj (Option.some.inj h)
      exact ⟨_, rfl⟩
  | rollback next =>
      obtain ⟨rfl, rfl⟩ := Prod.mk.inj (Option.some.inj h)
      exact ⟨_, rfl⟩

omit [DecidableEq K] in
theorem faultProc_renote {i : Nat} {p : Proc S R T ε α Q W}
    (h : (faultProc i p c : Option (Label S R T α Q E × _)) = some (l, c'))
    (hist : List (Nat × H')) :
    ∃ hist', faultProc i p (c.renote hist) = some (l, c'.renote hist') := by
  obtain ⟨req, prog, view⟩ := p
  cases prog with
  | op s next err =>
      obtain ⟨rfl, rfl⟩ := Prod.mk.inj (Option.some.inj h)
      exact ⟨_, rfl⟩
  | commit t next err =>
      obtain ⟨rfl, rfl⟩ := Prod.mk.inj (Option.some.inj h)
      exact ⟨_, rfl⟩
  | _ => exact absurd h (by simp [faultProc])

variable (note)

/-- A move is one whatever has been noted. -/
theorem Machine.move_renote {ch : Choice Q E} (h : m.move ch c = some (l, c'))
    (hist : List (Nat × H')) :
    ∃ hist', (m.renote note).move ch (c.renote hist) = some (l, c'.renote hist') := by
  cases ch with
  | spawn q =>
      obtain ⟨rfl, rfl⟩ := Prod.mk.inj (Option.some.inj h)
      exact ⟨_, rfl⟩
  | run i =>
      obtain ⟨p, hp, hrun⟩ := Option.bind_eq_some_iff.mp h
      obtain ⟨hist', hmoved⟩ := Machine.runProc_renote hrun hist
      exact ⟨hist', Option.bind_eq_some_iff.mpr ⟨p, hp, hmoved⟩⟩
  | fault i =>
      obtain ⟨p, hp, hfault⟩ := Option.bind_eq_some_iff.mp h
      obtain ⟨hist', hmoved⟩ := faultProc_renote hfault hist
      exact ⟨hist', Option.bind_eq_some_iff.mpr ⟨p, hp, hmoved⟩⟩
  | crash i =>
      obtain ⟨p, hp, hcrash⟩ := Option.bind_eq_some_iff.mp h
      obtain ⟨rfl, rfl⟩ := Prod.mk.inj (Option.some.inj hcrash)
      exact ⟨hist, Option.bind_eq_some_iff.mpr ⟨p, hp, rfl⟩⟩
  | env e =>
      obtain ⟨rfl, rfl⟩ := Prod.mk.inj (Option.some.inj h)
      exact ⟨_, rfl⟩

/-- **Runs do not depend on what is noted of them.** -/
theorem Machine.exec_renote {ok : Label S R T α Q E → Glob W H → Bool}
    {ok' : Label S R T α Q E → Glob W H' → Bool} {cs : List (Choice Q E)}
    (hok : ∀ l g hist, ok l g = true → ok' l ⟨hist, g.world⟩ = true)
    (h : m.exec ok cs c = some c') (hist : List (Nat × H')) :
    ∃ hist', (m.renote note).exec ok' cs (c.renote hist) = some (c'.renote hist') := by
  induction cs generalizing c hist with
  | nil =>
      obtain rfl := Option.some.inj h
      exact ⟨hist, rfl⟩
  | cons ch rest ih =>
      obtain ⟨l, d, hmove, hl, hrest⟩ := Machine.exec_cons h
      obtain ⟨hist₁, hmoved⟩ := Machine.move_renote note hmove hist
      obtain ⟨hist₂, hdone⟩ := ih hrest hist₁
      refine ⟨hist₂, ?_⟩
      have hl' : ok' l (c.renote hist).glob = true := hok l c.glob hist hl
      rw [Machine.exec, hmoved]
      simpa [hl'] using hdone

end Runs

section Programs

variable {m : Machine S R T ε α Q W K E H} {a : Actor Q} {Out Out' : List H → S → Prop}
  {F F' : β → List H → Prop} {G G' : ε → List H → Prop} {ns : List H}

/-- What is told by some of the notes. -/
theorem Prog.Tells.relabel {note : Actor Q → Event S R T α → W → List H'} {f : H' → Option H}
    {p : Prog S R T ε β} {ns' : List H'}
    (hnote : ∀ x w, (note a x w).filterMap f = m.note a x w)
    (h : p.Tells m a Out F G (ns'.filterMap f)) :
    p.Tells (m.renote note) a (fun ns => Out (ns.filterMap f)) (fun x ns => F x (ns.filterMap f))
      (fun e ns => G e (ns.filterMap f)) ns' := by
  induction p generalizing ns' with
  | ret x => exact h
  | fail e => exact h
  | op s next err ihn ihe =>
      obtain ⟨hout, hnext, herr⟩ := h
      refine ⟨hout, fun busy w => ihn _ ?_, ihe herr⟩
      rw [List.filterMap_append]
      have hnotes := hnote (.stmt s (m.engine.result s busy w)) w
      change (next (m.engine.result s busy w)).Tells m a Out F G
        ((note a (.stmt s (m.engine.result s busy w)) w).filterMap f ++ ns'.filterMap f)
      rw [hnotes]
      exact hnext busy w
  | begin next ih => exact h.elim
  | commit t next err ihn ihe => exact h.elim
  | rollback next ih => exact h.elim

/-- Two accounts of one program. -/
theorem Prog.Tells.and {p : Prog S R T ε β} (h : p.Tells m a Out F G ns)
    (h' : p.Tells m a Out' F' G' ns) :
    p.Tells m a (fun ns s => Out ns s ∧ Out' ns s) (fun x ns => F x ns ∧ F' x ns)
      (fun e ns => G e ns ∧ G' e ns) ns := by
  induction p generalizing ns with
  | ret x => exact ⟨h, h'⟩
  | fail e => exact ⟨h, h'⟩
  | op s next err ihn ihe =>
      exact ⟨⟨h.1, h'.1⟩, fun busy w => ihn _ (h.2.1 busy w) (h'.2.1 busy w), ihe h.2.2 h'.2.2⟩
  | begin next ih => exact h.elim
  | commit t next err ihn ihe => exact h.elim
  | rollback next ih => exact h.elim

/-- A program that begins with a fact about its notes that further notes do not undo. -/
theorem Prog.Every.tells_kept {p : Prog S R T ε β} {Any : S → Prop} {I : List H → Prop}
    (h : p.Every Any) (hI : I ns) (hmono : ∀ new ns, I ns → I (new ++ ns))
    (hout : ∀ ns s, Any s → I ns → Out ns s) :
    p.Tells m a Out (fun _ => I) (fun _ => I) ns := by
  induction p generalizing ns with
  | ret x => exact hI
  | fail e => exact hI
  | op s next err ihn ihe =>
      exact ⟨hout ns s h.1 hI, fun _ _ => ihn _ (h.2.1 _) (hmono _ _ hI), ihe h.2.2 hI⟩
  | begin next ih => exact h.elim
  | commit t next err ihn ihe => exact h.elim
  | rollback next ih => exact h.elim

end Programs

end Interleave
