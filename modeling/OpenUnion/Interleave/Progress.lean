import OpenUnion.Interleave.Conduct

/-!
# How far a live program has got

A run moves many programs, but each choice moves one: it executes the next node of a
live program, lets that node fail, or kills the program.  `Prog.Advances` lists what
is then left of the program.  `Machine.exec_programs` carries a property of program
and own notes along a run, which is what a claim about requests *in progress* needs,
whatever the state of the database.

`Prog.Delivers F` is such a property: unless a node fails or a transaction is rolled
back, the program ends, and with a value that satisfies `F`.  `Prog.AfterCommit F G`
is another: once the program has committed it answers in `F` or throws in `G`, so a
program that ends otherwise has committed nothing (`Machine.exec_uncommitted`).
-/

namespace Interleave

variable {S : Type} {R : S → Type} {T ε α Q W K E H β γ : Type}

/-- Process `a` executes or loses the next node of its program: the label of the step,
and what is left of the program unless it has ended. -/
inductive Prog.Advances (a : Actor Q) :
    Prog S R T ε α → Label S R T α Q E → Option (Prog S R T ε α) → Prop where
  | reply (x : α) : Advances a (.ret x) (.event a (.reply x)) none
  | error (e : ε) : Advances a (.fail e) (.quiet a) none
  | stmt (s : S) (next : R s → Prog S R T ε α) (err : Prog S R T ε α) (r : R s) :
      Advances a (.op s next err) (.event a (.stmt s r)) (some (next r))
  | begin (next : Prog S R T ε α) : Advances a (.begin next) (.quiet a) (some next)
  | commit (t : T) (next err : Prog S R T ε α) :
      Advances a (.commit t next err) (.event a (.commit t)) (some next)
  | rollback (next : Prog S R T ε α) : Advances a (.rollback next) (.rollback a) (some next)
  | fault (s : S) (next : R s → Prog S R T ε α) (err : Prog S R T ε α) :
      Advances a (.op s next err) (.fault a) (some err)
  | abort (t : T) (next err : Prog S R T ε α) : Advances a (.commit t next err) (.fault a) (some err)
  | crash (p : Prog S R T ε α) : Advances a p (.crash a) none

/-- The program that process `i` has left, with its request. -/
def Sys.program (c : Sys S R T ε α Q W K H) (i : Nat) : Option (Q × Prog S R T ε α) :=
  (c.procs i).map fun p => (p.req, p.prog)

/-- The notes of a step. -/
def Machine.noted (m : Machine S R T ε α Q W K E H) (l : Label S R T α Q E) (w : W) :
    List (Nat × H) :=
  match l with
  | .event a x => m.entries a x w
  | _ => []

section Steps

variable {m : Machine S R T ε α Q W K E H} {ch : Choice Q E} {l : Label S R T α Q E}
  {c c' : Sys S R T ε α Q W K H} {i : Nat}

theorem Sys.program_update {procs : Nat → Option (Proc S R T ε α Q W)}
    {rest : Option (Proc S R T ε α Q W)} (hprocs : c'.procs = Function.update procs i rest) :
    c'.program i = rest.map (fun p => (p.req, p.prog)) ∧
      ∀ j, j ≠ i → c'.program j = (procs j).map fun p => (p.req, p.prog) := by
  refine ⟨?_, fun j hj => ?_⟩
  · simp [Sys.program, hprocs]
  · simp [Sys.program, hprocs, hj]

/-- The notes of a step are those of the process that takes it. -/
theorem Machine.own_noted (l : Label S R T α Q E) (w : W) {j : Nat}
    (h : ∀ a, l.actor? = some a → a.pid ≠ j) : own j (m.noted l w) = [] := by
  cases l with
  | event a x => exact own_entries_of_ne (Ne.symm (h a rfl))
  | _ => rfl

theorem Prog.Advances.actor {a : Actor Q} {p : Prog S R T ε α} {rest : Option (Prog S R T ε α)}
    (h : p.Advances a l rest) : ∀ b, l.actor? = some b → b = a := by
  cases h <;> intro b hb <;> first | exact (Option.some.inj hb).symm | exact absurd hb (by simp [Label.actor?])

/-- The other processes' notes are untouched by a step. -/
theorem Prog.Advances.own_hist {i j : Nat} {q : Q} {p : Prog S R T ε α}
    {w : W} {rest : Option (Prog S R T ε α)} {hist hist' : List (Nat × H)} (h : p.Advances ⟨i, q⟩ l rest)
    (hhist : hist' = m.noted l w ++ hist) (hj : j ≠ i) : own j hist' = own j hist := by
  rw [hhist, own_append, Machine.own_noted l w fun b hb => ?_, List.nil_append]
  rw [h.actor b hb]
  exact Ne.symm hj

theorem faultProc_advances {p : Proc S R T ε α Q W}
    (h : faultProc (E := E) i p c = some (l, c')) :
    ∃ rest : Option (Proc S R T ε α Q W), c'.procs = Function.update c.procs i rest ∧
      (∀ q ∈ rest, q.req = p.req) ∧ p.prog.Advances ⟨i, p.req⟩ l (rest.map Proc.prog) ∧
      c'.nextPid = c.nextPid ∧ c'.glob.hist = c.glob.hist ∧ l = .fault ⟨i, p.req⟩ := by
  obtain ⟨q, prog, view⟩ := p
  cases prog with
  | op s next err =>
      simp only [faultProc, Option.some.injEq, Prod.mk.injEq] at h
      obtain ⟨rfl, rfl⟩ := h
      exact ⟨_, rfl, by simp, .fault s next err, rfl, rfl, rfl⟩
  | commit t next err =>
      simp only [faultProc, Option.some.injEq, Prod.mk.injEq] at h
      obtain ⟨rfl, rfl⟩ := h
      exact ⟨_, rfl, by simp, .abort t next err, rfl, rfl, rfl⟩
  | _ => exact absurd h (by simp [faultProc])

variable [DecidableEq K]

/-- What a step of a live process does to the programs. -/
theorem Machine.runProc_advances {p : Proc S R T ε α Q W}
    (h : m.runProc i p c = some (l, c')) :
    ∃ rest : Option (Proc S R T ε α Q W), c'.procs = Function.update c.procs i rest ∧
      (∀ q ∈ rest, q.req = p.req) ∧ p.prog.Advances ⟨i, p.req⟩ l (rest.map Proc.prog) ∧
      c'.nextPid = c.nextPid ∧ c'.glob.hist = m.noted l c.glob.world ++ c.glob.hist := by
  obtain ⟨q, prog, view⟩ := p
  cases prog with
  | op s next err =>
      simp only [Machine.runProc] at h
      split at h
      · simp only [Option.some.injEq, Prod.mk.injEq] at h
        obtain ⟨rfl, rfl⟩ := h
        exact ⟨_, rfl, by simp, .stmt s next err _, rfl, rfl⟩
      · exact absurd h (by simp)
  | _ =>
      simp only [Machine.runProc, Option.some.injEq, Prod.mk.injEq] at h
      obtain ⟨rfl, rfl⟩ := h
      exact ⟨_, rfl, by simp, by constructor, rfl, rfl⟩

/-- The three kinds of steps, as far as programs and notes are concerned. -/
theorem Machine.move_program (h : m.move ch c = some (l, c')) :
    (∃ q, l = .spawn q ∧ c'.program c.nextPid = some (q, m.code c.nextPid q) ∧
      (∀ j, j ≠ c.nextPid → c'.program j = c.program j) ∧ c'.nextPid = c.nextPid + 1 ∧
      c'.glob = c.glob) ∨
    (∃ e, l = .env e ∧ (∀ j, c'.program j = c.program j) ∧ c'.nextPid = c.nextPid ∧
      c'.glob.hist = c.glob.hist) ∨
    ∃ i q p rest, c.program i = some (q, p) ∧ p.Advances ⟨i, q⟩ l rest ∧
      c'.program i = rest.map (fun p' => (q, p')) ∧
      (∀ j, j ≠ i → c'.program j = c.program j) ∧ c'.nextPid = c.nextPid ∧
      c'.glob.hist = m.noted l c.glob.world ++ c.glob.hist := by
  have hlive : ∀ (i : Nat) (p : Proc S R T ε α Q W) (rest : Option (Proc S R T ε α Q W)),
      c.procs i = some p → c'.procs = Function.update c.procs i rest → (∀ q ∈ rest, q.req = p.req) →
      c.program i = some (p.req, p.prog) ∧
        c'.program i = (rest.map Proc.prog).map (fun p' => (p.req, p')) ∧
        ∀ j, j ≠ i → c'.program j = c.program j := by
    intro i p rest hp hprocs hreq
    obtain ⟨hself, hothers⟩ := Sys.program_update hprocs
    refine ⟨by simp [Sys.program, hp], ?_, hothers⟩
    rw [hself]
    cases rest with
    | none => rfl
    | some q => simp [hreq q rfl]
  cases ch with
  | spawn q =>
      simp only [Machine.move, Option.some.injEq, Prod.mk.injEq] at h
      obtain ⟨rfl, rfl⟩ := h
      exact Or.inl ⟨q, rfl, by simp [Sys.program], fun j hj => by simp [Sys.program, hj], rfl, rfl⟩
  | run i =>
      obtain ⟨p, hp, hrun⟩ := Option.bind_eq_some_iff.mp h
      obtain ⟨rest, hprocs, hreq, hadvances, hnext, hhist⟩ := Machine.runProc_advances hrun
      obtain ⟨hbefore, hafter, hothers⟩ := hlive i p rest hp hprocs hreq
      exact Or.inr (Or.inr ⟨i, p.req, p.prog, _, hbefore, hadvances, hafter, hothers, hnext, hhist⟩)
  | fault i =>
      obtain ⟨p, hp, hrun⟩ := Option.bind_eq_some_iff.mp h
      obtain ⟨rest, hprocs, hreq, hadvances, hnext, hhist, rfl⟩ := faultProc_advances hrun
      obtain ⟨hbefore, hafter, hothers⟩ := hlive i p rest hp hprocs hreq
      exact Or.inr (Or.inr ⟨i, p.req, p.prog, _, hbefore, hadvances, hafter, hothers, hnext, hhist⟩)
  | crash i =>
      obtain ⟨p, hp, hrun⟩ := Option.bind_eq_some_iff.mp h
      simp only [Option.some.injEq, Prod.mk.injEq] at hrun
      obtain ⟨rfl, rfl⟩ := hrun
      obtain ⟨hbefore, hafter, hothers⟩ := hlive i p none hp rfl (by simp)
      exact Or.inr (Or.inr ⟨i, p.req, p.prog, none, hbefore, .crash _, hafter, hothers, rfl, rfl⟩)
  | env e =>
      simp only [Machine.move, Option.some.injEq, Prod.mk.injEq] at h
      obtain ⟨rfl, rfl⟩ := h
      exact Or.inr (Or.inl ⟨e, rfl, fun _ => rfl, rfl, rfl⟩)

/-- An event is one of a live program. -/
theorem Machine.move_actor {a : Actor Q} {x : Event S R T α}
    (h : m.move ch c = some (.event a x, c')) :
    ∃ p rest, c.program a.pid = some (a.req, p) ∧
      p.Advances (E := E) a (.event a x) rest := by
  obtain ⟨q, hl, -⟩ | ⟨e, hl, -⟩ | ⟨i, q, p, rest, hp, hadvances, -⟩ := Machine.move_program h
  · exact absurd hl (by simp)
  · exact absurd hl (by simp)
  · obtain rfl : a = ⟨i, q⟩ := hadvances.actor a rfl
    exact ⟨p, rest, hp, hadvances⟩

/-- A step adds its notes to the history. -/
theorem Machine.move_hist (h : m.move ch c = some (l, c')) :
    c'.glob.hist = m.noted l c.glob.world ++ c.glob.hist := by
  obtain ⟨q, rfl, -, -, -, hglob⟩ | ⟨e, rfl, -, -, hhist⟩ | ⟨i, q, p, rest, -, -, -, -, -, hhist⟩ :=
    Machine.move_program h
  · rw [hglob]
    rfl
  · exact hhist
  · exact hhist

end Steps

section Runs

variable [DecidableEq K] {m : Machine S R T ε α Q W K E H} {ok : Label S R T α Q E → Glob W H → Bool}
  {c c₀ : Sys S R T ε α Q W K H} {cs : List (Choice Q E)} {w : W}

/-- What holds at the start and is kept by every allowed step of an allowed run. -/
theorem Machine.exec_induction {I : Sys S R T ε α Q W K H → Prop} (hstart : I c₀)
    (hstep : ∀ cs c ch l c', m.exec ok cs c₀ = some c → I c → m.move ch c = some (l, c') →
      ok l c.glob = true → I c')
    (h : m.exec ok cs c₀ = some c) : I c := by
  have hrest : ∀ ds pre d, m.exec ok pre c₀ = some d → I d → m.exec ok ds d = some c → I c := by
    intro ds
    induction ds with
    | nil =>
        intro pre d _ hd hds
        rw [Machine.exec, Option.some.injEq] at hds
        exact hds ▸ hd
    | cons ch rest ih =>
        intro pre d hpre hd hds
        obtain ⟨l, d', hmove, hok, hrest⟩ := Machine.exec_cons hds
        refine ih (pre ++ [ch]) d' ?_ (hstep pre d ch l d' hpre hd hmove hok) hrest
        rw [Machine.exec_append hpre]
        simp [Machine.exec, hmove, hok]
  exact hrest cs [] c₀ rfl hstart h

/-- The same, of the choices made so far and the state they lead to. -/
theorem Machine.exec_choices_induction {I : List (Choice Q E) → Sys S R T ε α Q W K H → Prop}
    (hstart : I [] c₀)
    (hstep : ∀ cs c ch l c', m.exec ok cs c₀ = some c → I cs c → m.move ch c = some (l, c') →
      ok l c.glob = true → I (cs ++ [ch]) c')
    (h : m.exec ok cs c₀ = some c) : I cs c := by
  have hrest : ∀ ds pre d, m.exec ok pre c₀ = some d → I pre d → m.exec ok ds d = some c →
      I (pre ++ ds) c := by
    intro ds
    induction ds with
    | nil =>
        intro pre d _ hd hds
        rw [Machine.exec, Option.some.injEq] at hds
        rw [List.append_nil]
        exact hds ▸ hd
    | cons ch rest ih =>
        intro pre d hpre hd hds
        obtain ⟨l, d', hmove, hok, hrest⟩ := Machine.exec_cons hds
        have hnext := ih (pre ++ [ch]) d' (by
          rw [Machine.exec_append hpre]
          simp [Machine.exec, hmove, hok]) (hstep pre d ch l d' hpre hd hmove hok) hrest
        rwa [List.append_assoc, List.singleton_append] at hnext
  exact hrest cs [] c₀ rfl hstart h

/-- The history only grows. -/
theorem Machine.exec_hist (h : m.exec ok cs c₀ = some c) : c₀.glob.hist <:+ c.glob.hist := by
  refine Machine.exec_induction (I := fun c => c₀.glob.hist <:+ c.glob.hist)
    (List.suffix_refl _) (fun _ c ch l c' _ hsuffix hmove _ => ?_) h
  rw [Machine.move_hist hmove]
  exact hsuffix.trans (List.suffix_append _ _)

/-- A process that has noted nothing has noted nothing before. -/
theorem own_nil_of_suffix {hist hist' : List (Nat × H)} {i : Nat} (h : hist <:+ hist')
    (hnil : own i hist' = []) : own i hist = [] := by
  obtain ⟨new, rfl⟩ := h
  rw [own_append, List.append_eq_nil_iff] at hnil
  exact hnil.2

/-- A run under one condition is a run under a weaker one. -/
theorem Machine.exec_mono {ok' : Label S R T α Q E → Glob W H → Bool}
    (hok : ∀ l g, ok l g = true → ok' l g = true) (h : m.exec ok cs c₀ = some c) :
    m.exec ok' cs c₀ = some c := by
  induction cs generalizing c₀ with
  | nil => exact h
  | cons ch rest ih =>
      obtain ⟨l, d, hmove, hl, hrest⟩ := Machine.exec_cons h
      rw [Machine.exec]
      simpa [hmove, hok _ _ hl] using ih hrest

/-- Process ids that have not been given out are not in use. -/
theorem Machine.exec_unused (h : m.exec ok cs (Sys.start w) = some c) :
    ∀ i, c.nextPid ≤ i → c.program i = none ∧ own i c.glob.hist = [] := by
  refine Machine.exec_invariant
    (fun c => ∀ i, c.nextPid ≤ i → c.program i = none ∧ own i c.glob.hist = []) ?_ h
    fun _ _ => ⟨rfl, rfl⟩
  intro ch c l c' hunused hmove _ j hj
  obtain ⟨q, rfl, -, hothers, hnext, hglob⟩ | ⟨e, rfl, hsame, hnext, hhist⟩ |
      ⟨i, q, p, rest, hp, hadvances, -, hothers, hnext, hhist⟩ := Machine.move_program hmove
  · rw [hothers j (by omega), hglob]
    exact hunused j (by omega)
  · rw [hsame j, hhist]
    exact hunused j (by omega)
  · have hne : j ≠ i := by
      rintro rfl
      rw [(hunused j (by omega)).1] at hp
      exact absurd hp (by simp)
    rw [hothers j hne, hadvances.own_hist hhist hne]
    exact hunused j (by omega)

/-- Every live program satisfies, together with the notes of its process, what every
program satisfies at first and every allowed step of it keeps. -/
theorem Machine.exec_programs {P : Actor Q → Prog S R T ε α → List H → Prop}
    (hstart : ∀ i q, P ⟨i, q⟩ (m.code i q) [])
    (hstep : ∀ a p l rest (g : Glob W H), P a p (own a.pid g.hist) → p.Advances a l (some rest) →
      ok l g = true → P a rest (own a.pid (m.noted l g.world ++ g.hist)))
    (h : m.exec ok cs (Sys.start w) = some c) :
    ∀ i q p, c.program i = some (q, p) → P ⟨i, q⟩ p (own i c.glob.hist) := by
  refine Machine.exec_induction (I := fun c => ∀ i q p, c.program i = some (q, p) →
    P ⟨i, q⟩ p (own i c.glob.hist)) (fun _ _ _ h => absurd h (by simp [Sys.program, Sys.start])) ?_ h
  intro cs c ch l c' hrun hprograms hmove hok j q' p' hp'
  obtain ⟨q, rfl, hnew, hothers, -, hglob⟩ | ⟨e, rfl, hsame, -, hhist⟩ |
      ⟨i, q, p, rest, hp, hadvances, hself, hothers, -, hhist⟩ := Machine.move_program hmove
  · by_cases hj : j = c.nextPid
    · subst hj
      obtain ⟨rfl, rfl⟩ : q = q' ∧ m.code c.nextPid q = p' := by
        simpa using hnew.symm.trans hp'
      rw [hglob, (Machine.exec_unused hrun _ (Nat.le_refl _)).2]
      exact hstart _ _
    · rw [hglob]
      exact hprograms j q' p' ((hothers j hj).symm.trans hp')
  · rw [hhist]
    exact hprograms j q' p' ((hsame j).symm.trans hp')
  · by_cases hj : j = i
    · subst hj
      rw [hself] at hp'
      obtain ⟨p'', rfl, hpair⟩ := Option.map_eq_some_iff.mp hp'
      obtain ⟨rfl, rfl⟩ : q = q' ∧ p'' = p' := by simpa using hpair
      rw [hhist]
      exact hstep _ _ _ _ c.glob (hprograms j q p hp) hadvances hok
    · rw [hadvances.own_hist hhist hj]
      exact hprograms j q' p' ((hothers j hj).symm.trans hp')

end Runs

section Delivering

variable {F : β → Prop}

/-- Unless a node fails or a transaction is rolled back, the program ends in a value
that satisfies `F`. -/
def Prog.Delivers : Prog S R T ε β → (β → Prop) → Prop
  | .ret x, F => F x
  | .fail _, _ => False
  | .op _ next _, F => ∀ r, (next r).Delivers F
  | .begin next, F => next.Delivers F
  | .commit _ next _, F => next.Delivers F
  | .rollback _, _ => True

theorem Prog.Delivers.bind {p : Prog S R T ε β} {f : β → Prog S R T ε γ} {F : γ → Prop}
    (h : p.Delivers fun x => (f x).Delivers F) : (p.bind f).Delivers F := by
  induction p with
  | ret x => exact h
  | fail e => exact h.elim
  | op s next err ihn _ => exact fun r => ihn r (h r)
  | begin next ih => exact ih h
  | commit t next err ihn _ => exact ihn h
  | rollback next _ => trivial

/-- Nothing is thrown, so nothing is caught. -/
theorem Prog.Delivers.orElse {p : Prog S R T ε β} {handler : ε → Prog S R T ε β}
    (h : p.Delivers F) : (p.orElse handler).Delivers F := by
  induction p with
  | ret x => exact h
  | fail e => exact h.elim
  | op s next err ihn _ => exact fun r => ihn r (h r)
  | begin next ih => exact ih h
  | commit t next err ihn _ => exact ihn h
  | rollback next _ => trivial

/-- A transaction delivers: if its body throws it is rolled back. -/
theorem delivers_transaction [Inhabited ε] {tag : β → T} {body : Prog S R T ε β}
    (h : ∀ x, F x) : (transaction tag body).Delivers F := by
  change (body.seal tag).Delivers F
  induction body with
  | ret x => exact h x
  | fail e => trivial
  | op s next err ihn _ => exact fun r => ihn r
  | begin next ih => exact ih
  | commit t next err ihn _ => exact ihn
  | rollback next _ => trivial

/-- A program that delivers goes on delivering, or ends in its answer. -/
theorem Prog.Delivers.advances {p : Prog S R T ε α} {a : Actor Q} {l : Label S R T α Q E}
    {rest : Option (Prog S R T ε α)} {F : α → Prop} (h : p.Delivers F) (hstep : p.Advances a l rest)
    (hfault : l ≠ .fault a) (hcrash : l ≠ .crash a) (hrollback : l ≠ .rollback a) :
    (∃ p', rest = some p' ∧ p'.Delivers F) ∨ rest = none ∧ ∃ x, l = .event a (.reply x) ∧ F x := by
  cases hstep with
  | reply x => exact Or.inr ⟨rfl, x, rfl, h⟩
  | error e => exact h.elim
  | stmt s next err r => exact Or.inl ⟨_, rfl, h r⟩
  | begin next => exact Or.inl ⟨_, rfl, h⟩
  | commit t next err => exact Or.inl ⟨_, rfl, h⟩
  | rollback next => exact absurd rfl hrollback
  | fault s next err => exact absurd rfl hfault
  | abort t next err => exact absurd rfl hfault
  | crash p => exact absurd rfl hcrash

end Delivering

section Committing

/-- The program answers in `F` or throws in `G`, whatever happens to it. -/
def Prog.Leaves : Prog S R T ε β → (β → Prop) → (ε → Prop) → Prop
  | .ret x, F, _ => F x
  | .fail e, _, G => G e
  | .op _ next err, F, G => (∀ r, (next r).Leaves F G) ∧ err.Leaves F G
  | .begin next, F, G => next.Leaves F G
  | .commit _ next err, F, G => next.Leaves F G ∧ err.Leaves F G
  | .rollback next, F, G => next.Leaves F G

/-- Once it has committed, the program answers in `F` or throws in `G`. -/
def Prog.AfterCommit : Prog S R T ε β → (β → Prop) → (ε → Prop) → Prop
  | .ret _, _, _ => True
  | .fail _, _, _ => True
  | .op _ next err, F, G => (∀ r, (next r).AfterCommit F G) ∧ err.AfterCommit F G
  | .begin next, F, G => next.AfterCommit F G
  | .commit _ next err, F, G => next.Leaves F G ∧ err.AfterCommit F G
  | .rollback next, F, G => next.AfterCommit F G

variable {F : β → Prop} {G : ε → Prop}

theorem Prog.Leaves.bind {p : Prog S R T ε β} {f : β → Prog S R T ε γ} {F : γ → Prop}
    (hp : p.Leaves (fun x => (f x).Leaves F G) G) : (p.bind f).Leaves F G := by
  induction p with
  | ret x => exact hp
  | fail e => exact hp
  | op s next err ihn ihe => exact ⟨fun r => ihn r (hp.1 r), ihe hp.2⟩
  | begin next ih => exact ih hp
  | commit t next err ihn ihe => exact ⟨ihn hp.1, ihe hp.2⟩
  | rollback next ih => exact ih hp

theorem Prog.Leaves.orElse {p : Prog S R T ε β} {handler : ε → Prog S R T ε β}
    (hp : p.Leaves F fun e => (handler e).Leaves F G) : (p.orElse handler).Leaves F G := by
  induction p with
  | ret x => exact hp
  | fail e => exact hp
  | op s next err ihn ihe => exact ⟨fun r => ihn r (hp.1 r), ihe hp.2⟩
  | begin next ih => exact ih hp
  | commit t next err ihn ihe => exact ⟨ihn hp.1, ihe hp.2⟩
  | rollback next ih => exact ih hp

/-- Nothing is asked of the end. -/
theorem Prog.leaves_true (p : Prog S R T ε β) : p.Leaves (fun _ => True) fun _ => True := by
  induction p with
  | ret x => trivial
  | fail e => trivial
  | op s next err ihn ihe => exact ⟨ihn, ihe⟩
  | begin next ih => exact ih
  | commit t next err ihn ihe => exact ⟨ihn, ihe⟩
  | rollback next ih => exact ih

/-- Weaker ends. -/
theorem Prog.Leaves.mono {p : Prog S R T ε β} {F' : β → Prop} {G' : ε → Prop} (h : p.Leaves F G)
    (hF : ∀ x, F x → F' x) (hG : ∀ e, G e → G' e) : p.Leaves F' G' := by
  induction p with
  | ret x => exact hF x h
  | fail e => exact hG e h
  | op s next err ihn ihe => exact ⟨fun r => ihn r (h.1 r), ihe h.2⟩
  | begin next ih => exact ih h
  | commit t next err ihn ihe => exact ⟨ihn h.1, ihe h.2⟩
  | rollback next ih => exact ih h

theorem Prog.AfterCommit.bind {p : Prog S R T ε β} {f : β → Prog S R T ε γ} {F : γ → Prop}
    (hp : p.AfterCommit (fun x => (f x).Leaves F G) G) (hf : ∀ x, (f x).AfterCommit F G) :
    (p.bind f).AfterCommit F G := by
  induction p with
  | ret x => exact hf x
  | fail e => trivial
  | op s next err ihn ihe => exact ⟨fun r => ihn r (hp.1 r), ihe hp.2⟩
  | begin next ih => exact ih hp
  | commit t next err ihn ihe => exact ⟨hp.1.bind, ihe hp.2⟩
  | rollback next ih => exact ih hp

theorem Prog.AfterCommit.orElse {p : Prog S R T ε β} {handler : ε → Prog S R T ε β}
    (hp : p.AfterCommit F fun e => (handler e).Leaves F G)
    (hhandler : ∀ e, (handler e).AfterCommit F G) : (p.orElse handler).AfterCommit F G := by
  induction p with
  | ret x => trivial
  | fail e => exact hhandler e
  | op s next err ihn ihe => exact ⟨fun r => ihn r (hp.1 r), ihe hp.2⟩
  | begin next ih => exact ih hp
  | commit t next err ihn ihe => exact ⟨hp.1.orElse, ihe hp.2⟩
  | rollback next ih => exact ih hp

/-- A statement and what follows it. -/
theorem Prog.afterCommit_perform_bind [Inhabited ε] {s : S} {f : R s → Prog S R T ε β} :
    ((perform s : Prog S R T ε (R s)).bind f).AfterCommit F G ↔ ∀ r, (f r).AfterCommit F G := by
  simp [Prog.AfterCommit]

/-- Nothing is asked of the end. -/
theorem Prog.afterCommit_true (p : Prog S R T ε β) :
    p.AfterCommit (fun _ => True) fun _ => True := by
  induction p with
  | ret x => trivial
  | fail e => trivial
  | op s next err ihn ihe => exact ⟨ihn, ihe⟩
  | begin next ih => exact ih
  | commit t next err ihn ihe => exact ⟨next.leaves_true, ihe⟩
  | rollback next ih => exact ih

/-- Weaker ends. -/
theorem Prog.AfterCommit.mono {p : Prog S R T ε β} {F' : β → Prop} {G' : ε → Prop}
    (h : p.AfterCommit F G) (hF : ∀ x, F x → F' x) (hG : ∀ e, G e → G' e) :
    p.AfterCommit F' G' := by
  induction p with
  | ret x => trivial
  | fail e => trivial
  | op s next err ihn ihe => exact ⟨fun r => ihn r (h.1 r), ihe h.2⟩
  | begin next ih => exact ih h
  | commit t next err ihn ihe => exact ⟨h.1.mono hF hG, ihe h.2⟩
  | rollback next ih => exact ih h

/-- A program without transactions commits nothing. -/
theorem Prog.Every.afterCommit {Out : S → Prop} {p : Prog S R T ε β} (h : p.Every Out) :
    p.AfterCommit F G := by
  induction p with
  | ret x => trivial
  | fail e => trivial
  | op s next err ihn ihe => exact ⟨fun r => ihn r (h.2.1 r), ihe h.2.2⟩
  | begin next ih => exact h.elim
  | commit t next err ihn ihe => exact h.elim
  | rollback next ih => exact h.elim

/-- A transaction: its commit is followed by its value. -/
theorem afterCommit_transaction [Inhabited ε] {Out : S → Prop} {tag : β → T}
    {body : Prog S R T ε β} (hbody : body.Every Out) (h : ∀ x, F x) :
    (transaction tag body).AfterCommit F G := by
  change (body.seal tag).AfterCommit F G
  induction body with
  | ret x => exact ⟨h x, trivial⟩
  | fail e => trivial
  | op s next err ihn ihe => exact ⟨fun r => ihn r (hbody.2.1 r), ihe hbody.2.2⟩
  | begin next ih => exact hbody.elim
  | commit t next err ihn ihe => exact hbody.elim
  | rollback next ih => exact hbody.elim

/-- The next node of a program that leaves in a certain way, and of one that does so
once it has committed. -/
theorem Prog.Leaves.advances {p : Prog S R T ε α} {a : Actor Q} {l : Label S R T α Q E}
    {rest : Prog S R T ε α} {F : α → Prop} (h : p.Leaves F G) (hstep : p.Advances a l (some rest)) :
    rest.Leaves F G := by
  cases hstep with
  | stmt s next err r => exact h.1 r
  | begin next => exact h
  | commit t next err => exact h.1
  | rollback next => exact h
  | fault s next err => exact h.2
  | abort t next err => exact h.2

theorem Prog.AfterCommit.advances {p : Prog S R T ε α} {a : Actor Q} {l : Label S R T α Q E}
    {rest : Prog S R T ε α} {F : α → Prop} (h : p.AfterCommit F G)
    (hstep : p.Advances a l (some rest)) :
    ((∀ t, l ≠ .event a (.commit t)) ∧ rest.AfterCommit F G) ∨ rest.Leaves F G := by
  cases hstep with
  | stmt s next err r => exact Or.inl ⟨by simp, h.1 r⟩
  | begin next => exact Or.inl ⟨by simp, h⟩
  | commit t next err => exact Or.inr h.1
  | rollback next => exact Or.inl ⟨by simp, h⟩
  | fault s next err => exact Or.inl ⟨by simp, h.2⟩
  | abort t next err => exact Or.inl ⟨by simp, h.2⟩

variable [DecidableEq K] {m : Machine S R T ε α Q W K E H} {ok : Label S R T α Q E → Glob W H → Bool}
  {c : Sys S R T ε α Q W K H} {cs : List (Choice Q E)} {w : W}

/-- A process with notes on nothing but its commits is still to commit, or will leave in
the way it leaves after a commit. -/
theorem Machine.exec_uncommitted {F : Q → α → Prop} {G : Q → ε → Prop}
    (hnote : ∀ a x w, (∀ t, x ≠ .commit t) → m.note a x w = [])
    (hcode : ∀ i q, (m.code i q).AfterCommit (F q) (G q))
    (h : m.exec ok cs (Sys.start w) = some c) :
    ∀ i q p, c.program i = some (q, p) → own i c.glob.hist = [] ∨ p.Leaves (F q) (G q) := by
  have hprograms := Machine.exec_programs
    (P := fun a p ns => (ns = [] ∧ p.AfterCommit (F a.req) (G a.req)) ∨ p.Leaves (F a.req) (G a.req))
    (fun i q => Or.inl ⟨rfl, hcode i q⟩) ?_ h
  · exact fun i q p hp => (hprograms i q p hp).imp And.left id
  · rintro a p l rest g (⟨hns, hafter⟩ | hleaves) hstep -
    · obtain ⟨hcommit, hrest⟩ | hrest := hafter.advances hstep
      · refine Or.inl ⟨?_, hrest⟩
        have hnoted : m.noted l g.world = [] := by
          cases l with
          | event b x =>
              obtain rfl := hstep.actor b rfl
              have hnone := hnote b x g.world fun t hx => hcommit t (by rw [hx])
              simp [Machine.noted, Machine.entries, hnone]
          | _ => rfl
        rw [hnoted, List.nil_append, hns]
      · exact Or.inr hrest
    · exact Or.inr (hleaves.advances hstep)

end Committing

end Interleave
