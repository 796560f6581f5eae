import OpenUnion.Interleave.Progress
import OpenUnion.Interleave.Traces

/-!
# Requests without transactions

When no request opens a transaction, every statement commits by itself, and a run is a
sequence of statements and answers of its requests with moves of the outside in between.
What a request does is then said by `Prog.Tells`: each of its statements, and its answer, is
one that its own notes allow.

* `Autostep` lists what a step of such a run is.
* `Machine.exec_autostep`: every step of a run is one of these.
* `Machine.exec_autocommit`: an invariant of state and history that they keep holds in every
  state reached, and `Machine.exec_autocommit_rel` relates any two states of a run.
* `ChangedBy`: an observation changes only by statements of a kind.
* `Along`: what holds of every note together with those before it.
* `HoldsSince`: what a note establishes and only notes of some kind undo.
-/

namespace Interleave

variable {S : Type} {R : S → Type} {T ε α Q W K E H : Type}

/-- A step of a run of requests without transactions.  `Out` says which statements the notes
of a request allow, and `F` which answers. -/
inductive Autostep (m : Machine S R T ε α Q W K E H) (Out : Q → List H → S → Prop)
    (F : Q → α → List H → Prop) : Label S R T α Q E → Glob W H → Glob W H → Prop where
  | stmt (a : Actor Q) (s : S) (busy : K → Bool) (g : Glob W H)
      (hout : Out a.req (own a.pid g.hist) s) :
      Autostep m Out F (.event a (.stmt s (m.engine.result s busy g.world))) g
        (m.afterStmt a s busy none g)
  | reply (a : Actor Q) (x : α) (g : Glob W H) (hx : F a.req x (own a.pid g.hist)) :
      Autostep m Out F (.event a (.reply x)) g (m.record a (.reply x) g)
  | env (e : E) (g : Glob W H) :
      Autostep m Out F (.env e) g { g with world := m.env e g.world }
  | idle (l : Label S R T α Q E) (g : Glob W H) (hevent : ∀ a x, l ≠ .event a x)
      (henv : ∀ e, l ≠ .env e) : Autostep m Out F l g g

section Runs

variable {m : Machine S R T ε α Q W K E H} {Out : Q → List H → S → Prop}
  {F : Q → α → List H → Prop} {c c' d : Sys S R T ε α Q W K H}

/-- The live programs have no transaction open and go on as their notes allow. -/
def Sys.Telling (m : Machine S R T ε α Q W K E H) (Out : Q → List H → S → Prop)
    (F : Q → α → List H → Prop) (c : Sys S R T ε α Q W K H) : Prop :=
  ∀ i p, c.procs i = some p → p.view = none ∧
    p.prog.Tells m ⟨i, p.req⟩ (Out p.req) (F p.req) (fun _ _ => True) (own i c.glob.hist)

/-- Only the process that takes a step, and its notes, change. -/
theorem Sys.Telling.update {i : Nat} {rest : Option (Proc S R T ε α Q W)} (h : c.Telling m Out F)
    (hprocs : c'.procs = Function.update c.procs i rest)
    (hhist : ∀ j, j ≠ i → own j c'.glob.hist = own j c.glob.hist)
    (hrest : ∀ p, rest = some p → p.view = none ∧
      p.prog.Tells m ⟨i, p.req⟩ (Out p.req) (F p.req) (fun _ _ => True) (own i c'.glob.hist)) :
    c'.Telling m Out F := by
  intro j p hp
  rw [hprocs] at hp
  by_cases hj : j = i
  · subst hj
    rw [Function.update_self] at hp
    exact hrest p hp
  · rw [Function.update_of_ne hj] at hp
    rw [hhist j hj]
    exact h j p hp

variable [DecidableEq K] {ok : Label S R T α Q E → Glob W H → Bool} {ch : Choice Q E}
  {l : Label S R T α Q E}

/-- A step of a live program. -/
theorem Sys.Telling.runProc {i : Nat} {p : Proc S R T ε α Q W} (h : c.Telling m Out F)
    (hp : c.procs i = some p) (hrun : m.runProc i p c = some (l, c')) :
    Autostep m Out F l c.glob c'.glob ∧ c'.Telling m Out F := by
  obtain ⟨hview, htells⟩ := h i p hp
  obtain ⟨q, prog, view⟩ := p
  obtain rfl : view = none := hview
  have hothers : ∀ (x : Event S R T α) j, j ≠ i →
      own j (m.entries ⟨i, q⟩ x c.glob.world ++ c.glob.hist) = own j c.glob.hist := by
    intro x j hj
    rw [own_append, own_entries_of_ne hj, List.nil_append]
  cases prog with
  | ret x =>
      simp only [Machine.runProc, Option.some.injEq, Prod.mk.injEq] at hrun
      obtain ⟨rfl, rfl⟩ := hrun
      exact ⟨.reply ⟨i, q⟩ x c.glob htells,
        h.update rfl (hothers _) fun _ hnone => absurd hnone (by simp)⟩
  | fail e =>
      simp only [Machine.runProc, Option.some.injEq, Prod.mk.injEq] at hrun
      obtain ⟨rfl, rfl⟩ := hrun
      exact ⟨.idle _ _ (by simp) (by simp),
        h.update rfl (fun _ _ => rfl) fun _ hnone => absurd hnone (by simp)⟩
  | op s next err =>
      simp only [Machine.runProc] at hrun
      split at hrun
      · simp only [Option.some.injEq, Prod.mk.injEq] at hrun
        obtain ⟨rfl, rfl⟩ := hrun
        refine ⟨.stmt ⟨i, q⟩ s (busyFor c.held i) c.glob htells.1,
          h.update rfl (hothers _) fun p' hp' => ?_⟩
        obtain rfl := Option.some.inj hp'
        refine ⟨rfl, ?_⟩
        have hown : own i (m.afterStmt ⟨i, q⟩ s (busyFor c.held i) none c.glob).hist =
            m.note ⟨i, q⟩ (.stmt s (m.engine.result s (busyFor c.held i) c.glob.world))
              c.glob.world ++ own i c.glob.hist := by
          change own i (m.entries ⟨i, q⟩ _ c.glob.world ++ c.glob.hist) = _
          rw [own_append]
          exact congrArg (· ++ own i c.glob.hist) own_map_self
        change (next _).Tells m ⟨i, q⟩ (Out q) (F q) (fun _ _ => True)
          (own i (m.afterStmt ⟨i, q⟩ s (busyFor c.held i) none c.glob).hist)
        rw [hown]
        exact htells.2.1 (busyFor c.held i) c.glob.world
      · exact absurd hrun (by simp)
  | begin next => exact htells.elim
  | commit t next err => exact htells.elim
  | rollback next => exact htells.elim

/-- A step of a system of such programs. -/
theorem Sys.Telling.move
    (hcode : ∀ i q, (m.code i q).Tells m ⟨i, q⟩ (Out q) (F q) (fun _ _ => True) [])
    (h : c.Telling m Out F) (hnew : own c.nextPid c.glob.hist = [])
    (hmove : m.move ch c = some (l, c')) :
    Autostep m Out F l c.glob c'.glob ∧ c'.Telling m Out F := by
  cases ch with
  | spawn q =>
      simp only [Machine.move, Option.some.injEq, Prod.mk.injEq] at hmove
      obtain ⟨rfl, rfl⟩ := hmove
      refine ⟨.idle _ _ (by simp) (by simp), h.update rfl (fun _ _ => rfl) fun p hp => ?_⟩
      obtain rfl := Option.some.inj hp
      refine ⟨rfl, ?_⟩
      change (m.code c.nextPid q).Tells m _ _ _ _ (own c.nextPid c.glob.hist)
      rw [hnew]
      exact hcode c.nextPid q
  | run i =>
      obtain ⟨p, hp, hrun⟩ := Option.bind_eq_some_iff.mp hmove
      exact h.runProc hp hrun
  | fault i =>
      obtain ⟨p, hp, hfault⟩ := Option.bind_eq_some_iff.mp hmove
      obtain ⟨hview, htells⟩ := h i p hp
      obtain ⟨q, prog, view⟩ := p
      cases prog with
      | op s next err =>
          simp only [faultProc, Option.some.injEq, Prod.mk.injEq] at hfault
          obtain ⟨rfl, rfl⟩ := hfault
          refine ⟨.idle _ _ (by simp) (by simp), h.update rfl (fun _ _ => rfl) fun p' hp' => ?_⟩
          obtain rfl := Option.some.inj hp'
          exact ⟨hview, htells.2.2⟩
      | commit t next err => exact htells.elim
      | ret x => exact absurd hfault (by simp [faultProc])
      | fail e => exact absurd hfault (by simp [faultProc])
      | begin next => exact htells.elim
      | rollback next => exact htells.elim
  | crash i =>
      obtain ⟨p, hp, hcrash⟩ := Option.bind_eq_some_iff.mp hmove
      simp only [Option.some.injEq, Prod.mk.injEq] at hcrash
      obtain ⟨rfl, rfl⟩ := hcrash
      exact ⟨.idle _ _ (by simp) (by simp),
        h.update rfl (fun _ _ => rfl) fun _ hnone => absurd hnone (by simp)⟩
  | env e =>
      simp only [Machine.move, Option.some.injEq, Prod.mk.injEq] at hmove
      obtain ⟨rfl, rfl⟩ := hmove
      exact ⟨.env e c.glob, h⟩

variable {cs cs' : List (Choice Q E)} {w : W}

/-- In every state reached the programs go on as their notes allow. -/
theorem Machine.exec_telling
    (hcode : ∀ i q, (m.code i q).Tells m ⟨i, q⟩ (Out q) (F q) (fun _ _ => True) [])
    (h : m.exec ok cs (Sys.start w) = some c) : c.Telling m Out F := by
  refine Machine.exec_induction (I := fun c => c.Telling m Out F) ?_ ?_ h
  · intro i p hp
    exact absurd hp (by simp [Sys.start])
  · intro ds d ch l d' hrun htelling hmove _
    exact (htelling.move hcode (Machine.exec_unused hrun _ (Nat.le_refl _)).2 hmove).2

/-- Every step after a run is an `Autostep`. -/
theorem Machine.exec_autostep
    (hcode : ∀ i q, (m.code i q).Tells m ⟨i, q⟩ (Out q) (F q) (fun _ _ => True) [])
    (h : m.exec ok cs (Sys.start w) = some c) (hmove : m.move ch c = some (l, c')) :
    Autostep m Out F l c.glob c'.glob :=
  ((Machine.exec_telling hcode h).move hcode (Machine.exec_unused h _ (Nat.le_refl _)).2 hmove).1

/-- An invariant that every allowed step keeps holds in every state reached. -/
theorem Machine.exec_autocommit {I : Glob W H → Prop}
    (hcode : ∀ i q, (m.code i q).Tells m ⟨i, q⟩ (Out q) (F q) (fun _ _ => True) [])
    (hstart : I ⟨[], w⟩)
    (hstep : ∀ l g g', I g → Autostep m Out F l g g' → ok l g = true → I g')
    (h : m.exec ok cs (Sys.start w) = some c) : I c.glob := by
  refine Machine.exec_induction (I := fun c => I c.glob) hstart ?_ h
  intro ds d ch l d' hrun hd hmove hok
  exact hstep l d.glob d'.glob hd (Machine.exec_autostep hcode hrun hmove) hok

/-- What every allowed step keeps, a run keeps from any of its states on. -/
theorem Machine.exec_autocommit_rel {r : Glob W H → Glob W H → Prop} (hrefl : ∀ g, r g g)
    (htrans : ∀ g g' g'', r g g' → r g' g'' → r g g'')
    (hstep : ∀ cs c ch l c', m.exec ok cs (Sys.start w) = some c → m.move ch c = some (l, c') →
      ok l c.glob = true → r c.glob c'.glob)
    (h : m.exec ok cs (Sys.start w) = some c) (h' : m.exec ok cs' c = some d) :
    r c.glob d.glob := by
  induction cs' generalizing cs c with
  | nil =>
      rw [Machine.exec, Option.some.injEq] at h'
      exact h' ▸ hrefl c.glob
  | cons ch rest ih =>
      obtain ⟨l, c₁, hmove, hok, hrest⟩ := Machine.exec_cons h'
      have hc₁ : m.exec ok (cs ++ [ch]) (Sys.start w) = some c₁ := by
        rw [Machine.exec_append h]
        simp [Machine.exec, hmove, hok]
      exact htrans _ _ _ (hstep cs c ch l c₁ h hmove hok) (ih hc₁ hrest)

/-- The history has grown, and what is observed of the state is as before unless a note of the
kind has been made. -/
def ChangedBy {β : Type} (obs : W → β) (kind : H → Prop) (g g' : Glob W H) : Prop :=
  ∃ new, g'.hist = new ++ g.hist ∧ (obs g'.world = obs g.world ∨ ∃ e ∈ new, kind e.2)

theorem ChangedBy.refl {β : Type} {obs : W → β} {kind : H → Prop} (g : Glob W H) :
    ChangedBy obs kind g g :=
  ⟨[], rfl, Or.inl rfl⟩

theorem ChangedBy.trans {β : Type} {obs : W → β} {kind : H → Prop} {g g' g'' : Glob W H}
    (h : ChangedBy obs kind g g') (h' : ChangedBy obs kind g' g'') : ChangedBy obs kind g g'' := by
  obtain ⟨new, hnew, hobs⟩ := h
  obtain ⟨new', hnew', hobs'⟩ := h'
  refine ⟨new' ++ new, by rw [hnew', hnew, List.append_assoc], ?_⟩
  obtain hsame' | ⟨e, he, hkind⟩ := hobs'
  · obtain hsame | ⟨e, he, hkind⟩ := hobs
    · exact Or.inl (hsame'.trans hsame)
    · exact Or.inr ⟨e, List.mem_append_right _ he, hkind⟩
  · exact Or.inr ⟨e, List.mem_append_left _ he, hkind⟩

end Runs

section Histories

variable {P : Nat × H → List (Nat × H) → Prop} {hist later earlier new : List (Nat × H)}
  {e : Nat × H}

/-- `P` holds of every entry of a history, together with the entries before it. -/
def Along (P : Nat × H → List (Nat × H) → Prop) : List (Nat × H) → Prop
  | [] => True
  | e :: earlier => P e earlier ∧ Along P earlier

theorem Along.split (h : Along P hist) (hsplit : hist = later ++ e :: earlier) : P e earlier := by
  induction later generalizing hist with
  | nil =>
      subst hsplit
      exact h.1
  | cons e' later ih =>
      subst hsplit
      exact ih h.2 rfl

/-- Since an entry of a kind `P` holds, or an entry of another kind has come later. -/
def HoldsSince (kind bad : H → Prop) (P : Prop) (hist : List (Nat × H)) : Prop :=
  ∀ later e earlier, hist = later ++ e :: earlier → kind e.2 → P ∨ ∃ n ∈ later, bad n.2

variable {kind bad : H → Prop} {P P' : Prop}

theorem HoldsSince.nil : HoldsSince kind bad P [] :=
  fun _ _ _ hsplit => absurd hsplit (by simp)

theorem HoldsSince.mono (h : HoldsSince kind bad P hist) (hP : P → P') :
    HoldsSince kind bad P' hist :=
  fun later e' earlier hsplit hkind => (h later e' earlier hsplit hkind).imp_left hP

/-- One more entry: one of the kind makes `P` hold, and one that undoes `P` is of the other
kind. -/
theorem HoldsSince.cons (h : HoldsSince kind bad P hist) (hnew : kind e.2 → P')
    (hkeep : P → P' ∨ bad e.2) : HoldsSince kind bad P' (e :: hist) := by
  intro later e' earlier hsplit hkind
  cases later with
  | nil =>
      obtain ⟨rfl, -⟩ := List.cons.inj hsplit
      exact Or.inl (hnew hkind)
  | cons n later =>
      obtain ⟨rfl, hrest⟩ := List.cons.inj hsplit
      obtain hP | ⟨n', hn', hbad⟩ := h later e' earlier hrest hkind
      · obtain hP' | hbad := hkeep hP
        · exact Or.inl hP'
        · exact Or.inr ⟨e, List.mem_cons_self, hbad⟩
      · exact Or.inr ⟨n', List.mem_cons_of_mem _ hn', hbad⟩

end Histories

end Interleave
