import OpenUnion.Interleave.Progress

/-!
# Requests by their stages

A request without transactions that is written down stage by stage: what is left of its program,
together with the notes its process has made.  `Stages` says that the stages lead to each other,
whatever the statements answer, and `Stagestep` lists the steps of a system whose live programs
are all at a stage.

* `Stages.exec_staged`: every live program of a run is at a stage.
* `Stages.exec_step`: every step of a run is a `Stagestep`.
* `Stages.exec_invariant`: what such steps keep holds in every state reached.
* `Stages.exec_live`: a process whose notes leave something to do is live.
-/

namespace Interleave

variable {S : Type} {R : S → Type} {T ε α Q W K E H : Type}

/-- Statements that lock nothing: `result` is what one answers in a state, and `write` the state
it leaves. -/
def Engine.lockless (result : (s : S) → W → R s) (write : S → W → W) : Engine S R W Empty where
  result s _ w := result s w
  locks _ _ _ := []
  write s _ _ w := write s w
  effect _ _ _ w := w
  same _ _ _ := True
  same_refl _ _ := trivial
  same_trans _ _ _ _ _ _ := trivial
  write_same _ _ _ _ _ _ := trivial
  effect_same _ _ _ _ _ := trivial

/-- Stages of the programs of a machine: each leads to a stage by every step that the condition
on runs allows, and none opens or ends a transaction. -/
structure Stages (m : Machine S R T ε α Q W K E H) (ok : Label S R T α Q E → Glob W H → Bool) where
  holds : Actor Q → Prog S R T ε α → List H → Prop
  code : ∀ i q, holds ⟨i, q⟩ (m.code i q) []
  stmt : ∀ a s next err (busy : K → Bool) (g : Glob W H),
    holds a (.op s next err) (own a.pid g.hist) →
    ok (.event a (.stmt s (m.engine.result s busy g.world))) g = true →
    holds a (next (m.engine.result s busy g.world))
      (m.note a (.stmt s (m.engine.result s busy g.world)) g.world ++ own a.pid g.hist)
  fault : ∀ a s next err (g : Glob W H), holds a (.op s next err) (own a.pid g.hist) →
    ok (.fault a) g = true → holds a err (own a.pid g.hist)
  no_begin : ∀ a next ns, ¬ holds a (.begin next) ns
  no_commit : ∀ a t next err ns, ¬ holds a (.commit t next err) ns
  no_rollback : ∀ a next ns, ¬ holds a (.rollback next) ns

variable {m : Machine S R T ε α Q W K E H} {ok : Label S R T α Q E → Glob W H → Bool}
  (σ : Stages m ok)

/-- Every live program is at a stage, outside a transaction. -/
def Stages.Staged (c : Sys S R T ε α Q W K H) : Prop :=
  ∀ i p, c.procs i = some p → p.view = none ∧ σ.holds ⟨i, p.req⟩ p.prog (own i c.glob.hist)

/-- The steps of a system whose live programs are at their stages. -/
inductive Stagestep (c : Sys S R T ε α Q W K H) :
    Label S R T α Q E → Sys S R T ε α Q W K H → Prop where
  | spawn (q : Q) : Stagestep c (.spawn q)
      { c with
        procs := Function.update c.procs c.nextPid (some ⟨q, m.code c.nextPid q, none⟩)
        nextPid := c.nextPid + 1 }
  | stmt (i : Nat) (q : Q) (s : S) (next : R s → Prog S R T ε α) (err : Prog S R T ε α)
      (busy : K → Bool) (hp : c.procs i = some ⟨q, .op s next err, none⟩)
      (hstage : σ.holds ⟨i, q⟩ (.op s next err) (own i c.glob.hist)) :
      Stagestep c (.event ⟨i, q⟩ (.stmt s (m.engine.result s busy c.glob.world)))
        (c.resume i ⟨q, .op s next err, none⟩ (next (m.engine.result s busy c.glob.world)) none
          c.held (m.afterStmt ⟨i, q⟩ s busy none c.glob))
  | reply (i : Nat) (q : Q) (x : α) (hp : c.procs i = some ⟨q, .ret x, none⟩)
      (hstage : σ.holds ⟨i, q⟩ (.ret x) (own i c.glob.hist)) :
      Stagestep c (.event ⟨i, q⟩ (.reply x)) (c.retire i (m.record ⟨i, q⟩ (.reply x) c.glob))
  | error (i : Nat) (q : Q) (e : ε) (hp : c.procs i = some ⟨q, .fail e, none⟩)
      (hstage : σ.holds ⟨i, q⟩ (.fail e) (own i c.glob.hist)) :
      Stagestep c (.quiet ⟨i, q⟩) (c.retire i c.glob)
  | fault (i : Nat) (q : Q) (s : S) (next : R s → Prog S R T ε α) (err : Prog S R T ε α)
      (hp : c.procs i = some ⟨q, .op s next err, none⟩)
      (hstage : σ.holds ⟨i, q⟩ (.op s next err) (own i c.glob.hist)) :
      Stagestep c (.fault ⟨i, q⟩) (c.resume i ⟨q, .op s next err, none⟩ err none c.held c.glob)
  | crash (i : Nat) (q : Q) (p : Prog S R T ε α) (hp : c.procs i = some ⟨q, p, none⟩)
      (hstage : σ.holds ⟨i, q⟩ p (own i c.glob.hist)) :
      Stagestep c (.crash ⟨i, q⟩) (c.retire i c.glob)
  | env (e : E) : Stagestep c (.env e)
      { c with glob := { c.glob with world := m.env e c.glob.world } }

section Steps

variable {σ} {ch : Choice Q E} {l : Label S R T α Q E} {c c' : Sys S R T ε α Q W K H}

/-- Only the process that takes a step changes, and its notes. -/
theorem Stages.Staged.update {i : Nat} {rest : Option (Proc S R T ε α Q W)} (h : σ.Staged c)
    (hprocs : c'.procs = Function.update c.procs i rest)
    (hhist : ∀ j, j ≠ i → own j c'.glob.hist = own j c.glob.hist)
    (hrest : ∀ p, rest = some p →
      p.view = none ∧ σ.holds ⟨i, p.req⟩ p.prog (own i c'.glob.hist)) : σ.Staged c' := by
  intro j p hp
  rw [hprocs] at hp
  by_cases hj : j = i
  · subst hj
    rw [Function.update_self] at hp
    exact hrest p hp
  · rw [Function.update_of_ne hj] at hp
    rw [hhist j hj]
    exact h j p hp

/-- The notes of the process that executes a statement. -/
theorem own_afterStmt_self (i : Nat) (q : Q) (s : S) (busy : K → Bool) (g : Glob W H) :
    own i (m.afterStmt ⟨i, q⟩ s busy none g).hist =
      m.note ⟨i, q⟩ (.stmt s (m.engine.result s busy g.world)) g.world ++ own i g.hist := by
  change own i (m.entries ⟨i, q⟩ _ g.world ++ g.hist) = _
  rw [own_append]
  exact congrArg (· ++ own i g.hist) own_map_self

theorem own_afterStmt_of_ne {i j : Nat} (q : Q) (s : S) (busy : K → Bool) (g : Glob W H)
    (hj : j ≠ i) : own j (m.afterStmt ⟨i, q⟩ s busy none g).hist = own j g.hist := by
  change own j (m.entries ⟨i, q⟩ _ g.world ++ g.hist) = _
  rw [own_append, own_entries_of_ne hj, List.nil_append]

/-- The notes of all processes after a statement. -/
theorem own_afterStmt (i : Nat) (q : Q) (s : S) (busy : K → Bool) (g : Glob W H) :
    (fun j => own j (m.afterStmt ⟨i, q⟩ s busy none g).hist) =
      Function.update (fun j => own j g.hist) i
        (m.note ⟨i, q⟩ (.stmt s (m.engine.result s busy g.world)) g.world ++ own i g.hist) := by
  funext j
  by_cases hj : j = i
  · subst hj
    rw [Function.update_self]
    exact own_afterStmt_self j q s busy g
  · rw [Function.update_of_ne hj]
    exact own_afterStmt_of_ne q s busy g hj

/-- The notes of the process that answers. -/
theorem own_record_self (i : Nat) (q : Q) (x : Event S R T α) (g : Glob W H) :
    own i (m.record ⟨i, q⟩ x g).hist = m.note ⟨i, q⟩ x g.world ++ own i g.hist := by
  change own i (m.entries ⟨i, q⟩ x g.world ++ g.hist) = _
  rw [own_append]
  exact congrArg (· ++ own i g.hist) own_map_self

theorem own_record_of_ne {i j : Nat} (q : Q) (x : Event S R T α) (g : Glob W H) (hj : j ≠ i) :
    own j (m.record ⟨i, q⟩ x g).hist = own j g.hist := by
  change own j (m.entries ⟨i, q⟩ x g.world ++ g.hist) = _
  rw [own_append, own_entries_of_ne hj, List.nil_append]

/-- After an allowed step every live program is at a stage again. -/
theorem Stages.Staged.step (h : σ.Staged c) (hnew : own c.nextPid c.glob.hist = [])
    (hstep : Stagestep σ c l c') (hok : ok l c.glob = true) : σ.Staged c' := by
  cases hstep with
  | spawn q =>
      refine h.update rfl (fun _ _ => rfl) fun p hp => ?_
      obtain rfl := Option.some.inj hp
      refine ⟨rfl, ?_⟩
      change σ.holds _ _ (own c.nextPid c.glob.hist)
      rw [hnew]
      exact σ.code _ q
  | stmt i q s next err busy hp hstage =>
      refine h.update rfl (fun j hj => own_afterStmt_of_ne q s busy c.glob hj) fun p hp' => ?_
      obtain rfl := Option.some.inj hp'
      refine ⟨rfl, ?_⟩
      change σ.holds _ _ (own i (m.afterStmt ⟨i, q⟩ s busy none c.glob).hist)
      rw [own_afterStmt_self]
      exact σ.stmt ⟨i, q⟩ s next err busy c.glob hstage hok
  | reply i q x hp hstage =>
      exact h.update rfl (fun j hj => own_record_of_ne q _ c.glob hj)
        fun _ hnone => absurd hnone (by simp)
  | error i q e hp hstage =>
      exact h.update rfl (fun _ _ => rfl) fun _ hnone => absurd hnone (by simp)
  | fault i q s next err hp hstage =>
      refine h.update rfl (fun _ _ => rfl) fun p hp' => ?_
      obtain rfl := Option.some.inj hp'
      exact ⟨rfl, σ.fault ⟨i, q⟩ s next err c.glob hstage hok⟩
  | crash i q p hp hstage =>
      exact h.update rfl (fun _ _ => rfl) fun _ hnone => absurd hnone (by simp)
  | env e => exact h

/-- The notes of all processes after an answer. -/
theorem own_record (i : Nat) (q : Q) (x : Event S R T α) (g : Glob W H) :
    (fun j => own j (m.record ⟨i, q⟩ x g).hist) =
      Function.update (fun j => own j g.hist) i (m.note ⟨i, q⟩ x g.world ++ own i g.hist) := by
  funext j
  by_cases hj : j = i
  · subst hj
    rw [Function.update_self]
    exact own_record_self j q x g
  · rw [Function.update_of_ne hj]
    exact own_record_of_ne q x g hj

variable [DecidableEq K]

/-- What a step of a live program is. -/
theorem Stages.Staged.runProc {i : Nat} {p : Proc S R T ε α Q W} (h : σ.Staged c)
    (hp : c.procs i = some p) (hrun : m.runProc i p c = some (l, c')) : Stagestep σ c l c' := by
  obtain ⟨hview, hstage⟩ := h i p hp
  obtain ⟨q, prog, view⟩ := p
  obtain rfl : view = none := hview
  cases prog with
  | ret x =>
      simp only [Machine.runProc, Option.some.injEq, Prod.mk.injEq] at hrun
      obtain ⟨rfl, rfl⟩ := hrun
      exact .reply i q x hp hstage
  | fail e =>
      simp only [Machine.runProc, Option.some.injEq, Prod.mk.injEq] at hrun
      obtain ⟨rfl, rfl⟩ := hrun
      exact .error i q e hp hstage
  | op s next err =>
      simp only [Machine.runProc] at hrun
      split at hrun
      · simp only [Option.some.injEq, Prod.mk.injEq] at hrun
        obtain ⟨rfl, rfl⟩ := hrun
        exact .stmt i q s next err (busyFor c.held i) hp hstage
      · exact absurd hrun (by simp)
  | begin next => exact absurd hstage (σ.no_begin _ _ _)
  | commit t next err => exact absurd hstage (σ.no_commit _ _ _ _ _)
  | rollback next => exact absurd hstage (σ.no_rollback _ _ _)

/-- What a step is. -/
theorem Stages.Staged.move (h : σ.Staged c) (hmove : m.move ch c = some (l, c')) :
    Stagestep σ c l c' := by
  cases ch with
  | spawn q =>
      simp only [Machine.move, Option.some.injEq, Prod.mk.injEq] at hmove
      obtain ⟨rfl, rfl⟩ := hmove
      exact .spawn q
  | run i =>
      obtain ⟨p, hp, hrun⟩ := Option.bind_eq_some_iff.mp hmove
      exact h.runProc hp hrun
  | fault i =>
      obtain ⟨p, hp, hfault⟩ := Option.bind_eq_some_iff.mp hmove
      obtain ⟨hview, hstage⟩ := h i p hp
      obtain ⟨q, prog, view⟩ := p
      obtain rfl : view = none := hview
      cases prog with
      | op s next err =>
          simp only [faultProc, Option.some.injEq, Prod.mk.injEq] at hfault
          obtain ⟨rfl, rfl⟩ := hfault
          exact .fault i q s next err hp hstage
      | commit t next err => exact absurd hstage (σ.no_commit _ _ _ _ _)
      | ret x => exact absurd hfault (by simp [faultProc])
      | fail e => exact absurd hfault (by simp [faultProc])
      | begin next => exact absurd hfault (by simp [faultProc])
      | rollback next => exact absurd hfault (by simp [faultProc])
  | crash i =>
      obtain ⟨p, hp, hcrash⟩ := Option.bind_eq_some_iff.mp hmove
      obtain ⟨hview, hstage⟩ := h i p hp
      obtain ⟨q, prog, view⟩ := p
      obtain rfl : view = none := hview
      simp only [Option.some.injEq, Prod.mk.injEq] at hcrash
      obtain ⟨rfl, rfl⟩ := hcrash
      exact .crash i q prog hp hstage
  | env e =>
      simp only [Machine.move, Option.some.injEq, Prod.mk.injEq] at hmove
      obtain ⟨rfl, rfl⟩ := hmove
      exact .env e

end Steps

section Runs

variable [DecidableEq K] {ch : Choice Q E} {l : Label S R T α Q E}
  {c c' : Sys S R T ε α Q W K H} {cs : List (Choice Q E)} {w : W}

/-- Every live program of a run is at a stage. -/
theorem Stages.exec_staged (h : m.exec ok cs (Sys.start w) = some c) : σ.Staged c := by
  refine Machine.exec_induction (I := σ.Staged) ?_ ?_ h
  · intro i p hp
    exact absurd hp (by simp [Sys.start])
  · intro ds d ch l d' hrun hstaged hmove hok
    exact hstaged.step (Machine.exec_unused hrun _ (Nat.le_refl _)).2 (hstaged.move hmove) hok

/-- Every step after a run is a `Stagestep`. -/
theorem Stages.exec_step (h : m.exec ok cs (Sys.start w) = some c)
    (hmove : m.move ch c = some (l, c')) : Stagestep σ c l c' :=
  (σ.exec_staged h).move hmove

/-- What holds at the start and is kept by every allowed step holds in every state reached. -/
theorem Stages.exec_invariant {I : Sys S R T ε α Q W K H → Prop} (hstart : I (Sys.start w))
    (hstep : ∀ c l c', I c → σ.Staged c → own c.nextPid c.glob.hist = [] → Stagestep σ c l c' →
      ok l c.glob = true → I c')
    (h : m.exec ok cs (Sys.start w) = some c) : I c := by
  refine Machine.exec_induction (I := I) hstart ?_ h
  intro ds d ch l d' hrun hd hmove hok
  have hstaged : σ.Staged d := σ.exec_staged hrun
  have hnew : own d.nextPid d.glob.hist = [] := (Machine.exec_unused hrun _ (Nat.le_refl _)).2
  exact hstep d l d' hd hstaged hnew (hstaged.move hmove) hok

/-- A process whose notes leave something to do is live, if no process ends with such notes. -/
theorem Stages.exec_live (owes : List H → Prop) (hnil : ¬ owes [])
    (hreply : ∀ a x (g : Glob W H), σ.holds a (.ret x) (own a.pid g.hist) →
      ¬ owes (m.note a (.reply x) g.world ++ own a.pid g.hist))
    (herror : ∀ a e (g : Glob W H), σ.holds a (.fail e) (own a.pid g.hist) →
      ¬ owes (own a.pid g.hist))
    (hcrash : ∀ a (g : Glob W H), ok (.crash a) g = true → ¬ owes (own a.pid g.hist))
    (h : m.exec ok cs (Sys.start w) = some c) :
    ∀ i, owes (own i c.glob.hist) → ∃ p, c.procs i = some p := by
  refine σ.exec_invariant (I := fun c => ∀ i, owes (own i c.glob.hist) → ∃ p, c.procs i = some p)
    (fun i howes => absurd howes hnil) ?_ h
  intro c l c' hlive _ hnew hstep hok j howes
  -- a process that is not the one that moves is as it was
  have hother : ∀ {i : Nat} {rest : Option (Proc S R T ε α Q W)}, j ≠ i →
      owes (own j c.glob.hist) → ∃ p, Function.update c.procs i rest j = some p := by
    intro i rest hj howes
    rw [Function.update_of_ne hj]
    exact hlive j howes
  have hself : ∀ {i : Nat} {p : Proc S R T ε α Q W}, j = i →
      ∃ p', Function.update c.procs i (some p) j = some p' := by
    rintro i p rfl
    exact ⟨p, Function.update_self ..⟩
  cases hstep with
  | spawn q =>
      by_cases hj : j = c.nextPid
      · exact hself hj
      · exact hother hj howes
  | stmt i q s next err busy hp hstage =>
      by_cases hj : j = i
      · exact hself hj
      · refine hother hj ?_
        rwa [← own_afterStmt_of_ne q s busy c.glob hj]
  | reply i q x hp hstage =>
      by_cases hj : j = i
      · subst hj
        refine absurd howes ?_
        change ¬ owes (own j (m.record ⟨j, q⟩ (.reply x) c.glob).hist)
        rw [own_record_self]
        exact hreply ⟨j, q⟩ x c.glob hstage
      · refine hother hj ?_
        rwa [← own_record_of_ne q (.reply x) c.glob hj]
  | error i q e hp hstage =>
      by_cases hj : j = i
      · subst hj
        exact absurd howes (herror ⟨j, q⟩ e c.glob hstage)
      · exact hother hj howes
  | fault i q s next err hp hstage =>
      by_cases hj : j = i
      · exact hself hj
      · exact hother hj howes
  | crash i q p hp hstage =>
      by_cases hj : j = i
      · subst hj
        exact absurd howes (hcrash ⟨j, q⟩ c.glob hok)
      · exact hother hj howes
  | env e => exact hlive j howes

end Runs

end Interleave
