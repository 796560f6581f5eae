import OpenUnion.Interleave.Rely

/-!
# What requests do

To reason about a run it is enough to know, for every request, which statements
it executes outside transactions, which inside, and what its commits do to the
committed state.  That is a `Conduct`.  A proof that a program keeps to a conduct
(`Prog.Does`) walks through the program once, node by node; what it may use about
the past is collected in a `Stage`:

* `known` facts are kept by every step of the system (`Terms.grow`);
* `pinned` facts are kept as long as the locks of an open transaction are held:
  the locked rows are unchanged (`Engine.same`), and so is whatever else
  `Terms.hold` says a lock protects;
* `recent` facts are kept by the steps of the other processes (`Terms.drift`);
* `trace` is what the process itself has noted so far.

A `Plan` puts conduct, condition and invariant together.  `Plan.exec_inv` and
`Plan.exec_step` are the results: in every allowed run each step is one of the
few kinds of `Conducted`, and the invariant holds.  Transactions are atomic
there, so a claim about interleaved requests becomes a claim about single steps.
-/

namespace Interleave

variable {S : Type} {R : S → Type} {T ε α Q W K E H β γ : Type}

/-- What a process is shown to do, given the state before the step and, inside a
transaction, the state it sees. -/
structure Conduct (S T W K H : Type) where
  out : Glob W H → S → (K → Bool) → Prop
  inside : Glob W H → S → (K → Bool) → W → Prop
  commit : Glob W H → T → List K → W → Prop

/-- Both conducts. -/
def Conduct.and (D D' : Conduct S T W K H) : Conduct S T W K H where
  out g s busy := D.out g s busy ∧ D'.out g s busy
  inside g s busy seen := D.inside g s busy seen ∧ D'.inside g s busy seen
  commit g t L w := D.commit g t L w ∧ D'.commit g t L w

/-- What a process may rely on between two of its own steps. -/
structure Terms (W K H : Type) where
  inv : Glob W H → Prop
  grow : W → W → Prop
  hold : K → W → W → Prop
  drift : Nat → Glob W H → Glob W H → Prop

/-- Where a program is: the overlay and the locks of its open transaction, its
own notes, and what is known about the state it will find. -/
structure Stage (W K H : Type) where
  view : Option (W → W)
  locks : List K
  trace : List H
  known : Assertion W H
  pinned : Assertion W H
  recent : Assertion W H

/-- No transaction is open. -/
def Stage.Outside (σ : Stage W K H) : Prop := σ.view = none ∧ σ.locks = []

/-- The stage of a request that has not started. -/
def Stage.start : Stage W K H := ⟨none, [], [], fun _ => True, fun _ => True, fun _ => True⟩

/-- The state found agrees with the stage. -/
structure Stage.Holds (σ : Stage W K H) (i : Nat) (g : Glob W H) : Prop where
  trace : own i g.hist = σ.trace
  known : σ.known g
  pinned : σ.pinned g
  recent : σ.recent g

/-- A transaction has ended without effect. -/
def Stage.ended (σ : Stage W K H) : Stage W K H :=
  { σ with view := none, locks := [], pinned := fun _ => True }

section Does

variable (m : Machine S R T ε α Q W K E H) (τ : Terms W K H) (a : Actor Q)

/-- The stage after a statement executed in `g`. -/
def Stage.after (σ : Stage W K H) (s : S) (busy : K → Bool) (g : Glob W H) : Stage W K H :=
  let rows := m.engine.locks s busy (seenBy σ.view g.world)
  let g' := m.afterStmt a s busy σ.view g
  { view := m.viewAfter s busy σ.view g.world
    locks := keep σ.view rows σ.locks
    trace := own a.pid g'.hist
    known := fun x => σ.known x ∧ τ.grow g.world x.world ∧ τ.grow g'.world x.world
    pinned := match σ.view with
      | none => fun _ => True
      | some _ => fun x => σ.pinned x ∧
          ∀ k ∈ rows ++ σ.locks, m.engine.same k g.world x.world ∧ τ.hold k g.world x.world
    recent := fun x => τ.drift a.pid g' x }

/-- The stage after a commit in `g`. -/
def Stage.committed (σ : Stage W K H) (t : T) (g : Glob W H) : Stage W K H :=
  let g' := m.afterCommit a t σ.view g
  { view := none
    locks := []
    trace := own a.pid g'.hist
    known := fun x => σ.known x ∧ τ.grow g.world x.world ∧ τ.grow g'.world x.world
    pinned := fun _ => True
    recent := fun x => τ.drift a.pid g' x }

variable (D : Conduct S T W K H)

/-- A statement the conduct allows at this stage. -/
def Conduct.Permits (view : Option (W → W)) (g : Glob W H) (s : S) (busy : K → Bool) : Prop :=
  match view with
  | none => D.out g s busy
  | some v => D.inside g s busy (v g.world)

/-- From a stage on, the program keeps to the conduct and ends in `F`, or by an
error in `G`. -/
def Prog.Does : Prog S R T ε β → (β → Stage W K H → Prop) → (ε → Stage W K H → Prop) →
    Stage W K H → Prop
  | .ret x, F, _, σ => F x σ
  | .fail e, _, G, σ => G e σ
  | .op s next err, F, G, σ =>
      Prog.Does err F G σ ∧
      ∀ g busy, τ.inv g → σ.Holds a.pid g →
        (∀ k ∈ m.engine.locks s busy (seenBy σ.view g.world), busy k = false) →
        D.Permits σ.view g s busy ∧
        Prog.Does (next (m.engine.result s busy (seenBy σ.view g.world))) F G
          (σ.after m τ a s busy g)
  | .begin next, F, G, σ => σ.view = none ∧ Prog.Does next F G { σ with view := some id }
  | .commit t next err, F, G, σ =>
      Prog.Does err F G σ.ended ∧
      ∀ g, τ.inv g → σ.Holds a.pid g →
        (∃ v, σ.view = some v ∧ D.commit g t σ.locks (v g.world)) ∧
        Prog.Does next F G (σ.committed m τ a t g)
  | .rollback next, F, G, σ => Prog.Does next F G σ.ended

end Does

section Structure

variable {m : Machine S R T ε α Q W K E H} {τ : Terms W K H} {a : Actor Q}
  {D D' : Conduct S T W K H} {σ : Stage W K H}

/-- Sequencing. -/
theorem does_bind {p : Prog S R T ε β} {f : β → Prog S R T ε γ}
    {F : γ → Stage W K H → Prop} {G : ε → Stage W K H → Prop} :
    (p.bind f).Does m τ a D F G σ ↔ p.Does m τ a D (fun x σ => (f x).Does m τ a D F G σ) G σ := by
  induction p generalizing σ with
  | ret x => rfl
  | fail e => rfl
  | op s next err ihn ihe => simp only [Prog.bind, Prog.Does, ihn, ihe]
  | begin next ih => simp only [Prog.bind, Prog.Does, ih]
  | commit t next err ihn ihe => simp only [Prog.bind, Prog.Does, ihn, ihe]
  | rollback next ih => simp only [Prog.bind, Prog.Does, ih]

/-- Exception handling. -/
theorem does_orElse {p : Prog S R T ε β} {h : ε → Prog S R T ε β}
    {F : β → Stage W K H → Prop} {G : ε → Stage W K H → Prop} :
    (p.orElse h).Does m τ a D F G σ ↔ p.Does m τ a D F (fun e σ => (h e).Does m τ a D F G σ) σ := by
  induction p generalizing σ with
  | ret x => rfl
  | fail e => rfl
  | op s next err ihn ihe => simp only [Prog.orElse, Prog.Does, ihn, ihe]
  | begin next ih => simp only [Prog.orElse, Prog.Does, ih]
  | commit t next err ihn ihe => simp only [Prog.orElse, Prog.Does, ihn, ihe]
  | rollback next ih => simp only [Prog.orElse, Prog.Does, ih]

/-- The end of a transaction body. -/
theorem does_seal [Inhabited ε] {tag : β → T} {p : Prog S R T ε β}
    {F : β → Stage W K H → Prop} {G : ε → Stage W K H → Prop} :
    (p.seal tag).Does m τ a D F G σ ↔
      p.Does m τ a D
        (fun x σ => (Prog.commit (tag x) (.ret x) (.fail default)).Does m τ a D F G σ)
        (fun e σ => G e σ.ended) σ := by
  induction p generalizing σ with
  | ret x => rfl
  | fail e => rfl
  | op s next err ihn ihe => simp only [Prog.seal, Prog.Does, ihn, ihe]
  | begin next ih => simp only [Prog.seal, Prog.Does, ih]
  | commit t next err ihn ihe => simp only [Prog.seal, Prog.Does, ihn, ihe]
  | rollback next ih => simp only [Prog.seal, Prog.Does, ih]

/-- A transaction: its body runs over an overlay that starts empty. -/
theorem does_transaction [Inhabited ε] {tag : β → T} {body : Prog S R T ε β}
    {F : β → Stage W K H → Prop} {G : ε → Stage W K H → Prop} (hview : σ.view = none)
    (h : body.Does m τ a D
      (fun x σ => (Prog.commit (tag x) (.ret x) (.fail default)).Does m τ a D F G σ)
      (fun e σ => G e σ.ended) { σ with view := some id }) :
    (transaction tag body).Does m τ a D F G σ :=
  ⟨hview, does_seal.mpr h⟩

/-- Weaker ends, a wider conduct. -/
theorem Prog.Does.mono {p : Prog S R T ε β} {F F' : β → Stage W K H → Prop}
    {G G' : ε → Stage W K H → Prop} (h : p.Does m τ a D F G σ)
    (hF : ∀ x σ, F x σ → F' x σ) (hG : ∀ e σ, G e σ → G' e σ)
    (hout : ∀ g s busy, D.out g s busy → D'.out g s busy)
    (hinside : ∀ g s busy seen, D.inside g s busy seen → D'.inside g s busy seen)
    (hcommit : ∀ g t L w, D.commit g t L w → D'.commit g t L w) :
    p.Does m τ a D' F' G' σ := by
  induction p generalizing σ with
  | ret x => exact hF _ _ h
  | fail e => exact hG _ _ h
  | op s next err ihn ihe =>
      refine ⟨ihe h.1, fun g busy hinv hσ hfree => ?_⟩
      obtain ⟨hpermits, hnext⟩ := h.2 g busy hinv hσ hfree
      refine ⟨?_, ihn _ hnext⟩
      cases hview : σ.view with
      | none => simpa [Conduct.Permits] using hout g s busy (by simpa [Conduct.Permits, hview] using hpermits)
      | some v =>
          simpa [Conduct.Permits] using
            hinside g s busy _ (by simpa [Conduct.Permits, hview] using hpermits)
  | begin next ih => exact ⟨h.1, ih h.2⟩
  | commit t next err ihn ihe =>
      refine ⟨ihe h.1, fun g hinv hσ => ?_⟩
      obtain ⟨⟨v, hv, hcom⟩, hnext⟩ := h.2 g hinv hσ
      exact ⟨⟨v, hv, hcommit _ _ _ _ hcom⟩, ihn hnext⟩
  | rollback next ih => exact ih h

/-- What two proofs show of a program, one proof shows. -/
theorem Prog.Does.and {p : Prog S R T ε β} {F F' : β → Stage W K H → Prop}
    {G G' : ε → Stage W K H → Prop} (h : p.Does m τ a D F G σ) (h' : p.Does m τ a D' F' G' σ) :
    p.Does m τ a (D.and D') (fun x σ => F x σ ∧ F' x σ) (fun e σ => G e σ ∧ G' e σ) σ := by
  induction p generalizing σ with
  | ret x => exact ⟨h, h'⟩
  | fail e => exact ⟨h, h'⟩
  | op s next err ihn ihe =>
      refine ⟨ihe h.1 h'.1, fun g busy hinv hσ hfree => ?_⟩
      obtain ⟨hpermits, hnext⟩ := h.2 g busy hinv hσ hfree
      obtain ⟨hpermits', hnext'⟩ := h'.2 g busy hinv hσ hfree
      refine ⟨?_, ihn _ hnext hnext'⟩
      cases hview : σ.view with
      | none =>
          rw [hview] at hpermits hpermits'
          exact ⟨hpermits, hpermits'⟩
      | some v =>
          rw [hview] at hpermits hpermits'
          exact ⟨hpermits, hpermits'⟩
  | begin next ih => exact ⟨h.1, ih h.2 h'.2⟩
  | commit t next err ihn ihe =>
      refine ⟨ihe h.1 h'.1, fun g hinv hσ => ?_⟩
      obtain ⟨⟨v, hv, hcom⟩, hnext⟩ := h.2 g hinv hσ
      obtain ⟨⟨v', hv', hcom'⟩, hnext'⟩ := h'.2 g hinv hσ
      obtain rfl : v = v' := Option.some.inj (hv.symm.trans hv')
      exact ⟨⟨v, hv, hcom, hcom'⟩, ihn hnext hnext'⟩
  | rollback next ih => exact ih h h'

/-- The process has done nothing since `g`: the state found is one the other
processes have brought about from there. -/
def Stage.Follows (τ : Terms W K H) (i : Nat) (g : Glob W H) (σ : Stage W K H) : Prop :=
  ∀ x, σ.ended.Holds i x → own i x.hist = own i g.hist ∧ τ.drift i g x ∧ τ.grow g.world x.world

theorem Stage.after_follows (σ : Stage W K H) (m : Machine S R T ε α Q W K E H)
    (τ : Terms W K H) (a : Actor Q) (s : S) (busy : K → Bool) (g : Glob W H) :
    (σ.after m τ a s busy g).Follows τ a.pid (m.afterStmt a s busy σ.view g) :=
  fun _ hx => ⟨hx.trace, hx.recent, hx.known.2.2⟩

theorem Stage.committed_follows (σ : Stage W K H) (m : Machine S R T ε α Q W K E H)
    (τ : Terms W K H) (a : Actor Q) (t : T) (g : Glob W H) :
    (σ.committed m τ a t g).Follows τ a.pid (m.afterCommit a t σ.view g) :=
  fun _ hx => ⟨hx.trace, hx.recent, hx.known.2.2⟩

theorem Stage.Outside.after (hσ : σ.Outside) (s : S) (busy : K → Bool) (g : Glob W H) :
    (σ.after m τ a s busy g).Outside := by
  constructor
  · simp [Stage.after, Machine.viewAfter, hσ.1]
  · simp [Stage.after, keep, hσ.1, hσ.2]

end Structure

section Footprints

/-- A program without transaction brackets, each statement of which satisfies
`Out`. -/
def Prog.Every (Out : S → Prop) : Prog S R T ε β → Prop
  | .ret _ => True
  | .fail _ => True
  | .op s next err => Out s ∧ (∀ r, (next r).Every Out) ∧ err.Every Out
  | .begin _ => False
  | .commit _ _ _ => False
  | .rollback _ => False

variable {Out Out' : S → Prop}

@[simp] theorem Prog.every_ret {x : β} : (Prog.ret x : Prog S R T ε β).Every Out ↔ True := Iff.rfl

@[simp] theorem Prog.every_fail {x : ε} : (Prog.fail x : Prog S R T ε β).Every Out ↔ True := Iff.rfl

@[simp] theorem Prog.every_op {s : S} {next : R s → Prog S R T ε β} {err : Prog S R T ε β} :
    (Prog.op s next err).Every Out ↔ Out s ∧ (∀ r, (next r).Every Out) ∧ err.Every Out := Iff.rfl

@[simp] theorem Prog.every_perform [Inhabited ε] {s : S} :
    (perform s : Prog S R T ε (R s)).Every Out ↔ Out s := by
  simp [perform]

/-- A statement and what follows it. -/
@[simp] theorem Prog.every_perform_bind [Inhabited ε] {s : S} {f : R s → Prog S R T ε β} :
    ((perform s : Prog S R T ε (R s)).bind f).Every Out ↔ Out s ∧ ∀ r, (f r).Every Out := by
  simp

theorem Prog.Every.bind {p : Prog S R T ε β} {f : β → Prog S R T ε γ}
    (hp : p.Every Out) (hf : ∀ x, (f x).Every Out) : (p.bind f).Every Out := by
  induction p with
  | ret x => exact hf x
  | fail x => trivial
  | op s next err ihn ihe => exact ⟨hp.1, fun r => ihn r (hp.2.1 r), ihe hp.2.2⟩
  | begin next ih => exact hp.elim
  | commit t next err ihn ihe => exact hp.elim
  | rollback next ih => exact hp.elim

theorem Prog.Every.orElse {p : Prog S R T ε β} {h : ε → Prog S R T ε β}
    (hp : p.Every Out) (hh : ∀ x, (h x).Every Out) : (p.orElse h).Every Out := by
  induction p with
  | ret x => trivial
  | fail x => exact hh x
  | op s next err ihn ihe => exact ⟨hp.1, fun r => ihn r (hp.2.1 r), ihe hp.2.2⟩
  | begin next ih => exact hp.elim
  | commit t next err ihn ihe => exact hp.elim
  | rollback next ih => exact hp.elim

theorem Prog.Every.mono {p : Prog S R T ε β} (hp : p.Every Out) (h : ∀ s, Out s → Out' s) :
    p.Every Out' := by
  induction p with
  | ret x => trivial
  | fail x => trivial
  | op s next err ihn ihe => exact ⟨h s hp.1, fun r => ihn r (hp.2.1 r), ihe hp.2.2⟩
  | begin next ih => exact hp.elim
  | commit t next err ihn ihe => exact hp.elim
  | rollback next ih => exact hp.elim

theorem Prog.every_forEach {f : β → Prog S R T ε Unit} {bs : List β}
    (hf : ∀ b, (f b).Every Out) : (forEach f bs).Every Out := by
  induction bs with
  | nil => trivial
  | cons b bs ih => exact (hf b).bind fun _ => ih

end Footprints

section Carrying

/-- The assertion holds in every state the program can find here, whatever locks
it holds. -/
def Stage.Entails (τ : Terms W K H) (i : Nat) (Φ : Assertion W H) (σ : Stage W K H) : Prop :=
  ∀ g, τ.inv g → σ.ended.Holds i g → Φ g

/-- An assertion of a process that no other process invalidates, and none of the
process's own steps within the conduct. -/
structure Carried (m : Machine S R T ε α Q W K E H) (τ : Terms W K H) (a : Actor Q)
    (D : Conduct S T W K H) (Φ : Assertion W H) : Prop where
  others : ∀ g g', own a.pid g'.hist = own a.pid g.hist → τ.drift a.pid g g' →
    τ.grow g.world g'.world → Φ g → Φ g'
  out : ∀ g s busy, τ.inv g → D.out g s busy → (∀ k ∈ m.engine.locks s busy g.world, busy k = false) →
    Φ g → Φ (m.afterStmt a s busy none g)
  inside : ∀ g s busy v, τ.inv g → D.inside g s busy (v g.world) → Φ g →
    Φ (m.afterStmt a s busy (some v) g)
  commit : ∀ g t L v, τ.inv g → D.commit g t L (v g.world) → Φ g →
    Φ (m.afterCommit a t (some v) g)

variable {m : Machine S R T ε α Q W K E H} {τ : Terms W K H} {a : Actor Q}
  {D : Conduct S T W K H} {σ : Stage W K H} {Φ : Assertion W H}

theorem Stage.Follows.entails {g : Glob W H} (h : σ.Follows τ a.pid g)
    (hΦ : Carried m τ a D Φ) (hg : Φ g) : σ.Entails τ a.pid Φ := by
  intro x _ hx
  obtain ⟨htrace, hdrift, hgrow⟩ := h x hx
  exact hΦ.others g x htrace hdrift hgrow hg

theorem Stage.Holds.ended {i : Nat} {g : Glob W H} (h : σ.Holds i g) : σ.ended.Holds i g :=
  ⟨h.trace, h.known, trivial, h.recent⟩

/-- An assertion that is carried holds all along the program. -/
theorem Prog.Does.carry {p : Prog S R T ε β} {F : β → Stage W K H → Prop}
    {G : ε → Stage W K H → Prop} (hΦ : Carried m τ a D Φ) (h : p.Does m τ a D F G σ)
    (hσ : σ.Entails τ a.pid Φ) :
    p.Does m τ a D (fun x σ => F x σ ∧ σ.Entails τ a.pid Φ)
      (fun e σ => G e σ ∧ σ.Entails τ a.pid Φ) σ := by
  induction p generalizing σ with
  | ret x => exact ⟨h, hσ⟩
  | fail e => exact ⟨h, hσ⟩
  | op s next err ihn ihe =>
      refine ⟨ihe h.1 hσ, fun g busy hinv hholds hfree => ?_⟩
      obtain ⟨hpermits, hnext⟩ := h.2 g busy hinv hholds hfree
      refine ⟨hpermits, ihn _ hnext ?_⟩
      have hg : Φ g := hσ g hinv hholds.ended
      have hafter : Φ (m.afterStmt a s busy σ.view g) := by
        cases hview : σ.view with
        | none =>
            rw [hview] at hpermits hfree
            exact hΦ.out g s busy hinv hpermits hfree hg
        | some v =>
            rw [hview] at hpermits
            exact hΦ.inside g s busy v hinv hpermits hg
      exact (σ.after_follows m τ a s busy g).entails hΦ hafter
  | begin next ih => exact ⟨h.1, ih h.2 hσ⟩
  | commit t next err ihn ihe =>
      refine ⟨ihe h.1 hσ, fun g hinv hholds => ?_⟩
      obtain ⟨⟨v, hview, hcom⟩, hnext⟩ := h.2 g hinv hholds
      refine ⟨⟨v, hview, hcom⟩, ihn hnext ?_⟩
      have hafter := hΦ.commit g t σ.locks v hinv hcom (hσ g hinv hholds.ended)
      rw [← hview] at hafter
      exact (σ.committed_follows m τ a t g).entails hΦ hafter
  | rollback next ih => exact ih h hσ

end Carrying

section Keeping

/-- Outside transactions, at a stage that knows `known` of the committed state. -/
structure Stage.Knows (τ : Terms W K H) (known : W → Prop) (σ : Stage W K H) : Prop where
  outside : σ.Outside
  facts : ∀ g, τ.inv g → σ.known g → known g.world

theorem Stage.Knows.mono {τ : Terms W K H} {known known' : W → Prop} {σ : Stage W K H}
    (h : σ.Knows τ known) (hle : ∀ w, known w → known' w) : σ.Knows τ known' :=
  ⟨h.outside, fun g hinv hg => hle _ (h.facts g hinv hg)⟩

variable (m : Machine S R T ε α Q W K E H) (τ : Terms W K H) (a : Actor Q) (D : Conduct S T W K H)
  (known : W → Prop)

/-- A statement allowed by an assertion that is carried. -/
theorem Stage.Knows.does_perform [Inhabited ε] {m : Machine S R T ε α Q W K E H}
    {τ : Terms W K H} {a : Actor Q} {D : Conduct S T W K H} {known : W → Prop}
    {σ : Stage W K H} {Φ : Assertion W H} {s : S} (hσ : σ.Knows τ known)
    (hΦ : Carried m τ a D Φ) (hheld : σ.Entails τ a.pid Φ)
    (hs : ∀ g busy, τ.inv g → Φ g → D.out g s busy) :
    (perform s : Prog S R T ε (R s)).Does m τ a D
      (fun _ σ => σ.Knows τ known ∧ σ.Entails τ a.pid Φ)
      (fun _ σ => σ.Knows τ known ∧ σ.Entails τ a.pid Φ) σ := by
  refine ⟨⟨hσ, hheld⟩, fun g busy hinv hg hfree => ?_⟩
  have hnow : Φ g := hheld g hinv hg.ended
  rw [hσ.outside.1] at hfree ⊢
  have hout : D.out g s busy := hs g busy hinv hnow
  have houtside : (σ.after m τ a s busy g).Outside := hσ.outside.after s busy g
  refine ⟨hout, ⟨houtside, fun x hinv hx => hσ.facts x hinv hx.1⟩, ?_⟩
  have hafter : Φ (m.afterStmt a s busy σ.view g) := by
    rw [hσ.outside.1]
    exact hΦ.out g s busy hinv hout hfree hnow
  exact (σ.after_follows m τ a s busy g).entails hΦ hafter

/-- A program that keeps to a conduct once `known` is known, and leaves no
transaction open, whether it ends normally or by an error. -/
def Prog.Keeps (p : Prog S R T ε β) : Prop :=
  ∀ σ : Stage W K H, σ.Knows τ known →
    p.Does m τ a D (fun _ σ => σ.Knows τ known) (fun _ σ => σ.Knows τ known) σ

variable {m τ a D known}

@[simp] theorem Prog.keeps_ret {x : β} : (Prog.ret x : Prog S R T ε β).Keeps m τ a D known :=
  fun _ hσ => hσ

@[simp] theorem Prog.keeps_fail {e : ε} : (Prog.fail e : Prog S R T ε β).Keeps m τ a D known :=
  fun _ hσ => hσ

/-- Sequencing. -/
theorem Prog.Keeps.bind {p : Prog S R T ε β} {f : β → Prog S R T ε γ} (hp : p.Keeps m τ a D known)
    (hf : ∀ x, (f x).Keeps m τ a D known) : (p.bind f).Keeps m τ a D known := fun σ hσ =>
  does_bind.mpr ((hp σ hσ).mono (fun x σ hσ => hf x σ hσ) (fun _ _ h => h) (fun _ _ _ h => h)
    (fun _ _ _ _ h => h) fun _ _ _ _ h => h)

/-- Exception handling. -/
theorem Prog.Keeps.orElse {p : Prog S R T ε β} {h : ε → Prog S R T ε β}
    (hp : p.Keeps m τ a D known) (hh : ∀ e, (h e).Keeps m τ a D known) :
    (p.orElse h).Keeps m τ a D known := fun σ hσ =>
  does_orElse.mpr ((hp σ hσ).mono (fun _ _ h => h) (fun e σ hσ => hh e σ hσ) (fun _ _ _ h => h)
    (fun _ _ _ _ h => h) fun _ _ _ _ h => h)

theorem Prog.Keeps.ite {c : Prop} [Decidable c] {p q : Prog S R T ε β}
    (hp : c → p.Keeps m τ a D known) (hq : ¬ c → q.Keeps m τ a D known) :
    (if c then p else q).Keeps m τ a D known := by
  by_cases hc : c
  · simpa only [if_pos hc] using hp hc
  · simpa only [if_neg hc] using hq hc

theorem Stage.Knows.after {σ : Stage W K H} (hσ : σ.Knows τ known) (s : S) (busy : K → Bool)
    (g : Glob W H) : (σ.after m τ a s busy g).Knows τ fun x => known x ∧ τ.grow g.world x :=
  ⟨hσ.outside.after s busy g, fun x hinv hx => ⟨hσ.facts x hinv hx.1, hx.2.1⟩⟩

/-- A statement and what follows it, which may rely on what the statement found. -/
theorem Prog.keeps_learn [Inhabited ε] {s : S} {f : R s → Prog S R T ε β}
    (h : ∀ g busy, τ.inv g → known g.world →
      (∀ k ∈ m.engine.locks s busy g.world, busy k = false) → D.out g s busy ∧
      (f (m.engine.result s busy g.world)).Keeps m τ a D fun x => known x ∧ τ.grow g.world x) :
    ((perform s : Prog S R T ε (R s)).bind f).Keeps m τ a D known := by
  intro σ hσ
  refine ⟨hσ, fun g busy hinv hg hfree => ?_⟩
  rw [hσ.outside.1] at hfree
  obtain ⟨hout, hnext⟩ := h g busy hinv (hσ.facts g hinv hg.known) hfree
  refine ⟨by rwa [hσ.outside.1], ?_⟩
  rw [hσ.outside.1]
  exact (hnext _ (hσ.after s busy g)).mono (fun _ _ h => h.mono fun _ hw => hw.1)
    (fun _ _ h => h.mono fun _ hw => hw.1) (fun _ _ _ h => h) (fun _ _ _ _ h => h)
    fun _ _ _ _ h => h

/-- A statement and what follows it. -/
theorem Prog.keeps_perform_bind [Inhabited ε] {s : S} {f : R s → Prog S R T ε β}
    (hs : ∀ g busy, D.out g s busy) (hf : ∀ r, (f r).Keeps m τ a D known) :
    ((perform s : Prog S R T ε (R s)).bind f).Keeps m τ a D known := by
  intro σ hσ
  refine ⟨hσ, fun g busy _ _ _ => ⟨?_, hf _ _ ((hσ.after s busy g).mono fun _ hw => hw.1)⟩⟩
  rw [hσ.outside.1]
  exact hs g busy

/-- A single statement, allowed by what is known. -/
theorem Prog.keeps_known [Inhabited ε] {s : S}
    (hs : ∀ g busy, τ.inv g → known g.world → D.out g s busy) :
    (perform s : Prog S R T ε (R s)).Keeps m τ a D known := by
  intro σ hσ
  refine ⟨hσ, fun g busy hinv hg _ => ⟨?_, (hσ.after s busy g).mono fun _ hw => hw.1⟩⟩
  rw [hσ.outside.1]
  exact hs g busy hinv (hσ.facts g hinv hg.known)

/-- A single statement. -/
theorem Prog.keeps_perform [Inhabited ε] {s : S} (hs : ∀ g busy, D.out g s busy) :
    (perform s : Prog S R T ε (R s)).Keeps m τ a D known :=
  Prog.keeps_known fun g busy _ _ => hs g busy

/-- A loop. -/
theorem Prog.keeps_forEach {f : β → Prog S R T ε Unit} {bs : List β}
    (hf : ∀ b ∈ bs, (f b).Keeps m τ a D known) : (forEach f bs).Keeps m τ a D known := by
  induction bs with
  | nil => exact Prog.keeps_ret
  | cons b bs ih =>
      exact (hf b (by simp)).bind fun _ => ih fun b' hb' => hf b' (by simp [hb'])

/-- A program without transactions keeps to a conduct that allows its statements. -/
theorem Prog.Every.keeps {Out : S → Prop} {p : Prog S R T ε β} (hp : p.Every Out)
    (hout : ∀ g s busy, Out s → D.out g s busy) : p.Keeps m τ a D known := by
  intro σ hσ
  induction p generalizing σ with
  | ret x => exact hσ
  | fail x => exact hσ
  | op s next err ihn ihe =>
      refine ⟨ihe hp.2.2 σ hσ, fun g busy _ _ _ => ⟨?_, ?_⟩⟩
      · rw [hσ.outside.1]
        exact hout g s busy hp.1
      · exact ihn _ (hp.2.1 _) _ ((hσ.after s busy g).mono fun _ hw => hw.1)
  | begin next ih => exact hp.elim
  | commit t next err ihn ihe => exact hp.elim
  | rollback next ih => exact hp.elim

end Keeping

/-- The kinds of steps of a run, with the locks a step needs: statements outside
and inside transactions, commits, replies and moves of the outside. -/
inductive Conducted (m : Machine S R T ε α Q W K E H) (asked : Q → Prop)
    (conduct : Actor Q → Conduct S T W K H) (answers : Actor Q → Glob W H → α → Prop) :
    Label S R T α Q E → List K → Glob W H → Glob W H → Prop where
  | stmt (a : Actor Q) (s : S) (busy : K → Bool) (g : Glob W H) : asked a.req →
      (∀ k ∈ m.engine.locks s busy g.world, busy k = false) →
      (conduct a).out g s busy →
      Conducted m asked conduct answers (.event a (.stmt s (m.engine.result s busy g.world)))
        (m.engine.locks s busy g.world) g (m.afterStmt a s busy none g)
  | inner (a : Actor Q) (s : S) (busy : K → Bool) (v : W → W) (g : Glob W H) : asked a.req →
      (conduct a).inside g s busy (v g.world) →
      Conducted m asked conduct answers (.event a (.stmt s (m.engine.result s busy (v g.world)))) [] g
        (m.afterStmt a s busy (some v) g)
  | commit (a : Actor Q) (t : T) (L : List K) (v : W → W) (g : Glob W H) : asked a.req →
      (conduct a).commit g t L (v g.world) →
      Conducted m asked conduct answers (.event a (.commit t)) L g (m.afterCommit a t (some v) g)
  | reply (a : Actor Q) (x : α) (g : Glob W H) : asked a.req → answers a g x →
      Conducted m asked conduct answers (.event a (.reply x)) [] g (m.record a (.reply x) g)
  | env (e : E) (g : Glob W H) : Conducted m asked conduct answers (.env e) [] g (m.afterEnv e g)

/-- The process a step is an event of. -/
def Label.actor? : Label S R T α Q E → Option (Actor Q)
  | .event a _ => some a
  | _ => none

/-- A condition on runs, the conduct of the requests in them with what they answer,
and an invariant. -/
structure Plan (m : Machine S R T ε α Q W K E H) extends Terms W K H where
  ok : Label S R T α Q E → Glob W H → Bool
  asked : Q → Prop
  conduct : Actor Q → Conduct S T W K H
  answers : Actor Q → Glob W H → α → Prop

variable {m : Machine S R T ε α Q W K E H} (π : Plan m)

/-- A step of an allowed run. -/
structure Plan.Move (l : Label S R T α Q E) (L : List K) (g g' : Glob W H) : Prop where
  inv : π.inv g
  ok : π.ok l g = true
  conducted : Conducted m π.asked π.conduct π.answers l L g g'

/-- What has to be shown about a plan. -/
structure Plan.Valid : Prop where
  grow_trans : ∀ u v w, π.grow u v → π.grow v w → π.grow u w
  hold_trans : ∀ k u v w, π.hold k u v → π.hold k v w → π.hold k u w
  drift_refl : ∀ i g, π.drift i g g
  drift_trans : ∀ i g g' g'', π.drift i g g' → π.drift i g' g'' → π.drift i g g''
  grow_refl : ∀ w, π.grow w w
  spawn : ∀ q g, π.ok (.spawn q) g = true → π.asked q
  does : ∀ i q, π.asked q → (m.code i q).Does m π.toTerms ⟨i, q⟩ (π.conduct ⟨i, q⟩)
    (fun x σ => σ.Entails π.toTerms i fun g => π.answers ⟨i, q⟩ g x) (fun _ _ => True) .start
  inv_step : ∀ l L g g', π.Move l L g g' → π.inv g'
  grow_step : ∀ l L g g', π.Move l L g g' → π.grow g.world g'.world
  hold_step : ∀ l L g g', π.Move l L g g' → ∀ k, k ∉ L → π.hold k g.world g'.world
  drift_step : ∀ l L g g', π.Move l L g g' → ∀ j,
    (∀ a, l.actor? = some a → a.pid ≠ j) → π.drift j g g'

section Soundness

variable {π}

/-- The rules that prove a plan. -/
def Plan.rules (π : Plan m) : Rules m where
  inv := π.inv
  ok := π.ok
  idle i g := own i g.hist = []
  guar a x L g g' :=
    (∃ L', L' ⊆ L ∧ π.Move (.event a x) L' g g') ∧
    π.grow g.world g'.world ∧ (∀ k, k ∉ L → π.hold k g.world g'.world) ∧
    ∀ j, j ≠ a.pid → π.drift j g g' ∧ own j g'.hist = own j g.hist

/-- A step that is one of the plan's meets the guarantee. -/
theorem Plan.Move.guar {a : Actor Q} {x : Event S R T α} {L L' : List K} {g g' : Glob W H}
    (hvalid : π.Valid) (h : π.Move (.event a x) L' g g') (hsub : L' ⊆ L)
    (hown : ∀ j, j ≠ a.pid → own j g'.hist = own j g.hist) :
    π.rules.guar a x L g g' := by
  refine ⟨⟨L', hsub, h⟩, hvalid.grow_step _ _ _ _ h, ?_, ?_⟩
  · intro k hk
    exact hvalid.hold_step _ _ _ _ h k fun hmem => hk (hsub hmem)
  · intro j hj
    refine ⟨hvalid.drift_step _ _ _ _ h j ?_, hown j hj⟩
    rintro b hb rfl
    exact hj (congrArg Actor.pid (Option.some.inj hb).symm)

/-- The facts of a stage are kept by what they are said to be kept by. -/
structure Stage.Sturdy (m : Machine S R T ε α Q W K E H) (τ : Terms W K H) (i : Nat)
    (σ : Stage W K H) : Prop where
  known : ∀ g g' : Glob W H, τ.grow g.world g'.world → σ.known g → σ.known g'
  pinned : ∀ g g' : Glob W H,
    (∀ k ∈ σ.locks, m.engine.same k g.world g'.world ∧ τ.hold k g.world g'.world) →
    σ.pinned g → σ.pinned g'
  recent : ∀ g g' : Glob W H, τ.drift i g g' → σ.recent g → σ.recent g'
  closed : σ.view = none → σ.locks = []

theorem Stage.Sturdy.start {τ : Terms W K H} {i : Nat} :
    (Stage.start : Stage W K H).Sturdy m τ i :=
  ⟨fun _ _ _ h => h, fun _ _ _ h => h, fun _ _ _ h => h, fun _ => rfl⟩

theorem Stage.Sturdy.ended {τ : Terms W K H} {i : Nat} {σ : Stage W K H} (h : σ.Sturdy m τ i) :
    σ.ended.Sturdy m τ i :=
  ⟨h.known, fun _ _ _ h => h, h.recent, fun _ => rfl⟩

theorem Stage.Sturdy.begin {τ : Terms W K H} {i : Nat} {σ : Stage W K H} (h : σ.Sturdy m τ i) :
    Stage.Sturdy m τ i { σ with view := some id } :=
  ⟨h.known, h.pinned, h.recent, fun hv => absurd hv (by simp)⟩

theorem Stage.Sturdy.after {a : Actor Q} {σ : Stage W K H} (hvalid : π.Valid)
    (h : σ.Sturdy m π.toTerms a.pid) (s : S) (busy : K → Bool) (g : Glob W H) :
    (σ.after m π.toTerms a s busy g).Sturdy m π.toTerms a.pid := by
  refine ⟨?_, ?_, ?_, ?_⟩
  · rintro x x' hgrow ⟨hknown, hg, hg'⟩
    exact ⟨h.known x x' hgrow hknown, hvalid.grow_trans _ _ _ hg hgrow,
      hvalid.grow_trans _ _ _ hg' hgrow⟩
  · intro x x' hkeep hpinned
    cases hview : σ.view with
    | none => simp [Stage.after, hview]
    | some v =>
        simp only [Stage.after, hview, keep] at hkeep hpinned ⊢
        refine ⟨h.pinned x x' (fun k hk => hkeep k (by simp [hk])) hpinned.1, fun k hk => ?_⟩
        obtain ⟨hsame, hhold⟩ := hpinned.2 k hk
        obtain ⟨hsame', hhold'⟩ := hkeep k hk
        exact ⟨m.engine.same_trans _ _ _ _ hsame hsame', hvalid.hold_trans _ _ _ _ hhold hhold'⟩
  · intro x x' hdrift hrecent
    exact hvalid.drift_trans _ _ _ _ hrecent hdrift
  · intro hview
    have hnone : σ.view = none := by
      cases hv : σ.view with
      | none => rfl
      | some v => simp [Stage.after, Machine.viewAfter, hv] at hview
    simpa [Stage.after, keep, hnone] using h.closed hnone

theorem Stage.Sturdy.committed {a : Actor Q} {σ : Stage W K H} (hvalid : π.Valid)
    (h : σ.Sturdy m π.toTerms a.pid) (t : T) (g : Glob W H) :
    (σ.committed m π.toTerms a t g).Sturdy m π.toTerms a.pid := by
  refine ⟨?_, fun _ _ _ h => h, ?_, fun _ => rfl⟩
  · rintro x x' hgrow ⟨hknown, hg, hg'⟩
    exact ⟨h.known x x' hgrow hknown, hvalid.grow_trans _ _ _ hg hgrow,
      hvalid.grow_trans _ _ _ hg' hgrow⟩
  · intro x x' hdrift hrecent
    exact hvalid.drift_trans _ _ _ _ hrecent hdrift

/-- What a stage says is stable under the other processes. -/
theorem Stage.Sturdy.stable {i : Nat} {σ : Stage W K H} (hvalid : π.Valid)
    (h : σ.Sturdy m π.toTerms i) : π.rules.Stable i σ.locks (σ.Holds i) := by
  rintro g g' hinv _ ⟨hsame, hstep⟩ ⟨htrace, hknown, hpinned, hrecent⟩
  rcases hstep with ⟨b, x, L', hne, hdisj, -, hgrow, hhold, hothers⟩ | ⟨e, hok, rfl⟩
  · obtain ⟨hdrift, hown⟩ := hothers i (Ne.symm hne)
    exact ⟨hown.trans htrace, h.known g g' hgrow hknown,
      h.pinned g g' (fun k hk => ⟨hsame k hk, hhold k (hdisj k hk)⟩) hpinned,
      h.recent g g' hdrift hrecent⟩
  · have hmove : π.Move (.env e) [] g (m.afterEnv e g) := ⟨hinv, hok, .env e g⟩
    refine ⟨htrace, h.known _ _ (hvalid.grow_step _ _ _ _ hmove) hknown, ?_, ?_⟩
    · exact h.pinned _ _ (fun k hk => ⟨hsame k hk, hvalid.hold_step _ _ _ _ hmove k (by simp)⟩)
        hpinned
    · exact h.recent _ _ (hvalid.drift_step _ _ _ _ hmove i (by simp [Label.actor?])) hrecent

/-- What is known before a statement holds after it. -/
theorem Stage.Holds.after {a : Actor Q} {σ : Stage W K H} (hvalid : π.Valid)
    (hsturdy : σ.Sturdy m π.toTerms a.pid) {s : S} {busy : K → Bool} {g : Glob W H}
    (h : σ.Holds a.pid g) {L : List K} {x : Event S R T α}
    (hmove : π.Move (.event a x) L g (m.afterStmt a s busy σ.view g))
    (hL : ∀ v, σ.view = some v → L = []) :
    (σ.after m π.toTerms a s busy g).Holds a.pid (m.afterStmt a s busy σ.view g) := by
  have hgrow := hvalid.grow_step _ _ _ _ hmove
  refine ⟨rfl, ⟨hsturdy.known _ _ hgrow h.known, hgrow, hvalid.grow_refl _⟩, ?_,
    hvalid.drift_refl _ _⟩
  cases hview : σ.view with
  | none => simp [Stage.after, hview]
  | some v =>
      have hhold : ∀ k, m.engine.same k g.world (m.afterStmt a s busy (some v) g).world ∧
          π.hold k g.world (m.afterStmt a s busy (some v) g).world := by
        intro k
        refine ⟨m.engine.effect_same s busy _ _ k, ?_⟩
        have hk := hvalid.hold_step _ _ _ _ hmove k (by simp [hL v hview])
        simpa [hview] using hk
      simp only [Stage.after, hview]
      exact ⟨hsturdy.pinned _ _ (fun k _ => hhold k) h.pinned, fun k _ => hhold k⟩

end Soundness

section Results

variable {π} {a : Actor Q}

/-- Ending a program at a stage that satisfies `F`. -/
def Plan.Reaches (π : Plan m) (a : Actor Q) (F : β → Stage W K H → Prop) : Goal W K H β :=
  fun x view L P => ∃ σ : Stage W K H, F x σ ∧ view = σ.view ∧ L = σ.locks ∧
    ∀ g, π.inv g → P g → σ.Holds a.pid g

theorem Plan.Reaches.antitone {F : β → Stage W K H → Prop} :
    π.rules.Antitone (π.Reaches a F) := by
  rintro x view L P P' hle ⟨σ, hF, hview, hL, hP⟩
  exact ⟨σ, hF, hview, hL, fun g hinv hP' => hP g hinv (hle g hinv hP')⟩

/-- A program that keeps to its conduct is safe. -/
theorem Plan.Valid.wp {p : Prog S R T ε β} {F : β → Stage W K H → Prop}
    {G : ε → Stage W K H → Prop} {σ : Stage W K H} (hvalid : π.Valid) (hasked : π.asked a.req)
    (hp : p.Does m π.toTerms a (π.conduct a) F G σ) (hσ : σ.Sturdy m π.toTerms a.pid) :
    π.rules.Wp a p (π.Reaches a F) (fun _ _ _ _ => True) σ.view σ.locks (σ.Holds a.pid) := by
  induction p generalizing σ with
  | ret x => exact ⟨σ, hp, rfl, rfl, fun _ _ h => h⟩
  | fail e => trivial
  | op s next err ihn ihe =>
      refine ⟨fun _ _ _ _ => ihe hp.1 hσ, ?_⟩
      intro g busy hinv hholds hok hfree
      obtain ⟨hpermits, hnext⟩ := hp.2 g busy hinv hholds hfree
      have hsturdy' := hσ.after hvalid s busy g
      have hown : ∀ j, j ≠ a.pid →
          own j (m.afterStmt a s busy σ.view g).hist = own j g.hist := by
        intro j hj
        simp [Machine.afterStmt, own_entries_of_ne hj]
      have hmove : ∃ L, L ⊆ m.engine.locks s busy (seenBy σ.view g.world) ++ σ.locks ∧
          (∀ v, σ.view = some v → L = []) ∧
          π.Move (.event a (.stmt s (m.engine.result s busy (seenBy σ.view g.world)))) L g
            (m.afterStmt a s busy σ.view g) := by
        cases hview : σ.view with
        | none =>
            rw [hview] at hok hfree hpermits
            exact ⟨_, by simp [seenBy], by simp, hinv, hok, .stmt a s busy g hasked hfree hpermits⟩
        | some v =>
            rw [hview] at hok hfree hpermits
            exact ⟨[], by simp, by simp, hinv, hok, .inner a s busy v g hasked hpermits⟩
      obtain ⟨L, hsub, hL, hmove⟩ := hmove
      exact ⟨hvalid.inv_step _ _ _ _ hmove, hmove.guar hvalid hsub hown,
        (σ.after m π.toTerms a s busy g).Holds a.pid,
        hholds.after hvalid hσ hmove hL, hsturdy'.stable hvalid, ihn _ hnext hsturdy'⟩
  | begin next ih =>
      refine ⟨hp.1, Rules.Wp.mono Plan.Reaches.antitone (fun _ _ _ _ _ _ _ => trivial)
        (ih hp.2 hσ.begin) ?_⟩
      exact fun g _ h => ⟨h.trace, h.known, h.pinned, h.recent⟩
  | commit t next err ihn ihe =>
      refine ⟨?_, ?_⟩
      · intro g hinv hholds hok
        exact ⟨σ.ended.Holds a.pid, ⟨hholds.trace, hholds.known, trivial, hholds.recent⟩,
          hσ.ended.stable hvalid, ihe hp.1 hσ.ended⟩
      · intro g hinv hholds hok
        obtain ⟨⟨v, hview, hcom⟩, hnext⟩ := hp.2 g hinv hholds
        have hmove : π.Move (.event a (.commit t)) σ.locks g (m.afterCommit a t σ.view g) := by
          rw [hview]
          exact ⟨hinv, hok, .commit a t σ.locks v g hasked hcom⟩
        have hgrow := hvalid.grow_step _ _ _ _ hmove
        refine ⟨hvalid.inv_step _ _ _ _ hmove, hmove.guar hvalid (by simp) ?_,
          (σ.committed m π.toTerms a t g).Holds a.pid, ?_,
          (hσ.committed hvalid t g).stable hvalid, ihn hnext (hσ.committed hvalid t g)⟩
        · intro j hj
          simp [Machine.afterCommit, own_entries_of_ne hj]
        · exact ⟨rfl, ⟨hσ.known _ _ hgrow hholds.known, hgrow, hvalid.grow_refl _⟩, trivial,
            hvalid.drift_refl _ _⟩
  | rollback next ih =>
      intro g hinv hholds hok
      exact ⟨σ.ended.Holds a.pid, ⟨hholds.trace, hholds.known, trivial, hholds.recent⟩,
        hσ.ended.stable hvalid, ih hp hσ.ended⟩

/-- A valid plan's rules are sound. -/
theorem Plan.Valid.sound (hvalid : π.Valid) : π.rules.Sound where
  env_inv e g hinv hok := hvalid.inv_step _ _ _ _ ⟨hinv, hok, .env e g⟩
  idle_stable i := by
    rintro g g' _ _ ⟨-, ⟨b, x, L', hne, -, -, -, -, hothers⟩ | ⟨e, hok, rfl⟩⟩ hidle
    · exact (hothers i (Ne.symm hne)).2.trans hidle
    · exact hidle
  code_safe i q g hinv hok := by
    have hasked := hvalid.spawn q g hok
    have hwp := hvalid.wp (a := ⟨i, q⟩) hasked (hvalid.does i q hasked) Stage.Sturdy.start
    refine Rules.Wp.weaken ?_ (fun _ _ _ _ h => h)
      (Rules.Wp.mono Plan.Reaches.antitone (fun _ _ _ _ _ _ _ => trivial) hwp ?_)
    · rintro x view L P ⟨σ, hanswers, -, -, hholds⟩ g hinv hPg hok
      have hmove : π.Move (.event ⟨i, q⟩ (.reply x)) [] g (m.record ⟨i, q⟩ (.reply x) g) :=
        ⟨hinv, hok, .reply ⟨i, q⟩ x g hasked (hanswers g hinv (hholds g hinv hPg).ended)⟩
      refine ⟨hvalid.inv_step _ _ _ _ hmove, hmove.guar hvalid (by simp) ?_⟩
      intro j hj
      simp [Machine.record, own_entries_of_ne (a := (⟨i, q⟩ : Actor Q)) hj]
    · exact fun g _ hidle => ⟨hidle, trivial, trivial, trivial⟩

variable [DecidableEq K] {w : W} {cs : List (Choice Q E)} {c c' : Sys S R T ε α Q W K H}

/-- In every allowed run the invariant holds. -/
theorem Plan.Valid.exec_inv (hvalid : π.Valid) (hinv : π.inv ⟨[], w⟩)
    (h : m.exec π.ok cs (Sys.start w) = some c) : π.inv c.glob :=
  Rules.exec_inv hvalid.sound hinv (fun _ => rfl) h

/-- Every step after an allowed run is no event and changes nothing, or is one of the
plan's: of the process it is an event of, or of the outside. -/
theorem Plan.Valid.exec_step (hvalid : π.Valid) (hinv : π.inv ⟨[], w⟩)
    (h : m.exec π.ok cs (Sys.start w) = some c) {ch : Choice Q E} {l : Label S R T α Q E}
    (hm : m.move ch c = some (l, c')) (hok : π.ok l c.glob = true) :
    (c'.glob = c.glob ∧ ∀ a x, l ≠ .event a x) ∨
      (∃ a x L, l = .event a x ∧ π.Move (.event a x) L c.glob c'.glob) ∨
      ∃ e, l = .env e ∧ π.Move (.env e) [] c.glob c'.glob := by
  obtain ⟨hinv, -, hstep⟩ := Rules.exec_step hvalid.sound hinv (fun _ => rfl) h hm hok
  generalize c.glob = g at hinv hok hstep ⊢
  generalize c'.glob = g' at hstep ⊢
  cases hstep with
  | idle _ _ hquiet => exact Or.inl ⟨rfl, hquiet⟩
  | event a x L _ _ hguar =>
      obtain ⟨⟨L', -, hmove⟩, -⟩ := hguar
      exact Or.inr (Or.inl ⟨a, x, L', rfl, hmove⟩)
  | env e _ => exact Or.inr (Or.inr ⟨e, rfl, hinv, hok, .env e g⟩)

/-- What every step of a plan keeps, a run keeps from any of its states on. -/
theorem Plan.Valid.exec_rel {r : Glob W H → Glob W H → Prop} {cs' : List (Choice Q E)}
    (hvalid : π.Valid) (hrefl : ∀ g, r g g) (htrans : ∀ g g' g'', r g g' → r g' g'' → r g g'')
    (hstep : ∀ l L g g', π.Move l L g g' → r g g') (hinv : π.inv ⟨[], w⟩)
    (h : m.exec π.ok cs (Sys.start w) = some c) (h' : m.exec π.ok cs' c = some c') :
    r c.glob c'.glob := by
  induction cs' generalizing cs c with
  | nil =>
      rw [Machine.exec, Option.some.injEq] at h'
      exact h' ▸ hrefl c.glob
  | cons ch rest ih =>
      obtain ⟨l, d, hm, hok, hrest⟩ := Machine.exec_cons h'
      have hd : m.exec π.ok (cs ++ [ch]) (Sys.start w) = some d := by
        rw [Machine.exec_append h]
        simp [Machine.exec, hm, hok]
      refine htrans _ _ _ ?_ (ih hd hrest)
      obtain ⟨hsame, -⟩ | ⟨a, x, L, -, hmove⟩ | ⟨e, -, hmove⟩ := hvalid.exec_step hinv h hm hok
      · exact hsame ▸ hrefl c.glob
      · exact hstep _ _ _ _ hmove
      · exact hstep _ _ _ _ hmove

end Results

end Interleave
