import OpenUnion.Interleave.Conduct

/-!
# Transactions as atomic steps

The body of a transaction runs over an overlay nobody else sees, so all that can
be observed of it is what its commit does to the committed state.
`Prog.Body` computes that: it runs the body on overlays, and keeps a predicate
`P` of everything that is known about the committed state later on:

* each state a statement was executed in is below it (`Terms.grow`), and
* it agrees with that state on the rows locked by then, and on what else these
  locks protect.

`Prog.Body.does` turns the result into the conduct of the transaction.  Overlay
and predicate are passed on by their properties only, so that terms stay small
however long the body is.
-/

namespace Interleave

variable {S : Type} {R : S → Type} {T ε α Q W K E H β γ : Type}

/-- What holds where a body ends: of its value, the overlay, the locks, and what
is known of the committed state. -/
abbrev BodyGoal (W K β : Type) := β → (W → W) → List K → (W → Prop) → Prop

/-- From an overlay `v`, locks `L` and known facts `P` on, a transaction body
that executes only statements satisfying `Inner` ends in `F`. -/
def Prog.Body (e : Engine S R W K) (τ : Terms W K H) (Inner : W → S → Prop) :
    Prog S R T ε β → BodyGoal W K β → (W → W) → List K → (W → Prop) → Prop
  | .ret x, F, v, L, P => F x v L P
  | .fail _, _, _, _, _ => True
  | .op s next err, F, v, L, P =>
      (∀ w, P w → Inner w s) ∧ Prog.Body e τ Inner err F v L P ∧
      ∀ w busy v' P', P w →
        (∀ x, v' x = e.write s busy (v w) (v x)) →
        (∀ x, P' x → P x ∧ τ.grow w x ∧ τ.grow (e.effect s busy (v w) w) x ∧
          ∀ k ∈ e.locks s busy (v w) ++ L, e.same k w x ∧ τ.hold k w x) →
        Prog.Body e τ Inner (next (e.result s busy (v w))) F v' (e.locks s busy (v w) ++ L) P'
  | .begin _, _, _, _, _ => False
  | .commit _ _ _, _, _, _, _ => False
  | .rollback _, _, _, _, _ => False

section Structure

variable {e : Engine S R W K} {τ : Terms W K H} {Inner : W → S → Prop} {v : W → W} {L : List K}
  {P : W → Prop}

/-- Sequencing. -/
theorem body_bind {p : Prog S R T ε β} {f : β → Prog S R T ε γ} {F : BodyGoal W K γ} :
    (p.bind f).Body e τ Inner F v L P ↔
      p.Body e τ Inner (fun x v L P => (f x).Body e τ Inner F v L P) v L P := by
  induction p generalizing v L P with
  | ret x => rfl
  | fail x => rfl
  | op s next err ihn ihe => simp only [Prog.bind, Prog.Body, ihn, ihe]
  | begin next ih => rfl
  | commit t next err ihn ihe => rfl
  | rollback next ih => rfl

/-- Weaker ends. -/
theorem Prog.Body.mono {p : Prog S R T ε β} {F F' : BodyGoal W K β}
    (h : p.Body e τ Inner F v L P) (hF : ∀ x v L P, F x v L P → F' x v L P) :
    p.Body e τ Inner F' v L P := by
  induction p generalizing v L P with
  | ret x => exact hF _ _ _ _ h
  | fail x => trivial
  | op s next err ihn ihe =>
      obtain ⟨hinner, herr, hnext⟩ := h
      exact ⟨hinner, ihe herr, fun w busy v' P' hP hv hP' => ihn _ (hnext w busy v' P' hP hv hP')⟩
  | begin next ih => exact h
  | commit t next err ihn ihe => exact h
  | rollback next ih => exact h

/-- A statement of a body and what follows it. -/
theorem body_perform_bind [Inhabited ε] {s : S} {f : R s → Prog S R T ε β}
    {F : BodyGoal W K β} (hinner : ∀ w, P w → Inner w s)
    (h : ∀ w busy v' P', P w →
      (∀ x, v' x = e.write s busy (v w) (v x)) →
      (∀ x, P' x → P x ∧ τ.grow w x ∧ τ.grow (e.effect s busy (v w) w) x ∧
        ∀ k ∈ e.locks s busy (v w) ++ L, e.same k w x ∧ τ.hold k w x) →
      (f (e.result s busy (v w))).Body e τ Inner F v' (e.locks s busy (v w) ++ L) P') :
    ((perform s : Prog S R T ε (R s)).bind f).Body e τ Inner F v L P :=
  ⟨hinner, trivial, h⟩

end Structure

section Soundness

variable {m : Machine S R T ε α Q W K E H} {τ : Terms W K H} {a : Actor Q}
  {D : Conduct S T W K H} {σ : Stage W K H} {Inner : W → S → Prop}

/-- A stage inside a transaction with overlay `v`, locks `L` and known facts `P`. -/
structure Stage.Inside (τ : Terms W K H) (σ : Stage W K H) (v : W → W) (L : List K)
    (P : W → Prop) : Prop where
  view : σ.view = some v
  locks : σ.locks = L
  facts : ∀ g, τ.inv g → σ.known g → σ.pinned g → P g.world

theorem Stage.Inside.after {v : W → W} {L : List K} {P : W → Prop} (h : σ.Inside τ v L P) (s : S)
    (busy : K → Bool) (g : Glob W H) :
    (σ.after m τ a s busy g).Inside τ (fun x => m.engine.write s busy (v g.world) (v x))
      (m.engine.locks s busy (v g.world) ++ L)
      (fun x => P x ∧ τ.grow g.world x ∧
        τ.grow (m.engine.effect s busy (v g.world) g.world) x ∧
        ∀ k ∈ m.engine.locks s busy (v g.world) ++ L,
          m.engine.same k g.world x ∧ τ.hold k g.world x) := by
  refine ⟨?_, ?_, ?_⟩
  · simp [Stage.after, Machine.viewAfter, h.view]
  · simp [Stage.after, keep, h.view, seenBy, h.locks]
  · intro x hinv hknown hpinned
    simp only [Stage.after, h.view, h.locks, seenBy] at hknown hpinned
    exact ⟨h.facts x hinv hknown.1 hpinned.1, hknown.2.1, hknown.2.2, hpinned.2⟩

/-- What is known only grows. -/
def Stage.Recalls (known : Assertion W H) (σ : Stage W K H) : Prop := ∀ g, σ.known g → known g

/-- A body executed from inside a transaction. -/
theorem Prog.Body.does_inside {p : Prog S R T ε β} {F : BodyGoal W K β} {v : W → W} {L : List K}
    {P : W → Prop} {old : Assertion W H} (h : p.Body m.engine τ Inner F v L P)
    (hσ : σ.Inside τ v L P) (hold : σ.Recalls old)
    (hinside : ∀ g s busy seen, Inner g.world s → D.inside g s busy seen) :
    p.Does m τ a D (fun x σ => (∃ v L P, σ.Inside τ v L P ∧ F x v L P) ∧ σ.Recalls old)
      (fun _ σ => σ.Recalls old) σ := by
  induction p generalizing σ v L P with
  | ret x => exact ⟨⟨v, L, P, hσ, h⟩, hold⟩
  | fail x => exact hold
  | op s next err ihn ihe =>
      obtain ⟨hinner, herr, hnext⟩ := h
      refine ⟨ihe herr hσ hold, fun g busy hinv hholds hfree => ?_⟩
      have hP := hσ.facts g hinv hholds.known hholds.pinned
      refine ⟨?_, ?_⟩
      · rw [hσ.view]
        exact hinside g s busy _ (hinner _ hP)
      · have hnext' := hnext g.world busy _ _ hP (fun _ => rfl) (fun _ h => h)
        have hseen : seenBy σ.view g.world = v g.world := by simp [hσ.view, seenBy]
        rw [hseen]
        exact ihn _ hnext' (hσ.after s busy g) fun x hx => hold x hx.1
  | begin next ih => exact h.elim
  | commit t next err ihn ihe => exact h.elim
  | rollback next ih => exact h.elim

/-- A transaction keeps to a conduct that allows what its commit does; `Q` is what
its body shows of its value.  Afterwards the stage follows the commit. -/
theorem Prog.Body.does [Inhabited ε] {p : Prog S R T ε β} (tag : β → T) {known : W → Prop}
    (Q : β → Prop) (Effect : β → List K → W → W → Prop)
    (h : p.Body m.engine τ Inner (fun x v L P => Q x ∧ ∀ w, P w → Effect x L w (v w)) id [] known)
    (hσ : σ.Knows τ known) (hinside : ∀ g s busy seen, Inner g.world s → D.inside g s busy seen)
    (hcommit : ∀ g x L w, τ.inv g → Effect x L g.world w → D.commit g (tag x) L w) :
    (transaction tag p).Does m τ a D
      (fun x σ => σ.Knows τ known ∧ Q x ∧ ∃ g v L, τ.inv g ∧ Effect x L g.world (v g.world) ∧
        σ.Follows τ a.pid (m.afterCommit a (tag x) (some v) g))
      (fun _ σ => σ.Knows τ known) σ := by
  refine does_transaction hσ.outside.1 ?_
  have hinit : Stage.Inside τ { σ with view := some id } id [] known :=
    ⟨rfl, hσ.outside.2, fun g hinv hknown _ => hσ.facts g hinv hknown⟩
  refine (h.does_inside (a := a) (D := D) hinit (fun _ h => h) hinside).mono ?_ ?_
    (fun _ _ _ h => h) (fun _ _ _ _ h => h) fun _ _ _ _ h => h
  · rintro x σ' ⟨⟨v, L, P', hσ', hQ, hF⟩, hrecalls⟩
    refine ⟨⟨⟨rfl, rfl⟩, fun g hinv hg => hσ.facts g hinv (hrecalls g hg)⟩, fun g hinv hholds => ?_⟩
    have heffect := hF g.world (hσ'.facts g hinv hholds.known hholds.pinned)
    refine ⟨⟨v, hσ'.view, ?_⟩, ⟨⟨rfl, rfl⟩, fun x hinv hx => ?_⟩, hQ, g, v, L, hinv, heffect, ?_⟩
    · refine hcommit g x _ _ hinv ?_
      rw [hσ'.locks]
      exact heffect
    · exact hσ.facts x hinv (hrecalls x hx.1)
    · have hfollows := σ'.committed_follows m τ a (tag x) g
      rwa [hσ'.view] at hfollows
  · exact fun _ σ' hrecalls => ⟨⟨rfl, rfl⟩, fun g hinv hg => hσ.facts g hinv (hrecalls g hg)⟩

end Soundness

end Interleave
