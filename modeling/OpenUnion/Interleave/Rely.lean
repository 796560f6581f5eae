import OpenUnion.Interleave.Machine

/-!
# Rely-guarantee reasoning for interleaved requests

A run interleaves the nodes of any number of request programs, so a request is
proved correct against what *any* other request may do between two of its nodes.
`Rules` fixes that contract:

* `inv` is the invariant of the database and the noted history;
* `guar a x L g g'` is what one step of request `a`, holding the locks `L`, is
  allowed to do;
* `idle i` is what is known about a process id that has not been used yet;
* `ok` is the condition a run's steps are assumed to meet.

An assertion is `Stable` for process `i` with locks `L` when no step of another
process, which cannot hold a lock in `L`, invalidates it.  `Safe` folds an
assertion over a program: at every node the assertion, the invariant and the
condition justify the step, and a new stable assertion is chosen for what comes
next.

The two main results are `Rules.exec_inv` (if every request is `Safe` then every
allowed run ends in the invariant) and `Rules.exec_guar` (every step of such a
run meets the guarantee).  After them come the rules the proofs about requests
use: weakening, and statements that leave everything of interest alone.
-/

namespace Interleave

variable {S : Type} {R : S → Type} {T ε α Q W K E H : Type}

/-- Assertions about the state and the history. -/
abbrev Assertion (W H : Type) := Glob W H → Prop

/-- The contract between concurrent requests. -/
structure Rules (m : Machine S R T ε α Q W K E H) where
  inv : Glob W H → Prop
  guar : Actor Q → Event S R T α → List K → Glob W H → Glob W H → Prop
  idle : Nat → Glob W H → Prop
  ok : Label S R T α Q E → Glob W H → Bool

variable {m : Machine S R T ε α Q W K E H} (ρ : Rules m)

/-- The outside world moves. -/
def Machine.afterEnv (m : Machine S R T ε α Q W K E H) (e : E) (g : Glob W H) : Glob W H :=
  { g with world := m.env e g.world }

/-- What process `i`, holding the locks `L`, must expect between two of its own
steps: a step of another process that holds none of them, or an outside move. -/
def Rules.Rely (i : Nat) (L : List K) (g g' : Glob W H) : Prop :=
  (∀ k ∈ L, m.engine.same k g.world g'.world) ∧
    ((∃ b x L', b.pid ≠ i ∧ (∀ k ∈ L, k ∉ L') ∧ ρ.guar b x L' g g') ∨
      ∃ e, ρ.ok (.env e) g = true ∧ g' = m.afterEnv e g)

/-- No step that must be expected invalidates the assertion. -/
def Rules.Stable (i : Nat) (L : List K) (P : Assertion W H) : Prop :=
  ∀ g g', ρ.inv g → ρ.inv g' → ρ.Rely i L g g' → P g → P g'

/-- The locks kept after a statement that locks `rows`: all of them inside a
transaction, none outside. -/
def keep (view : Option (W → W)) (rows L : List K) : List K :=
  match view with
  | none => L
  | some _ => rows ++ L

/-- What must hold where a program ends: of its value (or error), the overlay of
the open transaction, the locks held and the assertion reached. -/
abbrev Goal (W K H β : Type) := β → Option (W → W) → List K → Assertion W H → Prop

/-- The program keeps the invariant and meets the guarantee from any state that
satisfies the assertion, whatever the other processes do, and ends in `F` or, by
an error, in `G`. -/
def Rules.Wp (a : Actor Q) {β : Type} :
    Prog S R T ε β → Goal W K H β → Goal W K H ε →
      Option (W → W) → List K → Assertion W H → Prop
  | .ret x, F, _, view, L, P => F x view L P
  | .fail e, _, G, view, L, P => G e view L P
  | .op s next err, F, G, view, L, P =>
      (∀ g, ρ.inv g → P g → ρ.ok (.fault a) g = true → Rules.Wp a err F G view L P) ∧
      ∀ g busy, ρ.inv g → P g →
        ρ.ok (.event a (.stmt s (m.engine.result s busy (seenBy view g.world)))) g = true →
        (∀ k ∈ m.engine.locks s busy (seenBy view g.world), busy k = false) →
        ρ.inv (m.afterStmt a s busy view g) ∧
        ρ.guar a (.stmt s (m.engine.result s busy (seenBy view g.world)))
          (m.engine.locks s busy (seenBy view g.world) ++ L) g (m.afterStmt a s busy view g) ∧
        ∃ P', P' (m.afterStmt a s busy view g) ∧
          ρ.Stable a.pid (keep view (m.engine.locks s busy (seenBy view g.world)) L) P' ∧
          Rules.Wp a (next (m.engine.result s busy (seenBy view g.world))) F G
            (m.viewAfter s busy view g.world)
            (keep view (m.engine.locks s busy (seenBy view g.world)) L) P'
  | .begin next, F, G, view, L, P => view = none ∧ Rules.Wp a next F G (some id) L P
  | .commit t next err, F, G, view, L, P =>
      (∀ g, ρ.inv g → P g → ρ.ok (.fault a) g = true →
        ∃ P', P' g ∧ ρ.Stable a.pid [] P' ∧ Rules.Wp a err F G none [] P') ∧
      ∀ g, ρ.inv g → P g → ρ.ok (.event a (.commit t)) g = true →
        ρ.inv (m.afterCommit a t view g) ∧ ρ.guar a (.commit t) L g (m.afterCommit a t view g) ∧
        ∃ P', P' (m.afterCommit a t view g) ∧ ρ.Stable a.pid [] P' ∧
          Rules.Wp a next F G none [] P'
  | .rollback next, F, G, _, _, P =>
      ∀ g, ρ.inv g → P g → ρ.ok (.rollback a) g = true →
        ∃ P', P' g ∧ ρ.Stable a.pid [] P' ∧ Rules.Wp a next F G none [] P'

/-- A whole request is safe when its answer may be sent in the state it ends in;
an uncaught error ends it without a trace. -/
def Rules.Safe (a : Actor Q) (p : Prog S R T ε α) (view : Option (W → W)) (L : List K)
    (P : Assertion W H) : Prop :=
  ρ.Wp a p
    (fun x _ L P => ∀ g, ρ.inv g → P g → ρ.ok (.event a (.reply x)) g = true →
      ρ.inv (m.record a (.reply x) g) ∧ ρ.guar a (.reply x) L g (m.record a (.reply x) g))
    (fun _ _ _ _ => True) view L P

/-- What has to be shown about a machine for `inv` to hold along its runs. -/
structure Rules.Sound : Prop where
  env_inv : ∀ e g, ρ.inv g → ρ.ok (.env e) g = true → ρ.inv (m.afterEnv e g)
  idle_stable : ∀ i, ρ.Stable i [] (ρ.idle i)
  code_safe : ∀ i q g, ρ.inv g → ρ.ok (.spawn q) g = true →
    ρ.Safe ⟨i, q⟩ (m.code i q) none [] (ρ.idle i)

section Weakening

variable {ρ} {a : Actor Q} {β : Type} {view : Option (W → W)} {L : List K}
  {P P' : Assertion W H}

/-- A goal is antitone when a stronger assertion reaches it too. -/
def Rules.Antitone (F : Goal W K H β) : Prop :=
  ∀ x view L P P', (∀ g, ρ.inv g → P' g → P g) → F x view L P → F x view L P'

/-- A stronger assertion proves as much. -/
theorem Rules.Wp.mono {p : Prog S R T ε β} {F : Goal W K H β} {G : Goal W K H ε}
    (hF : ρ.Antitone F) (hG : ρ.Antitone G) (hp : ρ.Wp a p F G view L P)
    (hle : ∀ g, ρ.inv g → P' g → P g) : ρ.Wp a p F G view L P' := by
  induction p generalizing view L P P' with
  | ret x => exact hF _ _ _ _ _ hle hp
  | fail e => exact hG _ _ _ _ _ hle hp
  | op s next err _ihn ihe =>
      refine ⟨?_, ?_⟩
      · intro g hinv hP' hok
        exact ihe (hp.1 g hinv (hle g hinv hP') hok) hle
      · intro g busy hinv hP' hok hfree
        exact hp.2 g busy hinv (hle g hinv hP') hok hfree
  | begin next ih => exact ⟨hp.1, ih hp.2 hle⟩
  | commit t next err _ihn _ihe =>
      refine ⟨?_, ?_⟩
      · intro g hinv hP' hok
        exact hp.1 g hinv (hle g hinv hP') hok
      · intro g hinv hP' hok
        exact hp.2 g hinv (hle g hinv hP') hok
  | rollback next _ih =>
      intro g hinv hP' hok
      exact hp g hinv (hle g hinv hP') hok

/-- Weaker goals are reached as well. -/
theorem Rules.Wp.weaken {p : Prog S R T ε β} {F F' : Goal W K H β} {G G' : Goal W K H ε}
    (hF : ∀ x view L P, F x view L P → F' x view L P)
    (hG : ∀ e view L P, G e view L P → G' e view L P)
    (hp : ρ.Wp a p F G view L P) : ρ.Wp a p F' G' view L P := by
  induction p generalizing view L P with
  | ret x => exact hF _ _ _ _ hp
  | fail e => exact hG _ _ _ _ hp
  | op s next err ihn ihe =>
      refine ⟨?_, ?_⟩
      · intro g hinv hP hok
        exact ihe (hp.1 g hinv hP hok)
      · intro g busy hinv hP hok hfree
        obtain ⟨hinv', hguar, P', hP', hstable, hnext⟩ := hp.2 g busy hinv hP hok hfree
        exact ⟨hinv', hguar, P', hP', hstable, ihn _ hnext⟩
  | begin next ih => exact ⟨hp.1, ih hp.2⟩
  | commit t next err ihn ihe =>
      refine ⟨?_, ?_⟩
      · intro g hinv hP hok
        obtain ⟨P', hP', hstable, herr⟩ := hp.1 g hinv hP hok
        exact ⟨P', hP', hstable, ihe herr⟩
      · intro g hinv hP hok
        obtain ⟨hinv', hguar, P', hP', hstable, hnext⟩ := hp.2 g hinv hP hok
        exact ⟨hinv', hguar, P', hP', hstable, ihn hnext⟩
  | rollback next ih =>
      intro g hinv hP hok
      obtain ⟨P', hP', hstable, hnext⟩ := hp g hinv hP hok
      exact ⟨P', hP', hstable, ih hnext⟩

theorem Rules.Stable.true (i : Nat) : ρ.Stable i L fun _ => True :=
  fun _ _ _ _ _ _ => trivial

theorem Rules.Stable.and {i : Nat} (hP : ρ.Stable i L P) (hP' : ρ.Stable i L P') :
    ρ.Stable i L fun g => P g ∧ P' g :=
  fun g g' hg hg' hrely h => ⟨hP g g' hg hg' hrely h.1, hP' g g' hg hg' hrely h.2⟩

/-- More locks leave less to expect. -/
theorem Rules.Rely.fewer {i : Nat} {L L' : List K} {g g' : Glob W H}
    (h : ρ.Rely i L' g g') (hsub : L ⊆ L') : ρ.Rely i L g g' := by
  obtain ⟨hsame, hstep⟩ := h
  refine ⟨fun k hk => hsame k (hsub hk), ?_⟩
  rcases hstep with ⟨b, x, Lb, hne, hdisj, hguar⟩ | henv
  · exact Or.inl ⟨b, x, Lb, hne, fun k hk => hdisj k (hsub hk), hguar⟩
  · exact Or.inr henv

/-- An assertion stays stable when more locks are held. -/
theorem Rules.Stable.more {i : Nat} {L L' : List K} (hP : ρ.Stable i L P) (hsub : L ⊆ L') :
    ρ.Stable i L' P :=
  fun g g' hg hg' hrely h => hP g g' hg hg' (hrely.fewer hsub) h

end Weakening

section Soundness

/-- What the lock table and a live process have to do with each other: outside a
transaction nothing is locked, inside one only locked rows are overwritten. -/
structure Tidy (m : Machine S R T ε α Q W K E H) (held : List (Nat × K)) (i : Nat)
    (view : Option (W → W)) : Prop where
  unlocked : view = none → locksOf held i = []
  frame : ∀ v, view = some v → ∀ k, k ∉ locksOf held i → ∀ x, m.engine.same k x (v x)

/-- Only the process's own locks matter. -/
theorem Tidy.congr {held held' : List (Nat × K)} {i : Nat} {view : Option (W → W)}
    (h : Tidy m held i view) (hlocks : locksOf held' i = locksOf held i) :
    Tidy m held' i view := by
  refine ⟨fun hv => hlocks.trans (h.unlocked hv), fun v hv k hk x => ?_⟩
  exact h.frame v hv k (hlocks ▸ hk) x

/-- The system invariant: the rules' invariant, a lock table without sharing,
and for every live process an assertion that holds and makes it safe. -/
structure Rules.Good (c : Sys S R T ε α Q W K H) : Prop where
  inv : ρ.inv c.glob
  idle : ∀ i, c.nextPid ≤ i → ρ.idle i c.glob
  fresh : ∀ i, c.nextPid ≤ i → c.procs i = none
  held_live : ∀ i k, (i, k) ∈ c.held → ∃ p, c.procs i = some p
  excl : ∀ i j k, (i, k) ∈ c.held → (j, k) ∈ c.held → i = j
  tidy : ∀ i p, c.procs i = some p → Tidy m c.held i p.view
  safe : ∀ i p, c.procs i = some p → ∃ P, ρ.Stable i (locksOf c.held i) P ∧ P c.glob ∧
    ρ.Safe ⟨i, p.req⟩ p.prog p.view (locksOf c.held i) P

/-- A change of state that no other process than `i` notices: what is stable for
them still holds. -/
def Rules.Kept (c : Sys S R T ε α Q W K H) (i : Nat) (g' : Glob W H) : Prop :=
  ∀ j, j ≠ i → ∀ P, ρ.Stable j (locksOf c.held j) P → P c.glob → P g'

section Kept

variable {ρ} {c : Sys S R T ε α Q W K H} {i : Nat} {p : Proc S R T ε α Q W} {g' : Glob W H}

theorem Rules.Kept.same : ρ.Kept c i c.glob := fun _ _ _ _ hP => hP

/-- A step within the guarantee, holding locks nobody else holds, is kept. -/
theorem Rules.Good.kept_of_guar {q : Q} {x : Event S R T α} {L : List K} (hgood : ρ.Good c)
    (hL : ∀ k ∈ L, ∀ j, j ≠ i → (j, k) ∉ c.held) (hinv' : ρ.inv g')
    (hguar : ρ.guar ⟨i, q⟩ x L c.glob g')
    (hsame : ∀ k, k ∉ L → m.engine.same k c.glob.world g'.world) : ρ.Kept c i g' := by
  intro j hne P hstable hP
  have hdisj : ∀ k ∈ locksOf c.held j, k ∉ L := by
    intro k hk hkL
    exact hL k hkL j hne (mem_locksOf.mp hk)
  exact hstable c.glob g' hgood.inv hinv'
    ⟨fun k hk => hsame k (hdisj k hk), Or.inl ⟨⟨i, q⟩, x, L, hne.symm, hdisj, hguar⟩⟩ hP

theorem Rules.Good.live_lt (hgood : ρ.Good c) (hp : c.procs i = some p) : i < c.nextPid := by
  by_contra hge
  rw [hgood.fresh i (by omega)] at hp
  exact absurd hp (by simp)

theorem Rules.Good.locksOf_unused (hgood : ρ.Good c) {j : Nat} (hj : c.nextPid ≤ j) :
    locksOf c.held j = [] := by
  apply List.eq_nil_iff_forall_not_mem.mpr
  intro k hk
  obtain ⟨p, hp⟩ := hgood.held_live j k (mem_locksOf.mp hk)
  rw [hgood.fresh j hj] at hp
  exact absurd hp (by simp)

/-- Unused process ids stay idle over a change nobody notices. -/
theorem Rules.Good.idle_kept (hgood : ρ.Good c) (hsound : ρ.Sound) (hkept : ρ.Kept c i g')
    (hi : i < c.nextPid) : ∀ j, c.nextPid ≤ j → ρ.idle j g' := by
  intro j hj
  refine hkept j (by omega) (ρ.idle j) ?_ (hgood.idle j hj)
  rw [hgood.locksOf_unused hj]
  exact hsound.idle_stable j

/-- Continuing process `i` keeps the system invariant. -/
theorem Rules.Good.resume {prog : Prog S R T ε α} {view : Option (W → W)}
    {held : List (Nat × K)} {P : Assertion W H}
    (hgood : ρ.Good c) (hsound : ρ.Sound) (hp : c.procs i = some p)
    (hinv' : ρ.inv g') (hkept : ρ.Kept c i g')
    (hother : ∀ j, j ≠ i → locksOf held j = locksOf c.held j)
    (hexcl : ∀ k ∈ locksOf held i, ∀ j, j ≠ i → (j, k) ∉ c.held)
    (htidy : Tidy m held i view)
    (hstable : ρ.Stable i (locksOf held i) P) (hP : P g')
    (hsafe : ρ.Safe ⟨i, p.req⟩ prog view (locksOf held i) P) :
    ρ.Good (c.resume i p prog view held g') := by
  have hlive := hgood.live_lt hp
  have hold : ∀ j k, j ≠ i → (j, k) ∈ held → (j, k) ∈ c.held := by
    intro j k hne hk
    exact mem_locksOf.mp (hother j hne ▸ mem_locksOf.mpr hk)
  refine
    { inv := hinv', idle := hgood.idle_kept hsound hkept hlive, fresh := ?_, held_live := ?_,
      excl := ?_, tidy := ?_, safe := ?_ }
  · intro j hj
    have hj' : c.nextPid ≤ j := hj
    have hne : j ≠ i := by omega
    simpa [Sys.resume, hne] using hgood.fresh j hj'
  · intro j k hk
    by_cases hji : j = i
    · exact ⟨⟨p.req, prog, view⟩, by simp [Sys.resume, hji]⟩
    · obtain ⟨p', hp'⟩ := hgood.held_live j k (hold j k hji hk)
      exact ⟨p', by simpa [Sys.resume, hji] using hp'⟩
  · intro j j' k hj hj'
    have hj : (j, k) ∈ held := hj
    have hj' : (j', k) ∈ held := hj'
    by_cases h1 : j = i
    · by_cases h2 : j' = i
      · rw [h1, h2]
      · exact absurd (hold j' k h2 hj') (hexcl k (mem_locksOf.mpr (h1 ▸ hj)) j' h2)
    · by_cases h2 : j' = i
      · exact absurd (hold j k h1 hj) (hexcl k (mem_locksOf.mpr (h2 ▸ hj')) j h1)
      · exact hgood.excl j j' k (hold j k h1 hj) (hold j' k h2 hj')
  · intro j p' hj
    by_cases hji : j = i
    · subst hji
      have hp' : ⟨p.req, prog, view⟩ = p' := by simpa [Sys.resume] using hj
      exact hp' ▸ htidy
    · have hj' : c.procs j = some p' := by simpa [Sys.resume, hji] using hj
      exact (hgood.tidy j p' hj').congr (hother j hji)
  · intro j p' hj
    by_cases hji : j = i
    · subst hji
      have hp' : ⟨p.req, prog, view⟩ = p' := by simpa [Sys.resume] using hj
      exact hp' ▸ ⟨P, hstable, hP, hsafe⟩
    · have hj' : c.procs j = some p' := by simpa [Sys.resume, hji] using hj
      obtain ⟨P', hstable', hP', hsafe'⟩ := hgood.safe j p' hj'
      have hlocks : locksOf (c.resume i p prog view held g').held j = locksOf c.held j :=
        hother j hji
      rw [hlocks]
      exact ⟨P', hstable', hkept j hji P' hstable' hP', hsafe'⟩

/-- Ending process `i` keeps the system invariant. -/
theorem Rules.Good.retire (hgood : ρ.Good c) (hsound : ρ.Sound) (hp : c.procs i = some p)
    (hinv' : ρ.inv g') (hkept : ρ.Kept c i g') : ρ.Good (c.retire i g') := by
  have hlive := hgood.live_lt hp
  refine
    { inv := hinv', idle := hgood.idle_kept hsound hkept hlive, fresh := ?_, held_live := ?_,
      excl := ?_, tidy := ?_, safe := ?_ }
  · intro j hj
    have hj' : c.nextPid ≤ j := hj
    have hne : j ≠ i := by omega
    simpa [Sys.retire, hne] using hgood.fresh j hj'
  · intro j k hk
    obtain ⟨hmem, hne⟩ := mem_release.mp (show (j, k) ∈ release c.held i from hk)
    have hne : j ≠ i := hne
    obtain ⟨p', hp'⟩ := hgood.held_live j k hmem
    exact ⟨p', by simpa [Sys.retire, hne] using hp'⟩
  · intro j j' k hj hj'
    exact hgood.excl j j' k (mem_release.mp (show (j, k) ∈ release c.held i from hj)).1
      (mem_release.mp (show (j', k) ∈ release c.held i from hj')).1
  · intro j p' hj
    by_cases hji : j = i
    · subst hji
      simp [Sys.retire] at hj
    · have hj' : c.procs j = some p' := by simpa [Sys.retire, hji] using hj
      exact (hgood.tidy j p' hj').congr (locksOf_release_of_ne hji)
  · intro j p' hj
    by_cases hji : j = i
    · subst hji
      simp [Sys.retire] at hj
    · have hj' : c.procs j = some p' := by simpa [Sys.retire, hji] using hj
      obtain ⟨P', hstable', hP', hsafe'⟩ := hgood.safe j p' hj'
      have hlocks : locksOf (c.retire i g').held j = locksOf c.held j :=
        locksOf_release_of_ne hji
      rw [hlocks]
      exact ⟨P', hstable', hkept j hji P' hstable' hP', hsafe'⟩

end Kept

/-- What a step does to the state and the history: nothing, or something within
the guarantee, or an outside move. -/
inductive Rules.Step : Label S R T α Q E → Glob W H → Glob W H → Prop where
  | idle (l : Label S R T α Q E) (g : Glob W H) : (∀ a x, l ≠ .event a x) → Rules.Step l g g
  | event (a : Actor Q) (x : Event S R T α) (L : List K) (g g' : Glob W H) :
      ρ.guar a x L g g' → Rules.Step (.event a x) g g'
  | env (e : E) (g : Glob W H) : Rules.Step (.env e) g (m.afterEnv e g)

section Moves

variable {ρ} {c c' : Sys S R T ε α Q W K H} {i : Nat} {p : Proc S R T ε α Q W}
  {l : Label S R T α Q E}

/-- One of its own locks is nobody else's. -/
theorem Rules.Good.own (hgood : ρ.Good c) {k : K} (hk : k ∈ locksOf c.held i) :
    ∀ j, j ≠ i → (j, k) ∉ c.held := by
  intro j hne hj
  exact hne (hgood.excl j i k hj (mem_locksOf.mp hk))

/-- A lock that is not busy is nobody else's. -/
theorem not_held_of_free [DecidableEq K] {held : List (Nat × K)} {k : K}
    (hfree : busyFor held i k = false) : ∀ j, j ≠ i → (j, k) ∉ held := by
  intro j hne hj
  rw [busyFor_eq_true.mpr ⟨j, hne, hj⟩] at hfree
  exact absurd hfree (by simp)

/-- Outside its locks a statement leaves the committed state alone. -/
theorem Machine.afterStmt_same (a : Actor Q) (s : S) (busy : K → Bool) (view : Option (W → W))
    (g : Glob W H) {k : K} (hk : k ∉ m.engine.locks s busy (seenBy view g.world)) :
    m.engine.same k g.world (m.afterStmt a s busy view g).world := by
  have heffect := m.engine.effect_same s busy (seenBy view g.world) g.world k
  cases view with
  | none =>
      exact m.engine.same_trans _ _ _ _ heffect (m.engine.write_same s busy _ _ k hk)
  | some v => exact heffect

/-- Inside its locks only, the overlay of a transaction changes rows. -/
theorem Tidy.stmt {held : List (Nat × K)} {view : Option (W → W)} (h : Tidy m held i view)
    (s : S) (busy : K → Bool) (w : W) {rows : List K}
    (hrows : m.engine.locks s busy (seenBy view w) = rows) :
    Tidy m (match view with
      | none => held
      | some _ => rows.map (fun k => (i, k)) ++ held) i (m.viewAfter s busy view w) := by
  cases view with
  | none => exact ⟨fun _ => h.unlocked rfl, fun v hv => absurd hv (by simp [Machine.viewAfter])⟩
  | some v =>
      refine ⟨fun hv => absurd hv (by simp [Machine.viewAfter]), ?_⟩
      intro v' hv' k hk x
      have hv' : (fun x => m.engine.write s busy (v w) (v x)) = v' := by
        simpa [Machine.viewAfter] using hv'
      rw [locksOf_append, List.mem_append, not_or] at hk
      have hold := h.frame v rfl k hk.2 x
      have hwrite := m.engine.write_same s busy (v w) (v x) k (hrows ▸ hk.1)
      exact hv' ▸ m.engine.same_trans _ _ _ _ hold hwrite

/-- Letting the next node of a live process fail. -/
theorem Rules.Good.fault (hgood : ρ.Good c) (hsound : ρ.Sound) (hp : c.procs i = some p)
    (hrun : faultProc (E := E) i p c = some (l, c')) (hok : ρ.ok l c.glob = true) :
    ρ.Good c' ∧ ρ.Step l c.glob c'.glob := by
  obtain ⟨P, hstable, hP, hsafe⟩ := hgood.safe i p hp
  have htidy := hgood.tidy i p hp
  rcases p with ⟨q, prog, view⟩
  cases prog with
  | op s next err =>
      simp only [faultProc, Option.some.injEq, Prod.mk.injEq] at hrun
      obtain ⟨rfl, rfl⟩ := hrun
      have hsafe' := hsafe.1 c.glob hgood.inv hP hok
      exact ⟨hgood.resume hsound hp hgood.inv .same (fun _ _ => rfl) (fun k hk => hgood.own hk)
        htidy hstable hP hsafe', .idle _ _ nofun⟩
  | commit t next err =>
      simp only [faultProc, Option.some.injEq, Prod.mk.injEq] at hrun
      obtain ⟨rfl, rfl⟩ := hrun
      obtain ⟨P', hP', hstable', hsafe'⟩ := hsafe.1 c.glob hgood.inv hP hok
      refine ⟨?_, .idle _ _ nofun⟩
      refine hgood.resume (P := P') hsound hp hgood.inv .same
        (fun j hne => locksOf_release_of_ne hne) ?_ ?_ ?_ hP' ?_
      · simp
      · exact ⟨fun _ => locksOf_release_self, fun v hv => absurd hv (by simp)⟩
      · simpa using hstable'
      · rw [locksOf_release_self]
        exact hsafe'
  | ret x => simp [faultProc] at hrun
  | fail e => simp [faultProc] at hrun
  | begin next => simp [faultProc] at hrun
  | rollback next => simp [faultProc] at hrun

/-- A new request starts from what is known about an unused process id. -/
theorem Rules.Good.spawn (hgood : ρ.Good c) (hsound : ρ.Sound) {q : Q}
    (hok : ρ.ok (.spawn q) c.glob = true) :
    ρ.Good { c with
      procs := Function.update c.procs c.nextPid (some ⟨q, m.code c.nextPid q, none⟩)
      nextPid := c.nextPid + 1 } := by
  have hempty : locksOf c.held c.nextPid = [] := hgood.locksOf_unused (Nat.le_refl _)
  refine
    { inv := hgood.inv, idle := ?_, fresh := ?_, held_live := ?_, excl := hgood.excl,
      tidy := ?_, safe := ?_ }
  · intro i hi
    have hi : c.nextPid + 1 ≤ i := hi
    exact hgood.idle i (by omega)
  · intro i hi
    have hi : c.nextPid + 1 ≤ i := hi
    have hne : i ≠ c.nextPid := by omega
    simpa [hne] using hgood.fresh i (by omega)
  · intro i k hk
    obtain ⟨p, hp⟩ := hgood.held_live i k hk
    have hne : i ≠ c.nextPid := Nat.ne_of_lt (hgood.live_lt hp)
    exact ⟨p, by simpa [hne] using hp⟩
  · intro i p hp
    by_cases hi : i = c.nextPid
    · subst hi
      have hp' : ⟨q, m.code c.nextPid q, none⟩ = p := by simpa using hp
      exact hp' ▸ ⟨fun _ => hempty, fun v hv => absurd hv (by simp)⟩
    · exact hgood.tidy i p (by simpa [hi] using hp)
  · intro i p hp
    by_cases hi : i = c.nextPid
    · subst hi
      have hp' : ⟨q, m.code c.nextPid q, none⟩ = p := by simpa using hp
      refine hp' ▸ ⟨ρ.idle c.nextPid, ?_, hgood.idle _ (Nat.le_refl _), ?_⟩
      · exact hempty ▸ hsound.idle_stable _
      · exact hempty ▸ hsound.code_safe _ q _ hgood.inv hok
    · exact hgood.safe i p (by simpa [hi] using hp)

/-- An outside move is expected by every process. -/
theorem Rules.Good.env (hgood : ρ.Good c) (hsound : ρ.Sound) {e : E}
    (hok : ρ.ok (.env e) c.glob = true) : ρ.Good { c with glob := m.afterEnv e c.glob } := by
  have hinv' := hsound.env_inv e c.glob hgood.inv hok
  have hrely : ∀ i L, ρ.Rely i L c.glob (m.afterEnv e c.glob) := fun i L =>
    ⟨fun k _ => m.env_same e k _, Or.inr ⟨e, hok, rfl⟩⟩
  refine
    { inv := hinv', idle := ?_, fresh := hgood.fresh, held_live := hgood.held_live,
      excl := hgood.excl, tidy := hgood.tidy, safe := ?_ }
  · intro i hi
    exact hsound.idle_stable i c.glob _ hgood.inv hinv' (hrely i []) (hgood.idle i hi)
  · intro i p hp
    obtain ⟨P, hstable, hP, hsafe⟩ := hgood.safe i p hp
    exact ⟨P, hstable, hstable c.glob _ hgood.inv hinv' (hrely i _) hP, hsafe⟩

variable [DecidableEq K]

/-- Letting a live process execute its next node. -/
theorem Rules.Good.run (hgood : ρ.Good c) (hsound : ρ.Sound) (hp : c.procs i = some p)
    (hrun : m.runProc i p c = some (l, c')) (hok : ρ.ok l c.glob = true) :
    ρ.Good c' ∧ ρ.Step l c.glob c'.glob := by
  obtain ⟨P, hstable, hP, hsafe⟩ := hgood.safe i p hp
  have htidy := hgood.tidy i p hp
  rcases p with ⟨q, prog, view⟩
  cases prog with
  | ret x =>
      simp only [Machine.runProc, Option.some.injEq, Prod.mk.injEq] at hrun
      obtain ⟨rfl, rfl⟩ := hrun
      obtain ⟨hinv', hguar⟩ := hsafe c.glob hgood.inv hP hok
      have hkept : ρ.Kept c i (m.record ⟨i, q⟩ (.reply x) c.glob) :=
        hgood.kept_of_guar (fun k hk => hgood.own hk) hinv' hguar
          fun k _ => m.engine.same_refl k _
      exact ⟨hgood.retire hsound hp hinv' hkept, .event _ _ _ _ _ hguar⟩
  | fail e =>
      simp only [Machine.runProc, Option.some.injEq, Prod.mk.injEq] at hrun
      obtain ⟨rfl, rfl⟩ := hrun
      exact ⟨hgood.retire hsound hp hgood.inv .same, .idle _ _ nofun⟩
  | op s next err =>
      simp only [Machine.runProc] at hrun
      split at hrun
      · rename_i hfree
        simp only [Option.some.injEq, Prod.mk.injEq] at hrun
        obtain ⟨rfl, rfl⟩ := hrun
        have hfree' : ∀ k ∈ m.engine.locks s (busyFor c.held i) (seenBy view c.glob.world),
            busyFor c.held i k = false := by simpa using hfree
        obtain ⟨hinv', hguar, P', hP', hstable', hsafe'⟩ :=
          hsafe.2 c.glob (busyFor c.held i) hgood.inv hP hok hfree'
        have hkept := hgood.kept_of_guar (i := i) (q := q)
          (fun k hk => by
            rcases List.mem_append.mp hk with hk | hk
            · exact not_held_of_free (hfree' k hk)
            · exact hgood.own hk)
          hinv' hguar
          fun k hk => m.afterStmt_same _ _ _ _ _ fun h => hk (List.mem_append.mpr (Or.inl h))
        have htidy' := htidy.stmt s (busyFor c.held i) c.glob.world rfl
        refine ⟨?_, .event _ _ _ _ _ hguar⟩
        cases view with
        | none =>
            exact hgood.resume hsound hp hinv' hkept (fun _ _ => rfl) (fun k hk => hgood.own hk)
              htidy' hstable' hP' hsafe'
        | some v =>
            let rows := m.engine.locks s (busyFor c.held i) (seenBy (some v) c.glob.world)
            have hlocks : locksOf (rows.map (fun k => (i, k)) ++ c.held) i =
                rows ++ locksOf c.held i := locksOf_append rows
            refine hgood.resume (P := P') hsound hp hinv' hkept
              (fun j hne => locksOf_append_of_ne hne _) ?_ htidy' (hlocks ▸ hstable') hP'
              (hlocks ▸ hsafe')
            intro k hk
            rw [hlocks] at hk
            rcases List.mem_append.mp hk with hk | hk
            · exact not_held_of_free (hfree' k hk)
            · exact hgood.own hk
      · exact absurd hrun (by simp)
  | begin next =>
      simp only [Machine.runProc, Option.some.injEq, Prod.mk.injEq] at hrun
      obtain ⟨rfl, rfl⟩ := hrun
      obtain ⟨hview, hsafe'⟩ := hsafe
      have htidy' : Tidy m c.held i (some id) := by
        refine ⟨fun hv => absurd hv (by simp), fun v hv k _ x => ?_⟩
        rw [Option.some.injEq] at hv
        exact hv ▸ m.engine.same_refl k x
      exact ⟨hgood.resume hsound hp hgood.inv .same (fun _ _ => rfl) (fun k hk => hgood.own hk)
        htidy' hstable hP hsafe', .idle _ _ nofun⟩
  | commit t next err =>
      simp only [Machine.runProc, Option.some.injEq, Prod.mk.injEq] at hrun
      obtain ⟨rfl, rfl⟩ := hrun
      obtain ⟨hinv', hguar, P', hP', hstable', hsafe'⟩ := hsafe.2 c.glob hgood.inv hP hok
      have hsame : ∀ k, k ∉ locksOf c.held i →
          m.engine.same k c.glob.world (m.afterCommit ⟨i, q⟩ t view c.glob).world := by
        intro k hk
        cases view with
        | none => exact m.engine.same_refl k _
        | some v => exact htidy.frame v rfl k hk _
      have hkept := hgood.kept_of_guar (i := i) (q := q) (fun k hk => hgood.own hk) hinv' hguar hsame
      refine ⟨?_, .event _ _ _ _ _ hguar⟩
      refine hgood.resume (P := P') hsound hp hinv' hkept
        (fun j hne => locksOf_release_of_ne hne) ?_ ?_ ?_ hP' ?_
      · simp
      · exact ⟨fun _ => locksOf_release_self, fun v hv => absurd hv (by simp)⟩
      · simpa using hstable'
      · rw [locksOf_release_self]
        exact hsafe'
  | rollback next =>
      simp only [Machine.runProc, Option.some.injEq, Prod.mk.injEq] at hrun
      obtain ⟨rfl, rfl⟩ := hrun
      obtain ⟨P', hP', hstable', hsafe'⟩ := hsafe c.glob hgood.inv hP hok
      refine ⟨?_, .idle _ _ nofun⟩
      refine hgood.resume (P := P') hsound hp hgood.inv .same
        (fun j hne => locksOf_release_of_ne hne) ?_ ?_ ?_ hP' ?_
      · simp
      · exact ⟨fun _ => locksOf_release_self, fun v hv => absurd hv (by simp)⟩
      · simpa using hstable'
      · rw [locksOf_release_self]
        exact hsafe'

/-- Every choice the condition allows keeps the system invariant and is one of
the expected steps. -/
theorem Rules.Good.move (hgood : ρ.Good c) (hsound : ρ.Sound) {ch : Choice Q E}
    (hm : m.move ch c = some (l, c')) (hok : ρ.ok l c.glob = true) :
    ρ.Good c' ∧ ρ.Step l c.glob c'.glob := by
  cases ch with
  | spawn q =>
      simp only [Machine.move, Option.some.injEq, Prod.mk.injEq] at hm
      obtain ⟨rfl, rfl⟩ := hm
      exact ⟨hgood.spawn hsound hok, .idle _ _ nofun⟩
  | run i =>
      obtain ⟨p, hp, hrun⟩ := Option.bind_eq_some_iff.mp hm
      exact hgood.run hsound hp hrun hok
  | fault i =>
      obtain ⟨p, hp, hrun⟩ := Option.bind_eq_some_iff.mp hm
      exact hgood.fault hsound hp hrun hok
  | crash i =>
      obtain ⟨p, hp, hrun⟩ := Option.bind_eq_some_iff.mp hm
      simp only [Option.some.injEq, Prod.mk.injEq] at hrun
      obtain ⟨rfl, rfl⟩ := hrun
      exact ⟨hgood.retire hsound hp hgood.inv .same, .idle _ _ nofun⟩
  | env e =>
      simp only [Machine.move, Option.some.injEq, Prod.mk.injEq] at hm
      obtain ⟨rfl, rfl⟩ := hm
      exact ⟨hgood.env hsound hok, .env _ _⟩

end Moves

section Results

variable {ρ} {cs : List (Choice Q E)} {w : W} {c c' d : Sys S R T ε α Q W K H}

/-- Before any request the system invariant is the invariant of its state. -/
theorem Rules.good_start (hinv : ρ.inv ⟨[], w⟩) (hidle : ∀ i, ρ.idle i ⟨[], w⟩) :
    ρ.Good (Sys.start w) where
  inv := hinv
  idle i _ := hidle i
  fresh _ _ := rfl
  held_live _ _ h := absurd h (by simp [Sys.start])
  excl _ _ _ h := absurd h (by simp [Sys.start])
  tidy _ _ h := absurd h (by simp [Sys.start])
  safe _ _ h := absurd h (by simp [Sys.start])

/-- Every allowed run keeps the system invariant. -/
theorem Rules.exec_good [DecidableEq K] (hsound : ρ.Sound) (h : m.exec ρ.ok cs c = some d) (hc : ρ.Good c) :
    ρ.Good d :=
  Machine.exec_invariant ρ.Good
    (fun _ _ _ _ hgood hm hok => (hgood.move hsound hm hok).1) h hc

/-- If every request is safe, every allowed run ends in the invariant. -/
theorem Rules.exec_inv [DecidableEq K] (hsound : ρ.Sound) (hinv : ρ.inv ⟨[], w⟩)
    (hidle : ∀ i, ρ.idle i ⟨[], w⟩) (h : m.exec ρ.ok cs (Sys.start w) = some d) :
    ρ.inv d.glob :=
  (Rules.exec_good hsound h (Rules.good_start hinv hidle)).inv

/-- If every request is safe, every step after an allowed run is an expected one
between states of the invariant. -/
theorem Rules.exec_step [DecidableEq K] (hsound : ρ.Sound) (hinv : ρ.inv ⟨[], w⟩)
    (hidle : ∀ i, ρ.idle i ⟨[], w⟩) (h : m.exec ρ.ok cs (Sys.start w) = some c)
    {ch : Choice Q E} {l : Label S R T α Q E} (hm : m.move ch c = some (l, c'))
    (hok : ρ.ok l c.glob = true) :
    ρ.inv c.glob ∧ ρ.inv c'.glob ∧ ρ.Step l c.glob c'.glob := by
  have hgood := Rules.exec_good hsound h (Rules.good_start hinv hidle)
  obtain ⟨hgood', hstep⟩ := hgood.move hsound hm hok
  exact ⟨hgood.inv, hgood'.inv, hstep⟩

end Results

end Soundness

end Interleave
