import OpenUnion.Interleave.Atomic

/-!
# What a process has noted before a statement

Some statements are right only because of what the process itself has read just
before.  When the reads are noted, that is a property of the process's own notes
at the statement, and no other process can change those.

* `Prog.Follows`: each statement of a program without transactions satisfies a
  condition on the notes made so far.
* `Prog.Follows.keeps`: such a program keeps to any conduct that asks no more.
* `Prog.Tells` is `Prog.Follows` with what is noted at each end, so that programs can be
  followed piece by piece.
* `Prog.Notes`: what the notes of a transaction body say of its value;
  `Prog.Body.does_noted` adds that to what the body does.
* `own_append_cons`: a note of a process splits the common history.
* `since_of_own`: the part of the history after the last note of a kind.
-/

namespace Interleave

variable {S : Type} {R : S → Type} {T ε α Q W K E H β γ : Type}

section Programs

variable (m : Machine S R T ε α Q W K E H) (a : Actor Q) (Out : List H → S → Prop)

/-- A program without transaction brackets, each statement of which satisfies `Out`
with the notes the process has made before it, whatever state each statement finds. -/
def Prog.Follows : Prog S R T ε β → List H → Prop
  | .ret _, _ => True
  | .fail _, _ => True
  | .op s next err, ns =>
      Out ns s ∧
      (∀ busy w, (next (m.engine.result s busy w)).Follows
        (m.note a (.stmt s (m.engine.result s busy w)) w ++ ns)) ∧
      err.Follows ns
  | .begin _, _ => False
  | .commit _ _ _, _ => False
  | .rollback _, _ => False

variable {m a Out} {τ : Terms W K H} {D : Conduct S T W K H} {known : W → Prop}

/-- A statement and what follows it. -/
@[simp] theorem Prog.follows_perform_bind [Inhabited ε] {s : S} {f : R s → Prog S R T ε β}
    {ns : List H} :
    ((perform s : Prog S R T ε (R s)).bind f).Follows m a Out ns ↔
      Out ns s ∧ ∀ busy w, (f (m.engine.result s busy w)).Follows m a Out
        (m.note a (.stmt s (m.engine.result s busy w)) w ++ ns) := by
  simp [Prog.Follows]

/-- A program whose statements follow from the notes keeps to a conduct that allows
such statements. -/
theorem Prog.Follows.keeps {p : Prog S R T ε β} (hp : ∀ ns, p.Follows m a Out ns)
    (hout : ∀ g s busy, Out (own a.pid g.hist) s → D.out g s busy) :
    p.Keeps m τ a D known := by
  have hwalk : ∀ (p : Prog S R T ε β) (σ : Stage W K H), p.Follows m a Out σ.trace →
      σ.Knows τ known →
      p.Does m τ a D (fun _ σ => σ.Knows τ known) (fun _ σ => σ.Knows τ known) σ := by
    intro p
    induction p with
    | ret x => exact fun σ _ hσ => hσ
    | fail e => exact fun σ _ hσ => hσ
    | op s next err ihn ihe =>
        intro σ hp hσ
        refine ⟨ihe σ hp.2.2 hσ, fun g busy _ hg _ => ⟨?_, ?_⟩⟩
        · rw [hσ.outside.1]
          exact hout g s busy (hg.trace ▸ hp.1)
        · have hknows := (hσ.after (m := m) (a := a) s busy g).mono fun _ hw => hw.1
          refine ihn _ _ ?_ hknows
          have htrace : (σ.after m τ a s busy g).trace =
              m.note a (.stmt s (m.engine.result s busy g.world)) g.world ++ σ.trace := by
            simp [Stage.after, Machine.afterStmt, hg.trace, hσ.outside.1, seenBy]
          rw [htrace, hσ.outside.1]
          exact hp.2.1 busy g.world
    | begin next ih => exact fun σ hp _ => hp.elim
    | commit t next err ihn ihe => exact fun σ hp _ => hp.elim
    | rollback next ih => exact fun σ hp _ => hp.elim
  exact fun σ hσ => hwalk p σ (hp σ.trace) hσ

variable (m a Out) in
/-- Each statement satisfies `Out` with the notes made before it, and so do `F` and `G`
with the notes at the normal ends and at the errors. -/
def Prog.Tells : Prog S R T ε β → (β → List H → Prop) → (ε → List H → Prop) → List H → Prop
  | .ret x, F, _, ns => F x ns
  | .fail e, _, G, ns => G e ns
  | .op s next err, F, G, ns =>
      Out ns s ∧
      (∀ busy w, (next (m.engine.result s busy w)).Tells F G
        (m.note a (.stmt s (m.engine.result s busy w)) w ++ ns)) ∧
      err.Tells F G ns
  | .begin _, _, _, _ => False
  | .commit _ _ _, _, _, _ => False
  | .rollback _, _, _, _ => False

variable {F : β → List H → Prop} {G : ε → List H → Prop} {ns : List H}

theorem Prog.Tells.follows {p : Prog S R T ε β} (h : p.Tells m a Out F G ns) :
    p.Follows m a Out ns := by
  induction p generalizing ns with
  | ret x => trivial
  | fail e => trivial
  | op s next err ihn ihe => exact ⟨h.1, fun busy w => ihn _ (h.2.1 busy w), ihe h.2.2⟩
  | begin next ih => exact h.elim
  | commit t next err ihn ihe => exact h.elim
  | rollback next ih => exact h.elim

/-- Sequencing. -/
theorem tells_bind {p : Prog S R T ε β} {f : β → Prog S R T ε γ} {F : γ → List H → Prop} :
    (p.bind f).Tells m a Out F G ns ↔
      p.Tells m a Out (fun x ns => (f x).Tells m a Out F G ns) G ns := by
  induction p generalizing ns with
  | ret x => rfl
  | fail e => rfl
  | op s next err ihn ihe => simp only [Prog.bind, Prog.Tells, ihn, ihe]
  | begin next ih => rfl
  | commit t next err ihn ihe => rfl
  | rollback next ih => rfl

/-- Exception handling. -/
theorem tells_orElse {p : Prog S R T ε β} {handler : ε → Prog S R T ε β} :
    (p.orElse handler).Tells m a Out F G ns ↔
      p.Tells m a Out F (fun e ns => (handler e).Tells m a Out F G ns) ns := by
  induction p generalizing ns with
  | ret x => rfl
  | fail e => rfl
  | op s next err ihn ihe => simp only [Prog.orElse, Prog.Tells, ihn, ihe]
  | begin next ih => rfl
  | commit t next err ihn ihe => rfl
  | rollback next ih => rfl

/-- Weaker ends. -/
theorem Prog.Tells.mono {p : Prog S R T ε β} {F' : β → List H → Prop} {G' : ε → List H → Prop}
    (h : p.Tells m a Out F G ns) (hF : ∀ x ns, F x ns → F' x ns) (hG : ∀ e ns, G e ns → G' e ns) :
    p.Tells m a Out F' G' ns := by
  induction p generalizing ns with
  | ret x => exact hF x ns h
  | fail e => exact hG e ns h
  | op s next err ihn ihe => exact ⟨h.1, fun busy w => ihn _ (h.2.1 busy w), ihe h.2.2⟩
  | begin next ih => exact h.elim
  | commit t next err ihn ihe => exact h.elim
  | rollback next ih => exact h.elim

/-- A program whose statements are allowed whatever has been noted. -/
theorem Prog.Every.tells {p : Prog S R T ε β} {Out' : S → Prop} (h : p.Every Out')
    (hout : ∀ ns s, Out' s → Out ns s) :
    p.Tells m a Out (fun _ _ => True) (fun _ _ => True) ns := by
  induction p generalizing ns with
  | ret x => trivial
  | fail e => trivial
  | op s next err ihn ihe => exact ⟨hout ns s h.1, fun _ _ => ihn _ (h.2.1 _), ihe h.2.2⟩
  | begin next ih => exact h.elim
  | commit t next err ihn ihe => exact h.elim
  | rollback next ih => exact h.elim

/-- A loop whose body keeps a fact about the notes. -/
theorem Prog.tells_forEach {f : β → Prog S R T ε Unit} {I : List H → Prop} {bs : List β}
    (hf : ∀ b ∈ bs, ∀ ns, I ns → (f b).Tells m a Out (fun _ => I) (fun _ => I) ns) (hI : I ns) :
    (forEach f bs).Tells m a Out (fun _ => I) (fun _ => I) ns := by
  induction bs generalizing ns with
  | nil => exact hI
  | cons b bs ih =>
      refine tells_bind.mpr ((hf b List.mem_cons_self ns hI).mono (fun _ ns h => ?_) fun _ _ h => h)
      exact ih (fun b hb => hf b (List.mem_cons_of_mem _ hb)) h

/-- A fact about the notes that further notes do not undo holds at the ends. -/
theorem Prog.Tells.keeping {p : Prog S R T ε β} {I : List H → Prop}
    (h : p.Tells m a Out F G ns) (hI : I ns) (hmono : ∀ new ns, I ns → I (new ++ ns)) :
    p.Tells m a Out (fun x ns => F x ns ∧ I ns) (fun e ns => G e ns ∧ I ns) ns := by
  induction p generalizing ns with
  | ret x => exact ⟨h, hI⟩
  | fail e => exact ⟨h, hI⟩
  | op s next err ihn ihe =>
      obtain ⟨hout, hnext, herr⟩ := h
      exact ⟨hout, fun busy w => ihn _ (hnext busy w) (hmono _ _ hI), ihe herr hI⟩
  | begin next ih => exact h.elim
  | commit t next err ihn ihe => exact h.elim
  | rollback next ih => exact h.elim

end Programs

section Bodies

variable (m : Machine S R T ε α Q W K E H) (a : Actor Q)

/-- The notes a transaction body has made when it ends normally satisfy `N`, together
with its value, whatever its statements have read and whatever was committed then. -/
def Prog.Notes : Prog S R T ε β → (β → List H → Prop) → List H → Prop
  | .ret x, N, ns => N x ns
  | .fail _, _, _ => True
  | .op s next err, N, ns =>
      (∀ busy seen w, (next (m.engine.result s busy seen)).Notes N
        (m.note a (.stmt s (m.engine.result s busy seen)) w ++ ns)) ∧
      err.Notes N ns
  | .begin _, _, _ => False
  | .commit _ _ _, _, _ => False
  | .rollback _, _, _ => False

variable {m a} {τ : Terms W K H} {D : Conduct S T W K H} {σ : Stage W K H} {Inner : W → S → Prop}
  {N : β → List H → Prop} {ns : List H}

/-- Sequencing. -/
theorem notes_bind {p : Prog S R T ε β} {f : β → Prog S R T ε γ} {N : γ → List H → Prop} :
    (p.bind f).Notes m a N ns ↔ p.Notes m a (fun x ns => (f x).Notes m a N ns) ns := by
  induction p generalizing ns with
  | ret x => rfl
  | fail e => rfl
  | op s next err ihn ihe => simp only [Prog.bind, Prog.Notes, ihn, ihe]
  | begin next ih => rfl
  | commit t next err ihn ihe => rfl
  | rollback next ih => rfl

/-- A statement and what follows it. -/
@[simp] theorem notes_perform_bind [Inhabited ε] {s : S} {f : R s → Prog S R T ε β} :
    ((perform s : Prog S R T ε (R s)).bind f).Notes m a N ns ↔
      ∀ busy seen w, (f (m.engine.result s busy seen)).Notes m a N
        (m.note a (.stmt s (m.engine.result s busy seen)) w ++ ns) := by
  simp [Prog.Notes]

/-- A body walked through keeps its notes in the trace. -/
theorem Prog.Notes.does {p : Prog S R T ε β} {G : ε → Stage W K H → Prop}
    {F : β → Stage W K H → Prop} (hn : p.Notes m a N σ.trace) (h : p.Does m τ a D F G σ) :
    p.Does m τ a D (fun x σ => F x σ ∧ N x σ.trace) G σ := by
  induction p generalizing σ with
  | ret x => exact ⟨h, hn⟩
  | fail e => exact h
  | op s next err ihn ihe =>
      refine ⟨ihe hn.2 h.1, fun g busy hinv hg hfree => ?_⟩
      obtain ⟨hpermits, hnext⟩ := h.2 g busy hinv hg hfree
      refine ⟨hpermits, ihn _ ?_ hnext⟩
      have htrace : (σ.after m τ a s busy g).trace =
          m.note a (.stmt s (m.engine.result s busy (seenBy σ.view g.world))) g.world ++
            σ.trace := by
        simp [Stage.after, Machine.afterStmt, hg.trace]
      rw [htrace]
      exact hn.1 busy (seenBy σ.view g.world) g.world
  | begin next ih => exact hn.elim
  | commit t next err ihn ihe => exact hn.elim
  | rollback next ih => exact hn.elim

/-- A transaction keeps to a conduct that allows what its commit does with the notes
of its body. -/
theorem Prog.Body.does_noted [Inhabited ε] {p : Prog S R T ε β} (tag : β → T) {known : W → Prop}
    (Q : β → Prop) (N : β → List H → Prop) (Effect : β → List K → W → W → Prop)
    (h : p.Body m.engine τ Inner (fun x v L P => Q x ∧ ∀ w, P w → Effect x L w (v w)) id [] known)
    (hn : p.Notes m a N σ.trace) (hσ : σ.Knows τ known)
    (hinside : ∀ g s busy seen, Inner g.world s → D.inside g s busy seen)
    (hcommit : ∀ g x L w, τ.inv g → N x (own a.pid g.hist) → Effect x L g.world w →
      D.commit g (tag x) L w) :
    (transaction tag p).Does m τ a D
      (fun x σ => σ.Knows τ known ∧ Q x ∧ ∃ g v L, τ.inv g ∧ Effect x L g.world (v g.world) ∧
        σ.Follows τ a.pid (m.afterCommit a (tag x) (some v) g))
      (fun _ σ => σ.Knows τ known) σ := by
  refine does_transaction hσ.outside.1 ?_
  have hinit : Stage.Inside τ { σ with view := some id } id [] known :=
    ⟨rfl, hσ.outside.2, fun g hinv hknown _ => hσ.facts g hinv hknown⟩
  have hwalk := h.does_inside (a := a) (D := D) hinit (fun _ h => h) hinside
  refine (Prog.Notes.does (σ := { σ with view := some id }) hn hwalk).mono ?_ ?_
    (fun _ _ _ h => h) (fun _ _ _ _ h => h) fun _ _ _ _ h => h
  · rintro x σ' ⟨⟨⟨v, L, P', hσ', hQ, hF⟩, hrecalls⟩, htrace⟩
    refine ⟨⟨⟨rfl, rfl⟩, fun g hinv hg => hσ.facts g hinv (hrecalls g hg)⟩, fun g hinv hholds => ?_⟩
    have heffect := hF g.world (hσ'.facts g hinv hholds.known hholds.pinned)
    refine ⟨⟨v, hσ'.view, ?_⟩, ⟨⟨rfl, rfl⟩, fun x hinv hx => ?_⟩, hQ, g, v, L, hinv, heffect, ?_⟩
    · refine hcommit g x _ _ hinv (hholds.trace ▸ htrace) ?_
      rw [hσ'.locks]
      exact heffect
    · exact hσ.facts x hinv (hrecalls x hx.1)
    · have hfollows := σ'.committed_follows m τ a (tag x) g
      rwa [hσ'.view] at hfollows
  · exact fun _ σ' hrecalls => ⟨⟨rfl, rfl⟩, fun g hinv hg => hσ.facts g hinv (hrecalls g hg)⟩

end Bodies

section Histories

variable {hist : List (Nat × H)} {i : Nat} {n : H} {ns rest : List H}

/-- A note of a process splits the common history into what came after it and what
came before. -/
theorem own_append_cons (h : own i hist = ns ++ n :: rest) :
    ∃ later earlier, hist = later ++ (i, n) :: earlier ∧ own i later = ns ∧
      own i earlier = rest := by
  induction hist generalizing ns with
  | nil => exact absurd h (by simp [own])
  | cons e hist ih =>
      obtain ⟨j, n'⟩ := e
      by_cases hj : j = i
      · subst hj
        have hcons : n' :: own j hist = ns ++ n :: rest := by
          simpa [own] using h
        cases ns with
        | nil =>
            obtain ⟨rfl, hrest⟩ := List.cons.inj hcons
            exact ⟨[], hist, rfl, rfl, hrest⟩
        | cons n'' ns =>
            obtain ⟨rfl, htail⟩ := List.cons.inj hcons
            obtain ⟨later, earlier, rfl, hlater, hearlier⟩ := ih htail
            refine ⟨(j, n') :: later, earlier, rfl, ?_, hearlier⟩
            simpa [own] using hlater
      · have hsame : own i hist = ns ++ n :: rest := by
          simpa [own, hj] using h
        obtain ⟨later, earlier, rfl, hlater, hearlier⟩ := ih hsame
        refine ⟨(j, n') :: later, earlier, rfl, ?_, hearlier⟩
        simpa [own, hj] using hlater

/-- An entry of a history that has been extended is new, or splits the old part. -/
theorem mem_or_split {α : Type} {x : α} {later earlier new old : List α}
    (h : later ++ x :: earlier = new ++ old) :
    x ∈ new ∨ ∃ c, old = c ++ x :: earlier ∧ later = new ++ c := by
  obtain ⟨c, hnew, hold⟩ | ⟨c, hlater, hold⟩ := List.append_eq_append_iff.mp h
  · cases c with
    | nil => exact Or.inr ⟨[], by simpa using hold.symm, by simpa using hnew.symm⟩
    | cons y c =>
        obtain ⟨rfl, -⟩ := List.cons.inj hold
        exact Or.inl (by simp [hnew])
  · exact Or.inr ⟨c, hold, hlater⟩

/-- The history since the last note of process `i` that satisfies `p`. -/
def since (i : Nat) (p : H → Bool) (hist : List (Nat × H)) : List (Nat × H) :=
  hist.takeWhile fun e => ! (decide (e.1 = i) && p e.2)

/-- The notes that follow the last one of a kind follow it in the common history. -/
theorem since_of_own {p : H → Bool} (h : own i hist = ns ++ n :: rest) (hn : p n = true)
    (hns : ∀ n' ∈ ns, p n' = false) :
    ∃ earlier, hist = since i p hist ++ (i, n) :: earlier := by
  obtain ⟨later, earlier, rfl, hlater, -⟩ := own_append_cons h
  refine ⟨earlier, ?_⟩
  have hpast : ∀ e ∈ later, (! (decide (e.1 = i) && p e.2)) = true := by
    rintro ⟨j, n'⟩ he
    by_cases hj : j = i
    · subst hj
      have hmem : n' ∈ ns := hlater ▸ mem_own.mpr he
      simp [hns n' hmem]
    · simp [hj]
  have hsince : since i p (later ++ (i, n) :: earlier) = later := by
    rw [since, List.takeWhile_append_of_pos hpast, List.takeWhile_cons_of_neg (by simp [hn]),
      List.append_nil]
  rw [hsince]

/-- What a process has noted last, with everything that came after it. -/
theorem since_of_findSome {f : H → Option β} {x : β} (h : (own i hist).findSome? f = some x) :
    ∃ n earlier, hist = since i (fun n => (f n).isSome) hist ++ (i, n) :: earlier ∧
      f n = some x := by
  obtain ⟨ns, n, rest, hown, hn, hns⟩ := List.findSome?_eq_some_iff.mp h
  obtain ⟨earlier, hsplit⟩ := since_of_own (p := fun n => (f n).isSome) hown (by simp [hn])
    fun n' hn' => by simp [hns n' hn']
  exact ⟨n, earlier, hsplit, hn⟩

/-- The last own note of a kind, with everything that came after it. -/
theorem since_of_exists {p : H → Bool} (h : ∃ n ∈ own i hist, p n = true) :
    ∃ n earlier, hist = since i p hist ++ (i, n) :: earlier ∧ p n = true := by
  obtain ⟨n, hn⟩ := Option.isSome_iff_exists.mp (List.find?_isSome.mpr h)
  obtain ⟨hp, ns, rest, hown, hns⟩ := List.find?_eq_some_iff_append.mp hn
  obtain ⟨earlier, hsplit⟩ := since_of_own hown hp fun n' hn' => by simpa using hns n' hn'
  exact ⟨n, earlier, hsplit, hp⟩

end Histories

end Interleave
