import OpenUnion.Interleave.Progress
import OpenUnion.Interleave.Traces

/-!
# Programs that finish what they have begun

Some notes open a debt that the process has to settle with a later statement.  A node
that fails in between, or a crash, leaves it open; a program that settles its debts ends
with nothing open in every other case.

* `Prog.Settles`: each statement satisfies a condition on the notes made so far, and the
  ends satisfy `F` and `G`, unless a node fails while something is open.
* `Machine.exec_settled`: in runs in which no node fails and no process is killed while it
  has something open, what has ended has nothing open.
-/

namespace Interleave

variable {S : Type} {R : S → Type} {T ε α Q W K E H β γ : Type}

/-- What is asked of the programs of a run. -/
structure Debts (S : Type) (R : S → Type) (H : Type) where
  /-- What a statement must meet, given the notes made so far. -/
  Out : List H → S → Prop
  /-- The answers the run leaves possible, given the notes made so far. -/
  Gets : List H → (s : S) → R s → Prop

section Programs

variable (m : Machine S R T ε α Q W K E H) (a : Actor Q) (Open : List H → Prop) (d : Debts S R H)

/-- The statements of the program satisfy `Out` with the notes made before them, and its
ends satisfy `F` and `G`, whatever the statements find; no node fails while something is
open. -/
def Prog.Settles : Prog S R T ε β → (β → List H → Prop) → (ε → List H → Prop) → List H → Prop
  | .ret x, F, _, ns => F x ns
  | .fail e, _, G, ns => G e ns
  | .op s next err, F, G, ns =>
      d.Out ns s ∧
      (∀ busy seen w, d.Gets ns s (m.engine.result s busy seen) →
        (next (m.engine.result s busy seen)).Settles F G
          (m.note a (.stmt s (m.engine.result s busy seen)) w ++ ns)) ∧
      (¬ Open ns → err.Settles F G ns)
  | .begin next, F, G, ns => next.Settles F G ns
  | .commit t next err, F, G, ns =>
      (∀ w, next.Settles F G (m.note a (.commit t) w ++ ns)) ∧ (¬ Open ns → err.Settles F G ns)
  | .rollback next, F, G, ns => next.Settles F G ns

variable {m a Open d} {F : β → List H → Prop} {G : ε → List H → Prop} {ns : List H}

/-- Sequencing. -/
theorem settles_bind {p : Prog S R T ε β} {f : β → Prog S R T ε γ} {F : γ → List H → Prop} :
    (p.bind f).Settles m a Open d F G ns ↔
      p.Settles m a Open d (fun x ns => (f x).Settles m a Open d F G ns) G ns := by
  induction p generalizing ns with
  | ret x => rfl
  | fail e => rfl
  | op s next err ihn ihe => simp only [Prog.bind, Prog.Settles, ihn, ihe]
  | begin next ih => simp only [Prog.bind, Prog.Settles, ih]
  | commit t next err ihn ihe => simp only [Prog.bind, Prog.Settles, ihn, ihe]
  | rollback next ih => simp only [Prog.bind, Prog.Settles, ih]

/-- Exception handling. -/
theorem settles_orElse {p : Prog S R T ε β} {handler : ε → Prog S R T ε β} :
    (p.orElse handler).Settles m a Open d F G ns ↔
      p.Settles m a Open d F (fun e ns => (handler e).Settles m a Open d F G ns) ns := by
  induction p generalizing ns with
  | ret x => rfl
  | fail e => rfl
  | op s next err ihn ihe => simp only [Prog.orElse, Prog.Settles, ihn, ihe]
  | begin next ih => simp only [Prog.orElse, Prog.Settles, ih]
  | commit t next err ihn ihe => simp only [Prog.orElse, Prog.Settles, ihn, ihe]
  | rollback next ih => simp only [Prog.orElse, Prog.Settles, ih]

/-- Weaker ends. -/
theorem Prog.Settles.mono {p : Prog S R T ε β} {F' : β → List H → Prop} {G' : ε → List H → Prop}
    (h : p.Settles m a Open d F G ns) (hF : ∀ x ns, F x ns → F' x ns) (hG : ∀ e ns, G e ns → G' e ns) :
    p.Settles m a Open d F' G' ns := by
  induction p generalizing ns with
  | ret x => exact hF x ns h
  | fail e => exact hG e ns h
  | op s next err ihn ihe =>
      obtain ⟨hout, hnext, herr⟩ := h
      exact ⟨hout, fun busy seen w hgets => ihn _ (hnext busy seen w hgets),
        fun hopen => ihe (herr hopen)⟩
  | begin next ih => exact ih h
  | commit t next err ihn ihe => exact ⟨fun w => ihn (h.1 w), fun hopen => ihe (h.2 hopen)⟩
  | rollback next ih => exact ih h

/-- A program none of whose statements opens anything. -/
theorem Prog.Tells.settles {p : Prog S R T ε β} {Out : List H → S → Prop}
    {F : β → List H → Prop} {G : ε → List H → Prop} (h : p.Tells m a Out F G ns)
    (hns : ¬ Open ns) (hd : ∀ ns s, d.Out ns s)
    (hsame : ∀ s r w w', m.note a (.stmt s r) w = m.note a (.stmt s r) w')
    (hopen : ∀ ns s r w, Out ns s → ¬ Open ns → ¬ Open (m.note a (.stmt s r) w ++ ns)) :
    p.Settles m a Open d (fun _ ns => ¬ Open ns) (fun _ ns => ¬ Open ns) ns := by
  induction p generalizing ns with
  | ret x => exact hns
  | fail e => exact hns
  | op s next err ihn ihe =>
      obtain ⟨hout, hnext, herr⟩ := h
      refine ⟨hd ns s, fun busy seen w _ => ?_, fun _ => ihe herr hns⟩
      rw [hsame s _ w seen]
      exact ihn _ (hnext busy seen) (hopen ns s _ seen hout hns)
  | begin next ih => exact h.elim
  | commit t next err ihn ihe => exact h.elim
  | rollback next ih => exact h.elim

/-- A program without transactions, none of whose statements is noted. -/
theorem Prog.Every.settles {p : Prog S R T ε β} {Out' : S → Prop} (h : p.Every Out')
    (hout : ∀ s, Out' s → d.Out ns s ∧ ∀ r w, m.note a (.stmt s r) w = [])
    (hF : ∀ x, F x ns) (hG : ∀ e, G e ns) : p.Settles m a Open d F G ns := by
  induction p with
  | ret x => exact hF x
  | fail e => exact hG e
  | op s next err ihn ihe =>
      obtain ⟨hs, hnote⟩ := hout s h.1
      refine ⟨hs, fun busy seen w _ => ?_, fun _ => ihe h.2.2⟩
      rw [hnote, List.nil_append]
      exact ihn _ (h.2.1 _)
  | begin next ih => exact h.elim
  | commit t next err ihn ihe => exact h.elim
  | rollback next ih => exact h.elim

/-- A program of a process that notes nothing. -/
theorem Prog.settles_silent (p : Prog S R T ε β) (hnote : ∀ x w, m.note a x w = [])
    (hout : ∀ s, d.Out ns s) (hF : ∀ x, F x ns) (hG : ∀ e, G e ns) : p.Settles m a Open d F G ns := by
  induction p with
  | ret x => exact hF x
  | fail e => exact hG e
  | op s next err ihn ihe =>
      refine ⟨hout s, fun busy seen w _ => ?_, fun _ => ihe⟩
      rw [hnote, List.nil_append]
      exact ihn _
  | begin next ih => exact ih
  | commit t next err ihn ihe =>
      refine ⟨fun w => ?_, fun _ => ihe⟩
      rw [hnote, List.nil_append]
      exact ihn
  | rollback next ih => exact ih

/-- A transaction whose commits are not noted. -/
theorem settles_transaction [Inhabited ε] {tag : β → T} {body : Prog S R T ε β}
    (hnote : ∀ t w, m.note a (.commit t) w = []) (hG : ∀ ns, ¬ Open ns → G default ns)
    (h : body.Settles m a Open d F G ns) : (transaction tag body).Settles m a Open d F G ns := by
  change (body.seal tag).Settles m a Open d F G ns
  induction body generalizing ns with
  | ret x =>
      refine ⟨fun w => ?_, hG ns⟩
      rw [hnote, List.nil_append]
      exact h
  | fail e => exact h
  | op s next err ihn ihe =>
      obtain ⟨hout, hnext, herr⟩ := h
      exact ⟨hout, fun busy seen w hgets => ihn _ (hnext busy seen w hgets),
        fun hopen => ihe (herr hopen)⟩
  | begin next ih => exact ih h
  | commit t next err ihn ihe => exact ⟨fun w => ihn (h.1 w), fun hopen => ihe (h.2 hopen)⟩
  | rollback next ih => exact ih h

/-- A loop whose body keeps a fact about the notes. -/
theorem settles_forEach {f : β → Prog S R T ε Unit} {I : List H → Prop} {bs : List β}
    (hf : ∀ b ∈ bs, ∀ ns, I ns → (f b).Settles m a Open d (fun _ => I) (fun _ => I) ns) (hI : I ns) :
    (forEach f bs).Settles m a Open d (fun _ => I) (fun _ => I) ns := by
  induction bs generalizing ns with
  | nil => exact hI
  | cons b bs ih =>
      refine settles_bind.mpr ((hf b List.mem_cons_self ns hI).mono (fun _ ns h => ?_) fun _ _ h => h)
      exact ih (fun b hb => hf b (List.mem_cons_of_mem _ hb)) h

end Programs

section Runs

variable [DecidableEq K] {m : Machine S R T ε α Q W K E H} {ok : Label S R T α Q E → Glob W H → Bool}
  {c c' : Sys S R T ε α Q W K H} {cs : List (Choice Q E)} {w : W} {ch : Choice Q E}

/-- What a statement answers is what the engine makes of it. -/
theorem Machine.move_result {a : Actor Q} {s : S} {r : R s}
    (h : m.move ch c = some (.event a (.stmt s r), c')) :
    ∃ busy seen, r = m.engine.result s busy seen := by
  cases ch with
  | run i =>
      obtain ⟨p, -, hrun⟩ := Option.bind_eq_some_iff.mp h
      obtain ⟨q, prog, view⟩ := p
      cases prog with
      | op s' next err =>
          simp only [Machine.runProc] at hrun
          split at hrun
          · simp only [Option.some.injEq, Prod.mk.injEq, Label.event.injEq, Event.stmt.injEq] at hrun
            obtain ⟨⟨-, rfl, hr⟩, -⟩ := hrun
            exact ⟨_, _, (eq_of_heq hr).symm⟩
          · exact absurd hrun (by simp)
      | _ => exact absurd hrun (by simp [Machine.runProc])
  | fault i =>
      obtain ⟨p, -, hrun⟩ := Option.bind_eq_some_iff.mp h
      obtain ⟨rest, -, -, -, -, -, hl⟩ := faultProc_advances hrun
      exact absurd hl (by simp)
  | crash i =>
      obtain ⟨p, -, hrun⟩ := Option.bind_eq_some_iff.mp h
      exact absurd hrun (by simp)
  | spawn q => exact absurd h (by simp [Machine.move])
  | env e => exact absurd h (by simp [Machine.move])

/-- The live programs settle what they have open, and what has ended has nothing open. -/
structure Settled (m : Machine S R T ε α Q W K E H) (Open : List H → Prop)
    (d : Actor Q → Debts S R H) (c : Sys S R T ε α Q W K H) : Prop where
  live : ∀ i q p, c.program i = some (q, p) →
    p.Settles m ⟨i, q⟩ Open (d ⟨i, q⟩) (fun _ ns => ¬ Open ns) (fun _ ns => ¬ Open ns)
      (own i c.glob.hist)
  ended : ∀ i, c.program i = none → ¬ Open (own i c.glob.hist)

variable {Open : List H → Prop} {d : Actor Q → Debts S R H}

omit [DecidableEq K] in
/-- What a step of a process that settles its debts leaves of it. -/
theorem Prog.Settles.advances {a : Actor Q} {p : Prog S R T ε α} {l : Label S R T α Q E}
    {rest : Option (Prog S R T ε α)} {hist : List (Nat × H)}
    (h : p.Settles m a Open (d a) (fun _ ns => ¬ Open ns) (fun _ ns => ¬ Open ns) (own a.pid hist))
    (hstep : p.Advances a l rest) (hreply : ∀ x w, m.note a (.reply x) w = [])
    (hresult : ∀ s r, l = .event a (.stmt s r) → (d a).Gets (own a.pid hist) s r ∧
      ∃ busy seen, r = m.engine.result s busy seen)
    (hfail : l = .fault a ∨ l = .crash a → ¬ Open (own a.pid hist)) (w : W) :
    match rest with
    | some p' => p'.Settles m a Open (d a) (fun _ ns => ¬ Open ns) (fun _ ns => ¬ Open ns)
        (own a.pid (m.noted l w ++ hist))
    | none => ¬ Open (own a.pid (m.noted l w ++ hist)) := by
  have hown : ∀ x, own a.pid (m.noted (.event a x) w ++ hist) = m.note a x w ++ own a.pid hist := by
    intro x
    rw [own_append]
    exact congrArg (· ++ own a.pid hist) own_entries_self
  cases hstep with
  | reply x =>
      change ¬ Open (own a.pid (m.noted (.event a (.reply x)) w ++ hist))
      rw [hown, hreply, List.nil_append]
      exact h
  | error e => exact h
  | stmt s next err r =>
      obtain ⟨hgets, busy, seen, rfl⟩ := hresult s r rfl
      dsimp only
      rw [hown]
      exact h.2.1 busy seen w hgets
  | begin next => exact h
  | commit t next err =>
      dsimp only
      rw [hown]
      exact h.1 w
  | rollback next => exact h
  | fault s next err => exact h.2.2 (hfail (Or.inl rfl))
  | abort t next err => exact h.2 (hfail (Or.inl rfl))
  | crash p => exact hfail (Or.inr rfl)

/-- In a run in which nothing fails while something is open, every debt is settled by the
end of its process. -/
theorem Machine.exec_settled
    (hcode : ∀ i q, (m.code i q).Settles m ⟨i, q⟩ Open (d ⟨i, q⟩) (fun _ ns => ¬ Open ns)
      (fun _ ns => ¬ Open ns) [])
    (hnil : ¬ Open []) (hreply : ∀ a x w, m.note a (.reply x) w = [])
    (hgets : ∀ a s r g, ok (.event a (.stmt s r)) g = true → (d a).Gets (own a.pid g.hist) s r)
    (hfail : ∀ a l g, ok l g = true → l = .fault a ∨ l = .crash a → ¬ Open (own a.pid g.hist))
    (h : m.exec ok cs (Sys.start w) = some c) : Settled m Open d c := by
  have hstart : Settled m Open d (Sys.start w) :=
    ⟨fun _ _ _ h => absurd h (by simp [Sys.program, Sys.start]), fun _ _ => hnil⟩
  refine Machine.exec_induction (I := Settled m Open d) hstart ?_ h
  intro cs c ch l c' hrun hsettled hmove hok
  have hkept : ∀ j, c'.program j = c.program j → own j c'.glob.hist = own j c.glob.hist →
      (∀ q p, c'.program j = some (q, p) →
        p.Settles m ⟨j, q⟩ Open (d ⟨j, q⟩) (fun _ ns => ¬ Open ns) (fun _ ns => ¬ Open ns)
          (own j c'.glob.hist)) ∧
      (c'.program j = none → ¬ Open (own j c'.glob.hist)) := by
    intro j hprogram hown
    rw [hprogram, hown]
    exact ⟨hsettled.live j, hsettled.ended j⟩
  suffices hall : ∀ j, (∀ q p, c'.program j = some (q, p) →
      p.Settles m ⟨j, q⟩ Open (d ⟨j, q⟩) (fun _ ns => ¬ Open ns) (fun _ ns => ¬ Open ns)
        (own j c'.glob.hist)) ∧
      (c'.program j = none → ¬ Open (own j c'.glob.hist)) from
    ⟨fun j => (hall j).1, fun j => (hall j).2⟩
  intro j
  obtain ⟨q, rfl, hnew, hothers, -, hglob⟩ | ⟨e, rfl, hprograms, -, hhist⟩ |
      ⟨i, q, p, rest, hp, hadvances, hself, hothers, -, hhist⟩ := Machine.move_program hmove
  · by_cases hj : j = c.nextPid
    · subst hj
      rw [hnew, hglob, (Machine.exec_unused hrun _ (Nat.le_refl _)).2]
      refine ⟨?_, fun hnone => absurd hnone (by simp)⟩
      rintro q' p' ⟨⟩
      exact hcode _ _
    · exact hkept j (hothers j hj) (by rw [hglob])
  · exact hkept j (hprograms j) (by rw [hhist])
  · by_cases hj : j = i
    · subst hj
      have hrest := (hsettled.live j q p hp).advances (a := ⟨j, q⟩) hadvances (hreply _)
        (fun s r hl => ⟨hgets _ s r c.glob (hl ▸ hok), Machine.move_result (hl ▸ hmove)⟩)
        (fun hl => hfail _ l c.glob hok hl) c.glob.world
      rw [hself, hhist]
      cases rest with
      | none => exact ⟨fun q' p' h => absurd h (by simp), fun _ => hrest⟩
      | some p' =>
          refine ⟨?_, fun hnone => absurd hnone (by simp)⟩
          rintro q' p'' ⟨⟩
          exact hrest
    · exact hkept j (hothers j hj) (hadvances.own_hist hhist hj)

end Runs

end Interleave
