import OpenUnion.Interleave.Prog

/-!
# Interleaved requests over one READ COMMITTED database

A system is a database state, any number of live request programs and the row
locks their open transactions hold.  A run is a list of scheduler choices: start
a request, let one live request execute its next node, let that node fail, kill
a request, or let the outside world move.  No choice is favoured, so a statement
about every list of choices is a statement about every interleaving.

Transactions follow READ COMMITTED with row locks held to commit:

* a statement reads the newest committed state, overlaid by the writes of its
  own open transaction (`view`);
* a statement that locks rows waits until no other open transaction holds them
  (`busy`), and inside a transaction the locks are kept until it ends;
* the writes of a transaction stay in its `view` and reach the database at its
  commit, all at once; a rollback or a crash drops them;
* what a statement does outside the database (a call to a payment provider, a
  broadcast, drawing a fresh identifier) is its `effect`: it happens at once and
  no rollback undoes it.

The rows a statement changes are rows it locks (`write_same`), and `same k` says
that two states agree on the row of lock `k`.
-/

namespace Interleave

/-- The meaning of statements.  `busy k` tells whether another open transaction
holds lock `k`; `seen` is the state the statement reads. -/
structure Engine (S : Type) (R : S → Type) (W K : Type) where
  result : (s : S) → (K → Bool) → W → R s
  locks : S → (K → Bool) → W → List K
  write : S → (K → Bool) → W → W → W
  effect : S → (K → Bool) → W → W → W
  same : K → W → W → Prop
  same_refl : ∀ k w, same k w w
  same_trans : ∀ k a b c, same k a b → same k b c → same k a c
  write_same : ∀ s busy seen w k, k ∉ locks s busy seen → same k w (write s busy seen w)
  effect_same : ∀ s busy seen w k, same k w (effect s busy seen w)

/-- A live request: its process id and what was asked. -/
structure Actor (Q : Type) where
  pid : Nat
  req : Q

/-- The visible events of a request. -/
inductive Event (S : Type) (R : S → Type) (T α : Type) where
  | stmt (s : S) (r : R s)
  | commit (t : T)
  | reply (a : α)

/-- What a scheduler choice amounts to. -/
inductive Label (S : Type) (R : S → Type) (T α Q E : Type) where
  | spawn (q : Q)
  | env (e : E)
  | event (a : Actor Q) (x : Event S R T α)
  | fault (a : Actor Q)
  | crash (a : Actor Q)
  | rollback (a : Actor Q)
  | quiet (a : Actor Q)

/-- A scheduler choice. -/
inductive Choice (Q E : Type) where
  | spawn (q : Q)
  | run (i : Nat)
  | fault (i : Nat)
  | crash (i : Nat)
  | env (e : E)

/-- The database state together with the noted history, newest entry first: who
did it, and the note. -/
structure Glob (W H : Type) where
  hist : List (Nat × H)
  world : W

/-- A live request program; `view` is present while a transaction is open and
overlays its own writes on the committed state. -/
structure Proc (S : Type) (R : S → Type) (T ε α Q W : Type) where
  req : Q
  prog : Prog S R T ε α
  view : Option (W → W)

/-- A system: state and history, live programs, and who holds which lock. -/
structure Sys (S : Type) (R : S → Type) (T ε α Q W K H : Type) where
  glob : Glob W H
  procs : Nat → Option (Proc S R T ε α Q W)
  nextPid : Nat
  held : List (Nat × K)

/-- Statements, request programs, the outside world and the history kept. -/
structure Machine (S : Type) (R : S → Type) (T ε α Q W K E H : Type) where
  engine : Engine S R W K
  code : Nat → Q → Prog S R T ε α
  env : E → W → W
  env_same : ∀ e k w, engine.same k w (env e w)
  note : Actor Q → Event S R T α → W → List H

variable {S : Type} {R : S → Type} {T ε α Q W K E H : Type}

/-- The notes of process `i`, newest first. -/
def own (i : Nat) (hist : List (Nat × H)) : List H :=
  (hist.filter fun e => e.1 = i).map Prod.snd

/-- The state a statement reads. -/
def seenBy (view : Option (W → W)) (w : W) : W :=
  match view with
  | none => w
  | some v => v w

/-- The locks process `i` holds. -/
def locksOf (held : List (Nat × K)) (i : Nat) : List K :=
  (held.filter fun h => h.1 = i).map Prod.snd

/-- The lock table after process `i` has let go of all its locks. -/
def release (held : List (Nat × K)) (i : Nat) : List (Nat × K) :=
  held.filter fun h => ¬ h.1 = i

/-- Another process than `i` holds lock `k`. -/
def busyFor [DecidableEq K] (held : List (Nat × K)) (i : Nat) (k : K) : Bool :=
  held.any fun h => decide (¬ h.1 = i ∧ h.2 = k)

variable (m : Machine S R T ε α Q W K E H)

/-- The notes of an event, taken in the state before it, under the name of the
process it is an event of. -/
def Machine.entries (a : Actor Q) (x : Event S R T α) (w : W) : List (Nat × H) :=
  (m.note a x w).map fun n => (a.pid, n)

/-- Add the notes of an event to the history. -/
def Machine.record (a : Actor Q) (x : Event S R T α) (g : Glob W H) : Glob W H :=
  { g with hist := m.entries a x g.world ++ g.hist }

/-- State and history after a statement executed outside a transaction
(`view = none`) or inside one. -/
def Machine.afterStmt (a : Actor Q) (s : S) (busy : K → Bool) (view : Option (W → W))
    (g : Glob W H) : Glob W H :=
  let seen := seenBy view g.world
  let outside := m.engine.effect s busy seen g.world
  { hist := m.entries a (.stmt s (m.engine.result s busy seen)) g.world ++ g.hist
    world := match view with
      | none => m.engine.write s busy seen outside
      | some _ => outside }

/-- The overlay of an open transaction after one more of its statements. -/
def Machine.viewAfter (s : S) (busy : K → Bool) (view : Option (W → W)) (w : W) :
    Option (W → W) :=
  view.map fun v => fun x => m.engine.write s busy (v w) (v x)

/-- State and history after a commit. -/
def Machine.afterCommit (a : Actor Q) (t : T) (view : Option (W → W)) (g : Glob W H) :
    Glob W H :=
  { hist := m.entries a (.commit t) g.world ++ g.hist, world := seenBy view g.world }

/-- A system in which process `i` continues with `prog`. -/
def Sys.resume (c : Sys S R T ε α Q W K H) (i : Nat) (p : Proc S R T ε α Q W)
    (prog : Prog S R T ε α) (view : Option (W → W)) (held : List (Nat × K))
    (g : Glob W H) : Sys S R T ε α Q W K H :=
  { c with glob := g, held := held, procs := Function.update c.procs i (some ⟨p.req, prog, view⟩) }

/-- A system in which process `i` has ended. -/
def Sys.retire (c : Sys S R T ε α Q W K H) (i : Nat) (g : Glob W H) : Sys S R T ε α Q W K H :=
  { c with glob := g, held := release c.held i, procs := Function.update c.procs i none }

/-- Let live process `i` execute its next node. -/
def Machine.runProc [DecidableEq K] (i : Nat) (p : Proc S R T ε α Q W)
    (c : Sys S R T ε α Q W K H) : Option (Label S R T α Q E × Sys S R T ε α Q W K H) :=
  let a : Actor Q := ⟨i, p.req⟩
  match p.prog with
  | .ret x => some (.event a (.reply x), c.retire i (m.record a (.reply x) c.glob))
  | .fail _ => some (.quiet a, c.retire i c.glob)
  | .op s next _ =>
      let busy := busyFor c.held i
      let seen := seenBy p.view c.glob.world
      let rows := m.engine.locks s busy seen
      if rows.all fun k => !busy k then
        let r := m.engine.result s busy seen
        let held := match p.view with
          | none => c.held
          | some _ => rows.map (fun k => (i, k)) ++ c.held
        some (.event a (.stmt s r),
          c.resume i p (next r) (m.viewAfter s busy p.view c.glob.world) held
            (m.afterStmt a s busy p.view c.glob))
      else none
  | .begin next => some (.quiet a, c.resume i p next (some id) c.held c.glob)
  | .commit t next _ =>
      some (.event a (.commit t),
        c.resume i p next none (release c.held i) (m.afterCommit a t p.view c.glob))
  | .rollback next => some (.rollback a, c.resume i p next none (release c.held i) c.glob)

/-- Let the next node of live process `i` fail: a statement leaves the open
transaction to the error path, a failed commit has rolled it back. -/
def faultProc (i : Nat) (p : Proc S R T ε α Q W)
    (c : Sys S R T ε α Q W K H) : Option (Label S R T α Q E × Sys S R T ε α Q W K H) :=
  match p.prog with
  | .op _ _ err => some (.fault ⟨i, p.req⟩, c.resume i p err p.view c.held c.glob)
  | .commit _ _ err => some (.fault ⟨i, p.req⟩, c.resume i p err none (release c.held i) c.glob)
  | _ => none

/-- One scheduler choice: what it amounts to and the system after it; `none`
when it is not possible. -/
def Machine.move [DecidableEq K] (ch : Choice Q E) (c : Sys S R T ε α Q W K H) :
    Option (Label S R T α Q E × Sys S R T ε α Q W K H) :=
  match ch with
  | .spawn q => some (.spawn q,
      { c with
        procs := Function.update c.procs c.nextPid (some ⟨q, m.code c.nextPid q, none⟩)
        nextPid := c.nextPid + 1 })
  | .run i => (c.procs i).bind fun p => m.runProc i p c
  | .fault i => (c.procs i).bind fun p => faultProc i p c
  | .crash i => (c.procs i).bind fun p => some (.crash ⟨i, p.req⟩, c.retire i c.glob)
  | .env e => some (.env e, { c with glob := { c.glob with world := m.env e c.glob.world } })

/-- Execute a list of choices, each of which must be possible and meet `ok` in
the state it is taken in. -/
def Machine.exec [DecidableEq K] (ok : Label S R T α Q E → Glob W H → Bool) :
    List (Choice Q E) → Sys S R T ε α Q W K H → Option (Sys S R T ε α Q W K H)
  | [], c => some c
  | ch :: rest, c =>
      match m.move ch c with
      | none => none
      | some (l, c') => if ok l c.glob then Machine.exec ok rest c' else none

/-- The system before any request: a database state and nothing else. -/
def Sys.start (w : W) : Sys S R T ε α Q W K H :=
  { glob := { hist := [], world := w }, procs := fun _ => none, nextPid := 0, held := [] }

section Runs

variable [DecidableEq K] {m}
variable {ok : Label S R T α Q E → Glob W H → Bool}

/-- A run splits at its first choice. -/
theorem Machine.exec_cons {ch : Choice Q E} {rest : List (Choice Q E)}
    {c d : Sys S R T ε α Q W K H} (h : m.exec ok (ch :: rest) c = some d) :
    ∃ l c', m.move ch c = some (l, c') ∧ ok l c.glob = true ∧ m.exec ok rest c' = some d := by
  rw [Machine.exec] at h
  cases hmove : m.move ch c with
  | none => simp [hmove] at h
  | some out =>
      obtain ⟨l, c'⟩ := out
      simp only [hmove] at h
      by_cases hok : ok l c.glob = true
      · exact ⟨l, c', rfl, hok, by simpa [hok] using h⟩
      · simp [hok] at h

/-- An invariant of the system that every allowed move preserves holds after
every allowed run. -/
theorem Machine.exec_invariant (I : Sys S R T ε α Q W K H → Prop)
    (hmove : ∀ ch c l c', I c → m.move ch c = some (l, c') → ok l c.glob = true → I c')
    {cs : List (Choice Q E)} {c d : Sys S R T ε α Q W K H}
    (h : m.exec ok cs c = some d) (hc : I c) : I d := by
  induction cs generalizing c with
  | nil =>
      rw [Machine.exec, Option.some.injEq] at h
      exact h ▸ hc
  | cons ch rest ih =>
      obtain ⟨l, c', hm, hok, hrest⟩ := Machine.exec_cons h
      exact ih hrest (hmove ch c l c' hc hm hok)

/-- Runs compose. -/
theorem Machine.exec_append {cs ds : List (Choice Q E)} {c d : Sys S R T ε α Q W K H}
    (h : m.exec ok cs c = some d) : m.exec ok (cs ++ ds) c = m.exec ok ds d := by
  induction cs generalizing c with
  | nil =>
      rw [Machine.exec, Option.some.injEq] at h
      rw [List.nil_append, h]
  | cons ch rest ih =>
      obtain ⟨l, c', hm, hok, hrest⟩ := Machine.exec_cons h
      rw [List.cons_append, Machine.exec]
      simpa [hm, hok] using ih hrest

end Runs

section History

variable {m}
variable {hist : List (Nat × H)} {i j : Nat}

@[simp] theorem own_nil : own i ([] : List (Nat × H)) = [] := rfl

@[simp] theorem own_append (hist' : List (Nat × H)) :
    own i (hist ++ hist') = own i hist ++ own i hist' := by
  simp [own]

@[simp] theorem own_map_self {ns : List H} : own i (ns.map fun n => (i, n)) = ns := by
  simp [own, List.filter_map, Function.comp_def]

theorem own_map_of_ne {ns : List H} (hne : j ≠ i) : own j (ns.map fun n => (i, n)) = [] := by
  simp [own, Ne.symm hne]

@[simp] theorem own_entries_self {a : Actor Q} {x : Event S R T α} {w : W} :
    own a.pid (m.entries a x w) = m.note a x w := own_map_self

theorem own_entries_of_ne {a : Actor Q} {x : Event S R T α} {w : W} (hne : j ≠ a.pid) :
    own j (m.entries a x w) = [] := own_map_of_ne hne

theorem mem_own {n : H} : n ∈ own i hist ↔ (i, n) ∈ hist := by
  simp [own]

end History

section Locks

variable {held : List (Nat × K)} {i j : Nat} {k : K}

theorem mem_locksOf : k ∈ locksOf held i ↔ (i, k) ∈ held := by
  simp [locksOf]

theorem mem_release {h : Nat × K} : h ∈ release held i ↔ h ∈ held ∧ h.1 ≠ i := by
  simp [release]

@[simp] theorem locksOf_nil : locksOf ([] : List (Nat × K)) i = [] := rfl

@[simp] theorem locksOf_release_self : locksOf (release held i) i = [] := by
  apply List.eq_nil_iff_forall_not_mem.mpr
  intro k hk
  exact (mem_release.mp (mem_locksOf.mp hk)).2 rfl

theorem locksOf_release_of_ne (hne : j ≠ i) :
    locksOf (release held i) j = locksOf held j := by
  simp only [locksOf, release, List.filter_filter]
  congr 1
  apply List.filter_congr
  intro h _
  by_cases hj : h.1 = j
  · simp [hj, hne]
  · simp [hj]

theorem locksOf_append (rows : List K) :
    locksOf (rows.map (fun k => (i, k)) ++ held) i = rows ++ locksOf held i := by
  simp only [locksOf, List.filter_append, List.map_append]
  congr 1
  induction rows with
  | nil => rfl
  | cons k rest ih => simpa using ih

theorem locksOf_append_of_ne (hne : j ≠ i) (rows : List K) :
    locksOf (rows.map (fun k => (i, k)) ++ held) j = locksOf held j := by
  simp only [locksOf, List.filter_append, List.map_append]
  have hnone : (rows.map fun k => (i, k)).filter (fun h => h.1 = j) = [] := by
    apply List.filter_eq_nil_iff.mpr
    intro h hh
    obtain ⟨k, _, rfl⟩ := List.mem_map.mp hh
    simpa using hne.symm
  simp [hnone]

theorem busyFor_eq_true [DecidableEq K] :
    busyFor held i k = true ↔ ∃ j, j ≠ i ∧ (j, k) ∈ held := by
  simp only [busyFor, List.any_eq_true, decide_eq_true_eq, Prod.exists]
  constructor
  · rintro ⟨j, k', hmem, hne, rfl⟩
    exact ⟨j, hne, hmem⟩
  · rintro ⟨j, hne, hmem⟩
    exact ⟨j, k, hmem, hne, rfl⟩

end Locks

end Interleave
