import Mathlib.Tactic.NormNum
import Mathlib.Tactic.Ring
import OpenUnion.Code.Offers
import OpenUnion.Code.Verdicts
import OpenUnion.Interleave.Progress
import OpenUnion.Interleave.Traces

/-!
# Counting verdicts

`recordReputation` reads the row of the worker, adds one to what it has read and writes the
result.  Two calls for one worker that both read before either writes count as one.

* `verdicts_counted`: in every run of any number of calls in which no call for the worker writes
  between the read and the write of another one, the row counts every call once all have
  returned.
* `verdict_lost`: two calls of which one is lost.
-/

namespace OpenUnion

open Interleave

/-- A call of `recordReputation`. -/
structure RepCall where
  workerId : Nat
  passed : Bool
  deriving DecidableEq

/-- What is noted of the calls. -/
inductive RepNote where
  | read (workerId : Nat) (row : Option Reputation)
  | wrote (call : RepCall)

/-- The process has read the row of the worker. -/
def RepNote.isRead : RepNote → Bool
  | .read _ _ => true
  | .wrote _ => false

/-- A row of the worker has been written. -/
def RepNote.writes (workerId : Nat) : RepNote → Bool
  | .read _ _ => false
  | .wrote call => decide (call.workerId = workerId)

/-- The call has been written. -/
def RepNote.isWrote (call : RepCall) : RepNote → Bool
  | .read _ _ => false
  | .wrote call' => decide (call' = call)

/-- Calls of `recordReputation` over one database. -/
def reputationCalls : Machine Stmt Stmt.Val Tag Err Unit RepCall World Lock Empty RepNote where
  engine := engine
  code _ call := recordReputation call.workerId call.passed
  env e := e.elim
  env_same e := e.elim
  note a x _ :=
    match x with
    | .stmt (.read (.reputation i)) row => [.read i row]
    | .stmt (.reputation _ _) _ => [.wrote a.req]
    | _ => []

abbrev RepState := Sys Stmt Stmt.Val Tag Err Unit RepCall World Lock RepNote

abbrev RepStep := Label Stmt Stmt.Val Tag Unit RepCall Empty

abbrev RepHist := List (Nat × RepNote)

/-- Some call has written the row of the worker since the process read it. -/
def overtaken (i workerId : Nat) (hist : RepHist) : Bool :=
  (since i RepNote.isRead hist).any fun e => e.2.writes workerId

/-- When every verdict counts: all calls return, and none writes the row of a worker that
another call has written since its own read. -/
def inTurn : RepStep → Glob World RepNote → Bool
  | .event a (.stmt (.reputation workerId _) _), g => !overtaken a.pid workerId g.hist
  | .fault _, _ | .crash _, _ => false
  | _, _ => true

/-- How often a call has been made. -/
def made (call : RepCall) (cs : List (Choice RepCall Empty)) : Nat :=
  cs.countP fun ch =>
    match ch with
    | .spawn call' => decide (call' = call)
    | _ => false

/-- How often a call has been written. -/
def written (call : RepCall) (hist : RepHist) : Nat :=
  hist.countP fun e => e.2.isWrote call

/-- What a call writes after it has read the row. -/
def RepCall.next (call : RepCall) (row : Option Reputation) : Reputation :=
  let alpha := (row.map Reputation.alpha).getD 2
  let beta := (row.map Reputation.beta).getD 2
  if call.passed then ⟨alpha + 1, beta⟩ else ⟨alpha, beta + 1⟩

/-- The rest of a call after it has read the row. -/
def RepCall.upsert (call : RepCall) (row : Option Reputation) : Code Unit :=
  run (.reputation call.workerId (call.next row))

/-- What a live call has noted, and what it still does. -/
inductive RepStage (call : RepCall) : Code Unit → List RepNote → Prop where
  | start : RepStage call (recordReputation call.workerId call.passed) []
  | read (row : Option Reputation) :
      RepStage call (call.upsert row) [.read call.workerId row]
  | wrote (row : Option Reputation) :
      RepStage call (.ret ()) [.wrote call, .read call.workerId row]

/-- Every live call is at one of its stages. -/
def Staged (c : RepState) : Prop :=
  ∀ i p, c.procs i = some p → p.view = none ∧ RepStage p.req p.prog (own i c.glob.hist)

/-- An allowed step. -/
inductive CallStep (ch : Choice RepCall Empty) (c c' : RepState) : Prop where
  | spawn (call : RepCall) (hch : ch = .spawn call)
      (hprocs : c'.procs = Function.update c.procs c.nextPid
        (some ⟨call, recordReputation call.workerId call.passed, none⟩))
      (hnext : c'.nextPid = c.nextPid + 1) (hglob : c'.glob = c.glob)
  | read (i : Nat) (call : RepCall) (hch : ch = .run i)
      (hp : c.procs i = some ⟨call, recordReputation call.workerId call.passed, none⟩)
      (hown : own i c.glob.hist = [])
      (hprocs : c'.procs = Function.update c.procs i
        (some ⟨call, call.upsert (c.glob.world.reputation call.workerId), none⟩))
      (hnext : c'.nextPid = c.nextPid)
      (hhist : c'.glob.hist =
        (i, .read call.workerId (c.glob.world.reputation call.workerId)) :: c.glob.hist)
      (hworld : c'.glob.world.reputation = c.glob.world.reputation)
  | write (i : Nat) (call : RepCall) (row : Option Reputation) (hch : ch = .run i)
      (hp : c.procs i = some ⟨call, call.upsert row, none⟩)
      (hown : own i c.glob.hist = [.read call.workerId row])
      (hturn : overtaken i call.workerId c.glob.hist = false)
      (hprocs : c'.procs = Function.update c.procs i (some ⟨call, .ret (), none⟩))
      (hnext : c'.nextPid = c.nextPid)
      (hhist : c'.glob.hist = (i, .wrote call) :: c.glob.hist)
      (hworld : c'.glob.world.reputation =
        Function.update c.glob.world.reputation call.workerId (some (call.next row)))
  | done (i : Nat) (call : RepCall) (row : Option Reputation) (hch : ch = .run i)
      (hp : c.procs i = some ⟨call, .ret (), none⟩)
      (hown : own i c.glob.hist = [.wrote call, .read call.workerId row])
      (hprocs : c'.procs = Function.update c.procs i none)
      (hnext : c'.nextPid = c.nextPid) (hglob : c'.glob = c.glob)

section Steps

variable {ch : Choice RepCall Empty} {l : RepStep} {c c' : RepState}
  {cs : List (Choice RepCall Empty)} {w : World} {call : RepCall}

/-- What an allowed step is. -/
theorem callStep_of_move (h : Staged c) (hmove : reputationCalls.move ch c = some (l, c'))
    (hok : inTurn l c.glob = true) : CallStep ch c c' := by
  cases ch with
  | spawn call =>
      simp only [Machine.move, Option.some.injEq, Prod.mk.injEq] at hmove
      obtain ⟨rfl, rfl⟩ := hmove
      exact .spawn call rfl rfl rfl rfl
  | run i =>
      obtain ⟨p, hp, hrun⟩ := Option.bind_eq_some_iff.mp hmove
      obtain ⟨hview, hstage⟩ := h i p hp
      obtain ⟨call, prog, view⟩ := p
      obtain rfl : view = none := hview
      simp only at hstage
      generalize hown : own i c.glob.hist = ns at hstage
      cases hstage with
      | start =>
          simp only [recordReputation, bind_eq_bind, perform_bind, Machine.runProc] at hrun
          split at hrun
          · simp only [Option.some.injEq, Prod.mk.injEq] at hrun
            obtain ⟨rfl, rfl⟩ := hrun
            exact .read i call rfl hp hown rfl rfl rfl rfl
          · exact absurd hrun (by simp)
      | read row =>
          simp only [RepCall.upsert, perform, Machine.runProc] at hrun
          split at hrun
          · simp only [Option.some.injEq, Prod.mk.injEq] at hrun
            obtain ⟨rfl, rfl⟩ := hrun
            have hturn : overtaken i call.workerId c.glob.hist = false := by
              simpa [inTurn] using hok
            exact .write i call row rfl hp hown hturn rfl rfl rfl rfl
          · exact absurd hrun (by simp)
      | wrote row =>
          simp only [Machine.runProc, Option.some.injEq, Prod.mk.injEq] at hrun
          obtain ⟨rfl, rfl⟩ := hrun
          exact .done i call row rfl hp hown rfl rfl rfl
  | fault i =>
      obtain ⟨p, hp, hfault⟩ := Option.bind_eq_some_iff.mp hmove
      obtain ⟨call, prog, view⟩ := p
      cases prog <;> simp only [faultProc, Option.some.injEq, Prod.mk.injEq, reduceCtorEq] at hfault
      all_goals
        obtain ⟨rfl, -⟩ := hfault
        exact absurd hok (by simp [inTurn])
  | crash i =>
      obtain ⟨p, hp, hcrash⟩ := Option.bind_eq_some_iff.mp hmove
      simp only [Option.some.injEq, Prod.mk.injEq] at hcrash
      obtain ⟨rfl, -⟩ := hcrash
      exact absurd hok (by simp [inTurn])
  | env e => exact e.elim

end Steps

/-- The process has a live call of this kind that is not written yet. -/
def owes (call : RepCall) (c : RepState) (i : Nat) : Bool :=
  (c.procs i).any fun p =>
    decide (p.req = call) && !(own i c.glob.hist).any (RepNote.isWrote call)

/-- What holds after every allowed run: a call is written or still owed, the row of worker `k`
counts what is written, and a row that nobody has written since it was read is the one that was
read. -/
structure Tallied (k : Nat) (cs : List (Choice RepCall Empty)) (c : RepState) : Prop where
  staged : Staged c
  balance : ∀ call, made call cs =
    written call c.glob.hist + (List.range c.nextPid).countP (owes call c)
  alpha : ((c.glob.world.reputation k).map Reputation.alpha).getD 2 =
    2 + written ⟨k, true⟩ c.glob.hist
  beta : ((c.glob.world.reputation k).map Reputation.beta).getD 2 =
    2 + written ⟨k, false⟩ c.glob.hist
  stored : c.glob.world.reputation k = none →
    written ⟨k, true⟩ c.glob.hist = 0 ∧ written ⟨k, false⟩ c.glob.hist = 0
  current : ∀ i workerId row, own i c.glob.hist = [.read workerId row] →
    overtaken i workerId c.glob.hist = false → row = c.glob.world.reputation workerId

section Counting

variable {ch : Choice RepCall Empty} {c c' : RepState} {cs : List (Choice RepCall Empty)}
  {w : World} {call : RepCall} {i j k : Nat} {n : RepNote} {hist : RepHist}

/-- One note more. -/
theorem written_cons : written call ((i, n) :: hist) =
    written call hist + if n.isWrote call then 1 else 0 := by
  rw [written, written, List.countP_cons]

/-- A note of another process comes after the read of this one. -/
theorem overtaken_cons (hne : j ≠ i) :
    overtaken j k ((i, n) :: hist) = (n.writes k || overtaken j k hist) := by
  have hsince : since j RepNote.isRead ((i, n) :: hist) = (i, n) :: since j RepNote.isRead hist := by
    simp [since, Ne.symm hne]
  rw [overtaken, hsince, List.any_cons, overtaken]

/-- Nothing has come after a read that has just been made. -/
theorem overtaken_read {row : Option Reputation} :
    overtaken i k ((i, .read k row) :: hist) = false := by
  simp [overtaken, since, RepNote.isRead]

/-- One process stops owing. -/
theorem countP_range_clear {p p' : Nat → Bool} {m : Nat} (hi : i < m) (hclear : p' i = false)
    (hothers : ∀ j, j ≠ i → p' j = p j) :
    (List.range m).countP p = (List.range m).countP p' + if p i then 1 else 0 := by
  induction m with
  | zero => omega
  | succ m ih =>
      rw [List.range_succ, List.countP_append, List.countP_append]
      by_cases him : i = m
      · subst him
        have hbelow : (List.range i).countP p = (List.range i).countP p' := by
          refine List.countP_congr fun j hj => ?_
          have hji : j ≠ i := by
            have := List.mem_range.mp hj
            omega
          rw [hothers j hji]
        simp [hbelow, List.countP_cons, hclear]
      · rw [ih (by omega), List.countP_singleton, List.countP_singleton,
          hothers m (Ne.symm him)]
        omega

/-- No process owes more or less. -/
theorem countP_range_same {p p' : Nat → Bool} {m : Nat} (h : ∀ j, p' j = p j) :
    (List.range m).countP p' = (List.range m).countP p :=
  List.countP_congr fun j _ => by rw [h j]

/-- A process that does not take the step owes as before. -/
theorem owes_of_ne (hprocs : c'.procs j = c.procs j)
    (hown : own j c'.glob.hist = own j c.glob.hist) : owes call c' j = owes call c j := by
  rw [owes, owes, hprocs, hown]

theorem owes_of_some {p : Proc Stmt Stmt.Val Tag Err Unit RepCall World}
    (hp : c.procs i = some p) : owes call c i =
      (decide (p.req = call) && !(own i c.glob.hist).any (RepNote.isWrote call)) := by
  rw [owes, hp, Option.any_some]

/-- Every live call stays at one of its stages. -/
theorem Staged.step (h : Staged c) (hfresh : own c.nextPid c.glob.hist = [])
    (hstep : CallStep ch c c') : Staged c' := by
  have hothers : ∀ {i : Nat} {rest : Option (Proc Stmt Stmt.Val Tag Err Unit RepCall World)},
      c'.procs = Function.update c.procs i rest →
      (∀ j, j ≠ i → own j c'.glob.hist = own j c.glob.hist) →
      (∀ p, rest = some p → p.view = none ∧ RepStage p.req p.prog (own i c'.glob.hist)) →
      Staged c' := by
    intro i rest hprocs hown hrest j p hp
    rw [hprocs] at hp
    by_cases hj : j = i
    · subst hj
      rw [Function.update_self] at hp
      exact hrest p hp
    · rw [Function.update_of_ne hj] at hp
      rw [hown j hj]
      exact h j p hp
  cases hstep with
  | spawn call hch hprocs hnext hglob =>
      refine hothers hprocs (fun j _ => by rw [hglob]) fun p hp => ?_
      obtain rfl := Option.some.inj hp
      refine ⟨rfl, ?_⟩
      rw [hglob, hfresh]
      exact .start
  | read i call hch hp hown hprocs hnext hhist hworld =>
      refine hothers hprocs (fun j hj => by simp [hhist, own, Ne.symm hj]) fun p hp => ?_
      obtain rfl := Option.some.inj hp
      refine ⟨rfl, ?_⟩
      have hnotes : own i c'.glob.hist =
          [.read call.workerId (c.glob.world.reputation call.workerId)] := by
        simpa [hhist, own] using hown
      rw [hnotes]
      exact .read _
  | write i call row hch hp hown hturn hprocs hnext hhist hworld =>
      refine hothers hprocs (fun j hj => by simp [hhist, own, Ne.symm hj]) fun p hp => ?_
      obtain rfl := Option.some.inj hp
      refine ⟨rfl, ?_⟩
      have hnotes : own i c'.glob.hist = [.wrote call, .read call.workerId row] := by
        rw [hhist, ← hown]
        simp [own]
      rw [hnotes]
      exact .wrote row
  | done i call row hch hp hown hprocs hnext hglob =>
      exact hothers hprocs (fun j _ => by rw [hglob]) fun p hp => by cases hp

/-- A call is written or still owed. -/
theorem balance_step (h : ∀ call, made call cs =
      written call c.glob.hist + (List.range c.nextPid).countP (owes call c))
    (hfresh : own c.nextPid c.glob.hist = [])
    (hlive : ∀ i p, c.procs i = some p → i < c.nextPid) (hstep : CallStep ch c c')
    (call : RepCall) : made call (cs ++ [ch]) =
      written call c'.glob.hist + (List.range c'.nextPid).countP (owes call c') := by
  have hmade : made call (cs ++ [ch]) = made call cs + made call [ch] := List.countP_append
  rw [hmade, h call]
  cases hstep with
  | spawn call' hch hprocs hnext hglob =>
      have hbelow : (List.range c.nextPid).countP (owes call c') =
          (List.range c.nextPid).countP (owes call c) := by
        refine List.countP_congr fun j hj => ?_
        have hne : j ≠ c.nextPid := by
          have := List.mem_range.mp hj
          omega
        have hsame : owes call c' j = owes call c j :=
          owes_of_ne (by rw [hprocs, Function.update_of_ne hne]) (by rw [hglob])
        rw [hsame]
      have hnew : owes call c' c.nextPid = decide (call' = call) := by
        rw [owes_of_some (by rw [hprocs, Function.update_self]), hglob, hfresh]
        simp
      rw [hnext, hglob, List.range_succ, List.countP_append, hbelow, List.countP_singleton, hnew,
        hch]
      simp only [made, List.countP_singleton]
      omega
  | read i call' hch hp hown hprocs hnext hhist hworld =>
      have howes : ∀ j, owes call c' j = owes call c j := by
        intro j
        by_cases hj : j = i
        · subst hj
          rw [owes_of_some hp, owes_of_some (by rw [hprocs, Function.update_self]), hhist, hown]
          have hnotes : own j ((j, RepNote.read call'.workerId
              (c.glob.world.reputation call'.workerId)) :: c.glob.hist) =
              [.read call'.workerId (c.glob.world.reputation call'.workerId)] := by
            simpa [own] using hown
          rw [hnotes]
          simp [RepNote.isWrote]
        · exact owes_of_ne (by rw [hprocs, Function.update_of_ne hj])
            (by simp [hhist, own, Ne.symm hj])
      rw [hnext, hhist, written_cons, countP_range_same howes, hch]
      simp [made, RepNote.isWrote]
  | write i call' row hch hp hown hturn hprocs hnext hhist hworld =>
      have hnotes : own i c'.glob.hist = [.wrote call', .read call'.workerId row] := by
        rw [hhist, ← hown]
        simp [own]
      have hbefore : owes call c i = decide (call' = call) := by
        rw [owes_of_some hp, hown]
        simp [RepNote.isWrote]
      have hafter : owes call c' i = false := by
        rw [owes_of_some (by rw [hprocs, Function.update_self]), hnotes]
        simp [RepNote.isWrote]
      have hcount : (List.range c.nextPid).countP (owes call c) =
          (List.range c.nextPid).countP (owes call c') + if owes call c i then 1 else 0 :=
        countP_range_clear (hlive i _ hp) hafter fun j hj =>
          owes_of_ne (by rw [hprocs, Function.update_of_ne hj])
            (by simp [hhist, own, Ne.symm hj])
      rw [hcount, hbefore, hnext, hhist, written_cons, hch]
      simp only [made, RepNote.isWrote, List.countP_singleton]
      simp
      omega
  | done i call' row hch hp hown hprocs hnext hglob =>
      have howes : ∀ j, owes call c' j = owes call c j := by
        intro j
        by_cases hj : j = i
        · subst hj
          rw [owes_of_some hp, owes, hprocs, Function.update_self, hown]
          simp [RepNote.isWrote]
        · exact owes_of_ne (by rw [hprocs, Function.update_of_ne hj]) (by rw [hglob])
      rw [hnext, hglob, countP_range_same howes, hch]
      simp [made]

/-- A row that nobody has written since it was read is the one that was read. -/
theorem current_step (h : ∀ i workerId row, own i c.glob.hist = [.read workerId row] →
      overtaken i workerId c.glob.hist = false → row = c.glob.world.reputation workerId)
    (hstep : CallStep ch c c') (i workerId : Nat) (row : Option Reputation)
    (hread : own i c'.glob.hist = [.read workerId row])
    (hturn : overtaken i workerId c'.glob.hist = false) :
    row = c'.glob.world.reputation workerId := by
  cases hstep with
  | spawn call hch hprocs hnext hglob =>
      rw [hglob] at hread hturn ⊢
      exact h i workerId row hread hturn
  | read j call hch hp hown hprocs hnext hhist hworld =>
      rw [hworld]
      rw [hhist] at hread hturn
      by_cases hi : i = j
      · subst hi
        have hnotes : own i ((i, RepNote.read call.workerId
            (c.glob.world.reputation call.workerId)) :: c.glob.hist) =
            [.read call.workerId (c.glob.world.reputation call.workerId)] := by
          simpa [own] using hown
        rw [hnotes, List.cons.injEq, RepNote.read.injEq] at hread
        obtain ⟨⟨rfl, rfl⟩, -⟩ := hread
        rfl
      · rw [overtaken_cons hi, Bool.or_eq_false_iff] at hturn
        exact h i workerId row (by simpa [own, Ne.symm hi] using hread) hturn.2
  | write j call row' hch hp hown hturn' hprocs hnext hhist hworld =>
      rw [hhist] at hread hturn
      have hi : i ≠ j := by
        rintro rfl
        have hnotes : own i ((i, RepNote.wrote call) :: c.glob.hist) =
            [.wrote call, .read call.workerId row'] := by
          rw [← hown]
          simp [own]
        rw [hnotes] at hread
        exact absurd hread (by simp)
      rw [overtaken_cons hi, Bool.or_eq_false_iff] at hturn
      have hother : workerId ≠ call.workerId := by
        rintro rfl
        exact absurd hturn.1 (by simp [RepNote.writes])
      rw [hworld, Function.update_of_ne hother]
      exact h i workerId row (by simpa [own, Ne.symm hi] using hread) hturn.2
  | done j call row' hch hp hown hprocs hnext hglob =>
      rw [hglob] at hread hturn ⊢
      exact h i workerId row hread hturn

/-- A call that writes adds one to the row as it is. -/
theorem reputation_step (h : Tallied k cs c) (hstep : CallStep ch c c') :
    ((c'.glob.world.reputation k).map Reputation.alpha).getD 2 =
        2 + written ⟨k, true⟩ c'.glob.hist ∧
      ((c'.glob.world.reputation k).map Reputation.beta).getD 2 =
        2 + written ⟨k, false⟩ c'.glob.hist ∧
      (c'.glob.world.reputation k = none →
        written ⟨k, true⟩ c'.glob.hist = 0 ∧ written ⟨k, false⟩ c'.glob.hist = 0) := by
  have hkeep := (⟨h.alpha, h.beta, h.stored⟩ : _ ∧ _ ∧ _)
  cases hstep with
  | spawn call hch hprocs hnext hglob =>
      rw [hglob]
      exact hkeep
  | read i call hch hp hown hprocs hnext hhist hworld =>
      rw [hworld, hhist, written_cons, written_cons]
      exact hkeep
  | write i call row hch hp hown hturn hprocs hnext hhist hworld =>
      have hrow : row = c.glob.world.reputation call.workerId :=
        h.current i call.workerId row hown hturn
      rw [hworld, hhist, written_cons, written_cons]
      obtain ⟨workerId, passed⟩ := call
      by_cases hk : k = workerId
      · subst hk
        rw [Function.update_self]
        obtain ⟨halpha, hbeta, -⟩ := hkeep
        simp only [hrow, RepCall.next, halpha, hbeta, RepNote.isWrote]
        cases passed <;> simp <;> omega
      · rw [Function.update_of_ne hk]
        simpa [RepNote.isWrote, Ne.symm hk] using hkeep
  | done i call row hch hp hown hprocs hnext hglob =>
      rw [hglob]
      exact hkeep

/-- Every allowed step keeps the count. -/
theorem Tallied.step (h : Tallied k cs c) (hfresh : own c.nextPid c.glob.hist = [])
    (hlive : ∀ i p, c.procs i = some p → i < c.nextPid) (hstep : CallStep ch c c') :
    Tallied k (cs ++ [ch]) c' where
  staged := h.staged.step hfresh hstep
  balance := balance_step h.balance hfresh hlive hstep
  alpha := (reputation_step h hstep).1
  beta := (reputation_step h hstep).2.1
  stored := (reputation_step h hstep).2.2
  current := current_step h.current hstep

/-- Before any call nothing is counted. -/
theorem Tallied.start (hnew : w.reputation k = none) : Tallied k [] (Sys.start w) where
  staged _ _ hp := absurd hp (by simp [Sys.start])
  balance _ := rfl
  alpha := by simp [Sys.start, hnew, written]
  beta := by simp [Sys.start, hnew, written]
  stored _ := ⟨rfl, rfl⟩
  current _ _ _ hread := absurd hread (by simp [Sys.start])

/-- The count holds after every allowed run. -/
theorem exec_tallied (hnew : w.reputation k = none)
    (hrun : reputationCalls.exec inTurn cs (Sys.start w) = some c) : Tallied k cs c := by
  refine Machine.exec_choices_induction (I := Tallied k) (Tallied.start hnew) ?_ hrun
  intro ds d ch l d' hds hd hmove hok
  have hunused := Machine.exec_unused hds
  refine hd.step (hunused _ (Nat.le_refl _)).2 (fun i p hp => ?_)
    (callStep_of_move hd.staged hmove hok)
  by_contra hlate
  have hnone := (hunused i (Nat.le_of_not_lt hlate)).1
  simp [Sys.program, hp] at hnone

/-- Once all have returned, what was asked is written. -/
theorem Tallied.settled (h : Tallied k cs c) (hdone : ∀ i, c.procs i = none) (call : RepCall) :
    written call c.glob.hist = made call cs := by
  have hnobody : (List.range c.nextPid).countP (owes call c) = 0 := by
    rw [List.countP_eq_zero]
    intro i _
    simp [owes, hdone i]
  rw [h.balance call, hnobody, Nat.add_zero]

end Counting

/-- **Every verdict counts**: in every run of any number of calls in which no call writes the row
of a worker that another one has written since its own read, once all have returned the row of a
worker that had none holds 2 and the number of the calls that passed, and 2 and the number of
those that did not, and the expected pass rate is made of these. -/
theorem verdicts_counted (w : World) (k : Nat) (hnew : w.reputation k = none)
    (cs : List (Choice RepCall Empty)) (c : RepState)
    (hrun : reputationCalls.exec inTurn cs (Sys.start w) = some c)
    (hdone : ∀ i, c.procs i = none) :
    (made ⟨k, true⟩ cs + made ⟨k, false⟩ cs ≠ 0 →
      c.glob.world.reputation k = some ⟨2 + made ⟨k, true⟩ cs, 2 + made ⟨k, false⟩ cs⟩) ∧
    expectedPassRate c.glob.world k =
      (2 + made ⟨k, true⟩ cs) / (4 + made ⟨k, true⟩ cs + made ⟨k, false⟩ cs) := by
  have htallied := exec_tallied hnew hrun
  have halpha := htallied.alpha
  have hbeta := htallied.beta
  have hstored := htallied.stored
  simp only [htallied.settled hdone] at halpha hbeta hstored
  cases hrow : c.glob.world.reputation k with
  | none =>
      obtain ⟨hpassed, hfailed⟩ := hstored hrow
      refine ⟨fun hsome => absurd hsome (by omega), ?_⟩
      rw [expectedPassRate, hrow, hpassed, hfailed]
      norm_num
  | some rep =>
      obtain ⟨alpha, beta⟩ := rep
      simp only [hrow, Option.map_some, Option.getD_some] at halpha hbeta
      refine ⟨fun _ => by rw [halpha, hbeta], ?_⟩
      rw [expectedPassRate, hrow]
      simp only [halpha, hbeta]
      push_cast
      ring_nf

/-- One call after the other. -/
def oneByOne : List (Choice RepCall Empty) :=
  [.spawn ⟨1, true⟩, .spawn ⟨1, false⟩, .run 0, .run 0, .run 0, .run 1, .run 1, .run 1]

theorem verdicts_counted_oneByOne :
    ∃ c, reputationCalls.exec inTurn oneByOne (Sys.start World.empty) = some c ∧
      c.glob.world.reputation 1 = some ⟨3, 3⟩ := by
  have h : (reputationCalls.exec inTurn oneByOne (Sys.start World.empty)).any (fun c =>
      (c.procs 0).isNone && (c.procs 1).isNone && decide (c.nextPid = 2)) = true := by
    decide
  obtain ⟨c, hrun, hended⟩ := (Option.any_eq_true _ _).mp h
  simp only [Bool.and_eq_true, Option.isNone_iff_eq_none, decide_eq_true_eq] at hended
  have hdone : ∀ i, c.procs i = none := by
    intro i
    by_cases hi : c.nextPid ≤ i
    · have hnone := (Machine.exec_unused hrun i hi).1
      simpa [Sys.program] using hnone
    · obtain rfl | rfl : i = 0 ∨ i = 1 := by omega
      · exact hended.1.1
      · exact hended.1.2
  refine ⟨c, hrun, ?_⟩
  exact (verdicts_counted World.empty 1 rfl oneByOne c hrun hdone).1 (by decide)

/-- Both calls read before either writes. -/
def bothRead : List (Choice RepCall Empty) :=
  [.spawn ⟨1, true⟩, .spawn ⟨1, true⟩, .run 0, .run 1, .run 0, .run 1, .run 0, .run 1]

/-- Two passed verdicts of a worker without a row, and the row counts one. -/
theorem verdict_lost :
    ∃ c, reputationCalls.exec (fun _ _ => true) bothRead (Sys.start World.empty) = some c ∧
      World.empty.reputation 1 = none ∧ (∀ i < c.nextPid, c.procs i = none) ∧
      made ⟨1, true⟩ bothRead = 2 ∧ made ⟨1, false⟩ bothRead = 0 ∧
      (c.glob.world.reputation 1).map Reputation.alpha = some 3 := by
  have h : (reputationCalls.exec (fun _ _ => true) bothRead (Sys.start World.empty)).any (fun c =>
      (List.range c.nextPid).all (fun i => (c.procs i).isNone) &&
        decide ((c.glob.world.reputation 1).map Reputation.alpha = some 3)) = true := by
    decide
  obtain ⟨c, hrun, hended⟩ := (Option.any_eq_true _ _).mp h
  simp only [Bool.and_eq_true, List.all_eq_true, List.mem_range, Option.isNone_iff_eq_none,
    decide_eq_true_eq] at hended
  exact ⟨c, hrun, rfl, hended.1, by decide, by decide, hended.2⟩

end OpenUnion
