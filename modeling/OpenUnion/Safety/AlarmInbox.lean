import OpenUnion.Code.AlarmInbox

/-!
# No alarm is lost, stored twice or made up

* `Request.code_tells`: what each statement of a runner follows.
* `alarms_ingested`: in every run of any number of runners, each row is what some message says
  and no two are of one message; a message is deleted from the queue only if it is malformed,
  its insert has failed, or its alarm is stored; a stored alarm stays until it is pruned for
  its age; and a runner that ends has deleted all it has received.
-/

namespace OpenUnion.AlarmInbox

open Interleave

/-- The messages a note has received. -/
def Executed.batch : Executed → List Delivery
  | ⟨_, .receive, ds, _⟩ => ds
  | _ => []

@[simp] theorem batch_dateNow (q : Request) (now : ℤ) (found : List AlarmRow) :
    Executed.batch ⟨q, .dateNow, now, found⟩ = [] := rfl

@[simp] theorem batch_insert (q : Request) (row : AlarmRow) (done : Bool)
    (found : List AlarmRow) : Executed.batch ⟨q, .insert row, done, found⟩ = [] := rfl

/-- The receipt a note has deleted. -/
def Executed.deleted : Executed → Option String
  | ⟨_, .delete receipt, _, _⟩ => some receipt
  | _ => none

/-- The row a note has inserted, and whether the database has executed that. -/
def Executed.inserted : Executed → Option (AlarmRow × Bool)
  | ⟨_, .insert row, done, _⟩ => some (row, done)
  | _ => none

/-- The time before which a note has pruned. -/
def Executed.pruned : Executed → Option ℤ
  | ⟨_, .deleteBefore cutoff, true, _⟩ => some cutoff
  | _ => none

/-- The time a note has read. -/
def Executed.time : Executed → Option ℤ
  | ⟨_, .dateNow, now, _⟩ => some now
  | _ => none

/-- A process with these notes has received the message. -/
def Received (ns : List Executed) (d : Delivery) : Prop := ∃ n ∈ ns, d ∈ n.batch

/-- A process with these notes has read the time. -/
def Read (ns : List Executed) (now : ℤ) : Prop := ∃ n ∈ ns, n.time = some now

/-- A process with these notes has tried to store what the message says. -/
def Tried (env : InboxEnv) (ns : List Executed) (d : Delivery) : Prop :=
  ∃ envelope now done, envelopeOf env d = some envelope ∧
    ∃ n ∈ ns, n.inserted = some (alarmRow env envelope now, done)

/-- What a statement follows, from the notes of its process. -/
def Lawful (env : InboxEnv) (q : Request) (ns : List Executed) : Stmt → Prop
  | .receive | .dateNow => True
  | .insert row => ∃ d envelope now, Received ns d ∧ envelopeOf env d = some envelope ∧
      Read ns now ∧ row = alarmRow env envelope now
  | .delete receipt => ∃ d, Received ns d ∧ d.receipt = some receipt ∧
      (envelopeOf env d = none ∨ Tried env ns d)
  | .deleteBefore cutoff => ∃ days now, q = .prune days ∧ 0 < days ∧ Read ns now ∧
      cutoff = now - days * dayMs

/-- Every message that was received with a receipt is deleted. -/
def AllDeleted (ns : List Executed) : Prop :=
  ∀ d receipt, Received ns d → d.receipt = some receipt → ∃ n ∈ ns, n.deleted = some receipt

section Programs

variable {env : InboxEnv} {i : Nat} {q : Request} {ns : List Executed} {d : Delivery}

theorem Received.cons (h : Received ns d) (n : Executed) : Received (n :: ns) d := by
  obtain ⟨n', hn', hd⟩ := h
  exact ⟨n', List.mem_cons_of_mem n hn', hd⟩

/-- The programs go on as their notes allow. -/
abbrev TellsSo (env : InboxEnv) (i : Nat) (q : Request) (p : Code Unit)
    (F : List Executed → Prop) (ns : List Executed) : Prop :=
  p.Tells (inbox env) ⟨i, q⟩ (Lawful env q) (fun _ => F) (fun _ _ => True) ns

/-- A statement and what follows it. -/
theorem tells_run {s : Stmt} {f : s.Val → Code Unit} {F : List Executed → Prop}
    (hlawful : Lawful env q ns s)
    (hnext : ∀ v found, TellsSo env i q (f v) F (⟨q, s, v, found⟩ :: ns)) :
    TellsSo env i q ((run s).bind f) F ns :=
  ⟨hlawful, fun _ _ => hnext _ _, trivial⟩

/-- What has become of the messages of a batch that are handled. -/
def Handled (ns : List Executed) (ds : List Delivery) (ns' : List Executed) : Prop :=
  (∃ new, ns' = new ++ ns ∧ ∀ n ∈ new, n.batch = []) ∧
    ∀ d ∈ ds, ∀ receipt, d.receipt = some receipt → ∃ n ∈ ns', n.deleted = some receipt

/-- **One message.** -/
theorem handleMessage_tells (hd : Received ns d) :
    TellsSo env i q (handleMessage env d) (Handled ns [d]) ns := by
  unfold handleMessage
  cases hreceipt : d.receipt with
  | none =>
      refine ⟨⟨[], rfl, by simp⟩, ?_⟩
      intro d' hd' receipt hreceipt'
      rw [List.mem_singleton.mp hd', hreceipt] at hreceipt'
      simp at hreceipt'
  | some receipt =>
      have hdeleted : ∀ new : List Executed, (∀ n ∈ new, n.batch = []) →
          ∀ found, Handled ns [d] (⟨q, .delete receipt, (), found⟩ :: (new ++ ns)) := by
        intro new hnew found
        refine ⟨⟨_ :: new, rfl, ?_⟩, ?_⟩
        · intro n hn
          rcases List.mem_cons.mp hn with rfl | hn
          · rfl
          · exact hnew n hn
        · intro d' hd' receipt' hreceipt'
          rw [List.mem_singleton.mp hd', hreceipt, Option.some.injEq] at hreceipt'
          subst hreceipt'
          exact ⟨_, List.mem_cons_self, rfl⟩
      cases henvelope : envelopeOf env d with
      | none =>
          have hlawful : Lawful env q ns (.delete receipt) := ⟨d, hd, hreceipt, .inl henvelope⟩
          exact ⟨hlawful, fun _ _ => hdeleted [] (by simp) _, trivial⟩
      | some envelope =>
          have htime : Lawful env q ns .dateNow := trivial
          refine tells_run htime ?_
          intro now found
          have hinsert : Lawful env q (⟨q, .dateNow, now, found⟩ :: ns)
              (.insert (alarmRow env envelope now)) :=
            ⟨d, envelope, now, hd.cons _, henvelope, ⟨_, List.mem_cons_self, rfl⟩, rfl⟩
          refine tells_run hinsert ?_
          intro done found'
          have hdelete : Lawful env q
              (⟨q, .insert (alarmRow env envelope now), done, found'⟩ ::
                ⟨q, .dateNow, now, found⟩ :: ns) (.delete receipt) :=
            ⟨d, (hd.cons _).cons _, hreceipt,
              .inr ⟨envelope, now, done, henvelope, _, List.mem_cons_self, rfl⟩⟩
          have hend := hdeleted [⟨q, .insert (alarmRow env envelope now), done, found'⟩,
            ⟨q, .dateNow, now, found⟩] (by
              intro n hn
              rcases List.mem_cons.mp hn with rfl | hn
              · exact batch_insert _ _ _ _
              · rw [List.mem_singleton.mp hn]
                exact batch_dateNow _ _ _)
          exact ⟨hdelete, fun _ w => hend w.rows, trivial⟩

theorem Handled.received {ds : List Delivery} {ns' : List Executed} (h : Handled ns ds ns') :
    Received ns' d ↔ Received ns d := by
  obtain ⟨⟨new, rfl, hnew⟩, -⟩ := h
  constructor
  · rintro ⟨n, hn, hd⟩
    rcases List.mem_append.mp hn with hn | hn
    · rw [hnew n hn] at hd
      exact absurd hd List.not_mem_nil
    · exact ⟨n, hn, hd⟩
  · rintro ⟨n, hn, hd⟩
    exact ⟨n, List.mem_append_right new hn, hd⟩

/-- **A batch**, message by message. -/
theorem handleMessages_tells {ds : List Delivery} (h : ∀ d ∈ ds, Received ns d) :
    TellsSo env i q (forEach (handleMessage env) ds) (Handled ns ds) ns := by
  induction ds generalizing ns with
  | nil => exact ⟨⟨[], rfl, by simp⟩, by simp⟩
  | cons d ds ih =>
      refine tells_bind.mpr ((handleMessage_tells (h d List.mem_cons_self)).mono ?_ fun _ _ h => h)
      intro _ ns' hfirst
      have hrest : ∀ d' ∈ ds, Received ns' d' := fun d' hd' =>
        hfirst.received.mpr (h d' (List.mem_cons_of_mem d hd'))
      refine (ih hrest).mono ?_ fun _ _ h => h
      intro _ ns'' hlater
      obtain ⟨⟨new, rfl, hnew⟩, hone⟩ := hfirst
      obtain ⟨⟨more, rfl, hmore⟩, hall⟩ := hlater
      refine ⟨⟨more ++ new, (List.append_assoc more new ns).symm, ?_⟩, ?_⟩
      · intro n hn
        rcases List.mem_append.mp hn with hn | hn
        · exact hmore n hn
        · exact hnew n hn
      · intro d' hd' receipt hreceipt
        rcases List.mem_cons.mp hd' with rfl | hd'
        · obtain ⟨n, hn, hdeleted⟩ := hone d' (List.mem_singleton_self d') receipt hreceipt
          exact ⟨n, List.mem_append_right more hn, hdeleted⟩
        · exact hall d' hd' receipt hreceipt

/-- **One poll** leaves no received message that is not deleted. -/
theorem poll_tells (h : AllDeleted ns) : TellsSo env i q (poll env) AllDeleted ns := by
  have hreceive : Lawful env q ns .receive := trivial
  refine tells_run hreceive ?_
  intro (batch : List Delivery) found
  have hbatch : ∀ d ∈ batch,
      Received (⟨q, .receive, batch, found⟩ :: ns) d :=
    fun d hd => ⟨_, List.mem_cons_self, hd⟩
  refine (handleMessages_tells hbatch).mono ?_ fun _ _ h => h
  intro _ ns' hhandled d receipt hd hreceipt
  obtain ⟨n, hn, hdn⟩ := hhandled.received.mp hd
  obtain ⟨⟨new, rfl, -⟩, hall⟩ := hhandled
  rcases List.mem_cons.mp hn with rfl | hn
  · exact hall d hdn receipt hreceipt
  · obtain ⟨m, hm, hdeleted⟩ := h d receipt ⟨n, hn, hdn⟩ hreceipt
    exact ⟨m, List.mem_append_right new (List.mem_cons_of_mem _ hm), hdeleted⟩

theorem pollLoop_tells (n : Nat) (h : AllDeleted ns) :
    TellsSo env i q (pollLoop env n) AllDeleted ns := by
  induction n generalizing ns with
  | zero => exact h
  | succ n ih =>
      refine tells_bind.mpr ((poll_tells h).mono ?_ fun _ _ h => h)
      intro _ ns' hns'
      exact ih hns'

/-- **Each program** follows the rules, and a runner that ends has deleted all it received. -/
theorem Request.code_tells (env : InboxEnv) (i : Nat) (q : Request) :
    TellsSo env i q (q.code env) AllDeleted [] := by
  have hnone : AllDeleted [] := fun d receipt ⟨n, hn, _⟩ => absurd hn List.not_mem_nil
  cases q with
  | runner polls => exact pollLoop_tells polls hnone
  | prune days =>
      change TellsSo env i _ (pruneAlarmNotifications days) _ _
      unfold pruneAlarmNotifications
      split_ifs with hdays
      · exact hnone
      · have htime : Lawful env (.prune days) [] .dateNow := trivial
        refine tells_run htime ?_
        intro (now : ℤ) found
        have hprune : Lawful env (.prune days) [⟨.prune days, .dateNow, now, found⟩]
            (.deleteBefore (now - days * dayMs)) :=
          ⟨days, now, rfl, by omega, ⟨_, List.mem_cons_self, rfl⟩, rfl⟩
        refine tells_run hprune ?_
        intro done found' d receipt hd
        obtain ⟨n, hn, hdn⟩ := hd
        rcases List.mem_cons.mp hn with rfl | hn
        · exact absurd hdn List.not_mem_nil
        · rw [List.mem_singleton.mp hn] at hdn
          exact absurd hdn List.not_mem_nil

end Programs

/-! ## Runs -/

/-- What a message says is the row. -/
def Genuine (env : InboxEnv) (w : World) (row : AlarmRow) : Prop :=
  ∃ d envelope, d.body ∈ w.sent ∧ envelopeOf env d = some envelope ∧
    row = alarmRow env envelope row.receivedAt ∧ row.receivedAt ≤ w.now

/-- A row is there, or one of the notes has pruned it for its age. -/
def Kept (rows : List AlarmRow) (later : List (Nat × Executed)) (row : AlarmRow) : Prop :=
  row ∈ rows ∨ ∃ e ∈ later, ∃ cutoff, e.2.pruned = some cutoff ∧ row.receivedAt < cutoff

/-- The row has been stored: an insert was executed, and it, or the row of the same message that
the insert has found, is kept since. -/
def Stored (g : Glob World Executed) (row : AlarmRow) : Prop :=
  ∃ later e earlier holder, g.hist = later ++ e :: earlier ∧ e.2.inserted = some (row, true) ∧
    holder ∈ insertRow row e.2.found ∧ (holder = row ∨ row.sameKey holder = true) ∧
    Kept g.world.rows later holder

/-- What holds in every state. -/
structure Ingesting (env : InboxEnv) (g : Glob World Executed) : Prop where
  handedOut : ∀ d ∈ g.world.handedOut, d.body ∈ g.world.sent
  received : ∀ e ∈ g.hist, ∀ d ∈ e.2.batch, d.body ∈ g.world.sent
  clock : ∀ e ∈ g.hist, ∀ now, e.2.time = some now → now ≤ g.world.now
  genuine : ∀ row ∈ g.world.rows, Genuine env g.world row
  once : g.world.rows.Pairwise fun r r' => r.sameKey r' = false
  lawful : Along (fun e earlier => Lawful env e.2.req (own e.1 earlier) e.2.stmt) g.hist
  stored : ∀ e ∈ g.hist, ∀ row, e.2.inserted = some (row, true) → Stored g row

section Tables

variable {row r : AlarmRow} {rows : List AlarmRow} {w : World} {s : Stmt}

/-- After an insert the row, or one of the same message, is there. -/
theorem insertRow_holds (row : AlarmRow) (rows : List AlarmRow) :
    ∃ holder ∈ insertRow row rows, holder = row ∨ row.sameKey holder = true := by
  unfold insertRow
  split_ifs with hany
  · obtain ⟨holder, hholder, hsame⟩ := List.any_eq_true.mp hany
    exact ⟨holder, hholder, .inr hsame⟩
  · exact ⟨row, List.mem_append_right rows (List.mem_singleton_self row), .inl rfl⟩

theorem mem_insertRow (h : r ∈ insertRow row rows) : r ∈ rows ∨ r = row := by
  unfold insertRow at h
  split_ifs at h
  · exact .inl h
  · simpa using h

theorem subset_insertRow (h : r ∈ rows) : r ∈ insertRow row rows := by
  unfold insertRow
  split_ifs
  · exact h
  · exact List.mem_append_left [row] h

theorem sameKey_symm (r r' : AlarmRow) : r.sameKey r' = r'.sameKey r := by
  have hiff : (r.topicArn = r'.topicArn ∧ r.snsMessageId = r'.snsMessageId ∧
        r.snsMessageId.isSome = true) ↔
      (r'.topicArn = r.topicArn ∧ r'.snsMessageId = r.snsMessageId ∧
        r'.snsMessageId.isSome = true) := by
    constructor
    · rintro ⟨htopic, hid, hsome⟩
      exact ⟨htopic.symm, hid.symm, hid ▸ hsome⟩
    · rintro ⟨htopic, hid, hsome⟩
      exact ⟨htopic.symm, hid.symm, hid ▸ hsome⟩
  unfold AlarmRow.sameKey
  simp only [hiff]

/-- An insert keeps the unique index. -/
theorem insertRow_once (h : rows.Pairwise fun r r' => r.sameKey r' = false) (row : AlarmRow) :
    (insertRow row rows).Pairwise fun r r' => r.sameKey r' = false := by
  unfold insertRow
  split_ifs with hany
  · exact h
  · refine List.pairwise_append.mpr ⟨h, List.pairwise_singleton _ _, ?_⟩
    intro r hr r' hr'
    rw [List.mem_singleton.mp hr', sameKey_symm]
    by_contra hsame
    exact hany (List.any_eq_true.mpr ⟨r, hr, by simpa using hsame⟩)

/-- A row leaves the table only when it is pruned for its age. -/
theorem row_after (h : r ∈ w.rows) (s : Stmt) : r ∈ (s.write w).rows ∨
    ∃ cutoff, s = .deleteBefore cutoff ∧ w.down = false ∧ r.receivedAt < cutoff := by
  cases s with
  | insert row =>
      left
      simp only [Stmt.write]
      split_ifs
      · exact h
      · exact subset_insertRow h
  | deleteBefore cutoff =>
      by_cases hdown : w.down = true
      · left
        simpa [Stmt.write, hdown] using h
      · by_cases hold : cutoff ≤ r.receivedAt
        · left
          simp [Stmt.write, hdown, h, hold]
        · exact .inr ⟨cutoff, rfl, by simpa using hdown, by omega⟩
  | receive => exact .inl h
  | delete receipt => exact .inl h
  | dateNow => exact .inl h

end Tables

section Steps

variable {env : InboxEnv} {g : Glob World Executed} {row r : AlarmRow} {w : World}

@[simp] theorem write_sent (s : Stmt) (w : World) : (s.write w).sent = w.sent := by
  cases s <;> simp only [Stmt.write] <;> split_ifs <;> rfl

@[simp] theorem write_now (s : Stmt) (w : World) : (s.write w).now = w.now := by
  cases s <;> simp only [Stmt.write] <;> split_ifs <;> rfl

/-- The entry of a statement. -/
def entryOf (env : InboxEnv) (a : Actor Request) (s : Stmt) (w : World) : Nat × Executed :=
  (a.pid, ⟨a.req, s, s.result env w, w.rows⟩)

/-- State and history after a statement. -/
def afterStmt (env : InboxEnv) (a : Actor Request) (s : Stmt) (g : Glob World Executed) :
    Glob World Executed :=
  ⟨entryOf env a s g.world :: g.hist, s.write g.world⟩

theorem Kept.after {later : List (Nat × Executed)} (h : Kept w.rows later r) (a : Actor Request)
    (s : Stmt) : Kept (s.write w).rows (entryOf env a s w :: later) r := by
  rcases h with hmem | ⟨e, he, cutoff, hpruned, hold⟩
  · rcases row_after hmem s with hmem | ⟨cutoff, rfl, hdown, hold⟩
    · exact .inl hmem
    · refine .inr ⟨_, List.mem_cons_self, cutoff, ?_, hold⟩
      simp [entryOf, Executed.pruned, Stmt.result, hdown]
  · exact .inr ⟨e, List.mem_cons_of_mem _ he, cutoff, hpruned, hold⟩

theorem Stored.after (h : Stored g row) (a : Actor Request) (s : Stmt) :
    Stored (afterStmt env a s g) row := by
  obtain ⟨later, e, earlier, holder, hhist, hinserted, hholder, hsame, hkept⟩ := h
  refine ⟨entryOf env a s g.world :: later, e, earlier, holder, ?_, hinserted, hholder, hsame,
    hkept.after a s⟩
  rw [afterStmt, hhist, List.cons_append]

/-- An insert that was executed has stored its row. -/
theorem stored_insert (a : Actor Request) (hup : g.world.down = false) :
    Stored (afterStmt env a (.insert row) g) row := by
  obtain ⟨holder, hholder, hsame⟩ := insertRow_holds row g.world.rows
  refine ⟨[], entryOf env a (.insert row) g.world, g.hist, holder, rfl, ?_, hholder, hsame, ?_⟩
  · simp [entryOf, Executed.inserted, Stmt.result, hup]
  · left
    simpa [afterStmt, Stmt.write, hup] using hholder

theorem Genuine.mono {w' : World} (h : Genuine env w row) (hsent : ∀ b ∈ w.sent, b ∈ w'.sent)
    (hnow : w.now ≤ w'.now) : Genuine env w' row := by
  obtain ⟨d, envelope, hd, henvelope, hrow, htime⟩ := h
  exact ⟨d, envelope, hsent _ hd, henvelope, hrow, Int.le_trans htime hnow⟩

/-- What a process has received was sent. -/
theorem Ingesting.sent (h : Ingesting env g) {i : Nat} {d : Delivery}
    (hd : Received (own i g.hist) d) : d.body ∈ g.world.sent := by
  obtain ⟨n, hn, hd⟩ := hd
  exact h.received (i, n) (mem_own.mp hn) d hd

/-- The row of an insert is what a message says. -/
theorem Ingesting.insert_genuine (h : Ingesting env g) {i : Nat} {q : Request}
    (hlawful : Lawful env q (own i g.hist) (.insert row)) : Genuine env g.world row := by
  obtain ⟨d, envelope, now, hd, henvelope, ⟨n, hn, htime⟩, rfl⟩ := hlawful
  exact ⟨d, envelope, h.sent hd, henvelope, rfl, h.clock (i, n) (mem_own.mp hn) now htime⟩

/-- **One statement.** -/
theorem Ingesting.stmt (h : Ingesting env g) (a : Actor Request) (s : Stmt)
    (hlawful : Lawful env a.req (own a.pid g.hist) s) : Ingesting env (afterStmt env a s g) where
  handedOut := by
    cases s with
    | receive => simp [afterStmt, Stmt.write]
    | insert row =>
        simp only [afterStmt, Stmt.write]
        split_ifs <;> exact h.handedOut
    | deleteBefore cutoff =>
        simp only [afterStmt, Stmt.write]
        split_ifs <;> exact h.handedOut
    | delete receipt => exact h.handedOut
    | dateNow => exact h.handedOut
  received := by
    intro e he d hd
    rw [afterStmt, write_sent]
    rcases List.mem_cons.mp he with rfl | he
    · cases s with
      | receive => exact h.handedOut d (List.mem_of_mem_take hd)
      | insert row => exact absurd hd List.not_mem_nil
      | deleteBefore cutoff => exact absurd hd List.not_mem_nil
      | delete receipt => exact absurd hd List.not_mem_nil
      | dateNow => exact absurd hd List.not_mem_nil
    · exact h.received e he d hd
  clock := by
    intro e he now hnow
    rw [afterStmt, write_now]
    rcases List.mem_cons.mp he with rfl | he
    · cases s with
      | dateNow =>
          have heq : g.world.now = now := Option.some.inj hnow
          omega
      | receive => exact absurd hnow (by simp [entryOf, Executed.time])
      | insert row => exact absurd hnow (by simp [entryOf, Executed.time])
      | deleteBefore cutoff => exact absurd hnow (by simp [entryOf, Executed.time])
      | delete receipt => exact absurd hnow (by simp [entryOf, Executed.time])
    · exact h.clock e he now hnow
  genuine := by
    intro r hr
    have hmono : Genuine env g.world r → Genuine env (s.write g.world) r := fun hr =>
      hr.mono (by simp) (by simp)
    apply hmono
    cases s with
    | insert row =>
        simp only [afterStmt, Stmt.write] at hr
        split_ifs at hr
        · exact h.genuine r hr
        · rcases mem_insertRow hr with hr | rfl
          · exact h.genuine r hr
          · exact h.insert_genuine hlawful
    | deleteBefore cutoff =>
        simp only [afterStmt, Stmt.write] at hr
        split_ifs at hr
        · exact h.genuine r hr
        · exact h.genuine r (List.mem_filter.mp hr).1
    | receive => exact h.genuine r hr
    | delete receipt => exact h.genuine r hr
    | dateNow => exact h.genuine r hr
  once := by
    cases s with
    | insert row =>
        simp only [afterStmt, Stmt.write]
        split_ifs
        · exact h.once
        · exact insertRow_once h.once row
    | deleteBefore cutoff =>
        simp only [afterStmt, Stmt.write]
        split_ifs
        · exact h.once
        · exact h.once.filter _
    | receive => exact h.once
    | delete receipt => exact h.once
    | dateNow => exact h.once
  lawful := ⟨hlawful, h.lawful⟩
  stored := by
    intro e he row hinserted
    rcases List.mem_cons.mp he with rfl | he
    · cases s with
      | insert row' =>
          have heq : (row', !g.world.down) = (row, true) := Option.some.inj hinserted
          obtain ⟨rfl, hup⟩ := Prod.mk.inj heq
          exact stored_insert a (by simpa using hup)
      | receive => exact absurd hinserted (by simp [entryOf, Executed.inserted])
      | deleteBefore cutoff => exact absurd hinserted (by simp [entryOf, Executed.inserted])
      | delete receipt => exact absurd hinserted (by simp [entryOf, Executed.inserted])
      | dateNow => exact absurd hinserted (by simp [entryOf, Executed.inserted])
    · exact (h.stored e he row hinserted).after a s

end Steps

abbrev State := Sys Stmt Stmt.Val Unit String Unit Request World Empty Executed

abbrev Step := Label Stmt Stmt.Val Unit Unit Request Outside

abbrev Pick := Choice Request Outside

section Runs

variable {env : InboxEnv} {g : Glob World Executed} {ok : Step → Glob World Executed → Bool}
  {cs : List Pick} {w₀ : World} {c d : State}

/-- **One move of the outside.** -/
theorem Ingesting.outside (h : Ingesting env g) (e : Outside) :
    Ingesting env ⟨g.hist, e.move g.world⟩ := by
  have hsent : ∀ b ∈ g.world.sent, b ∈ (e.move g.world).sent := by
    intro b hb
    cases e with
    | send body => exact List.mem_cons_of_mem body hb
    | handOut batch =>
        simp only [Outside.move]
        split_ifs <;> exact hb
    | tick ms => exact hb
    | database down => exact hb
  have hnow : g.world.now ≤ (e.move g.world).now := by
    cases e with
    | tick ms =>
        change g.world.now ≤ g.world.now + ms
        omega
    | handOut batch =>
        simp only [Outside.move]
        split_ifs <;> exact Int.le_refl _
    | send body => exact Int.le_refl _
    | database down => exact Int.le_refl _
  have hrows : (e.move g.world).rows = g.world.rows := by
    cases e with
    | handOut batch =>
        simp only [Outside.move]
        split_ifs <;> rfl
    | tick ms => rfl
    | send body => rfl
    | database down => rfl
  refine ⟨?_, ?_, ?_, ?_, ?_, h.lawful, ?_⟩
  · intro d hd
    cases e with
    | handOut batch =>
        simp only [Outside.move] at hd ⊢
        split_ifs at hd ⊢ with hall
        · exact hall d hd
        · exact h.handedOut d hd
    | send body => exact List.mem_cons_of_mem body (h.handedOut d hd)
    | tick ms => exact h.handedOut d hd
    | database down => exact h.handedOut d hd
  · intro n hn d hd
    exact hsent _ (h.received n hn d hd)
  · intro n hn now htime
    exact Int.le_trans (h.clock n hn now htime) hnow
  · intro row hrow
    rw [hrows] at hrow
    exact (h.genuine row hrow).mono hsent hnow
  · change (e.move g.world).rows.Pairwise _
    rw [hrows]
    exact h.once
  · intro n hn row hinserted
    obtain ⟨later, n', earlier, holder, hhist, hrow, hholder, hsame, hkept⟩ :=
      h.stored n hn row hinserted
    refine ⟨later, n', earlier, holder, hhist, hrow, hholder, hsame, ?_⟩
    change Kept (e.move g.world).rows later holder
    rwa [hrows]

/-- **Every run.** -/
theorem exec_ingesting (hrows : w₀.rows = []) (hout : w₀.handedOut = [])
    (h : (inbox env).exec ok cs (Sys.start w₀) = some c) : Ingesting env c.glob := by
  refine Machine.exec_autocommit (I := Ingesting env) (m := inbox env)
    (Request.code_tells env) ?_ ?_ h
  · refine ⟨?_, by simp, by simp, ?_, ?_, trivial, by simp⟩
    · simp [hout]
    · simp [hrows]
    · simp [hrows]
  · intro l g g' hg hstep _
    cases hstep with
    | stmt a s busy _ hlawful => exact hg.stmt a s hlawful
    | reply a x _ _ => exact hg
    | env e _ => exact hg.outside e
    | idle l _ _ _ => exact hg

/-- **Alarms are ingested once and not lost.**  In every run of any number of runners and of
their timers, with messages that are handed out again and a database that fails now and then:

* each row is what some message says, received when it says so, and no two rows are of the
  same topic and message;
* a message that was deleted from the queue had been received and was malformed, or the database
  has refused its row, or its row is stored;
* rows are pruned only when they are older than the days of the timer;
* a runner that ends has deleted every message it has received. -/
theorem alarms_ingested (env : InboxEnv) (hrows : w₀.rows = []) (hout : w₀.handedOut = [])
    (h : (inbox env).exec ok cs (Sys.start w₀) = some c) :
    ((∀ row ∈ c.glob.world.rows, Genuine env c.glob.world row) ∧
      c.glob.world.rows.Pairwise fun r r' => r.sameKey r' = false) ∧
    (∀ later i n earlier receipt, c.glob.hist = later ++ (i, n) :: earlier →
      n.deleted = some receipt →
      ∃ d, Received (own i earlier) d ∧ d.receipt = some receipt ∧
        (envelopeOf env d = none ∨ ∃ envelope now, envelopeOf env d = some envelope ∧
          ((∃ n' ∈ own i earlier, n'.inserted = some (alarmRow env envelope now, false)) ∨
            Stored c.glob (alarmRow env envelope now)))) ∧
    (∀ i n cutoff, (i, n) ∈ c.glob.hist → n.pruned = some cutoff →
      ∃ days, n.req = .prune days ∧ 0 < days ∧ cutoff + days * dayMs ≤ c.glob.world.now) ∧
    ∀ ch a, (inbox env).move ch c = some (.event a (.reply ()), d) →
      AllDeleted (own a.pid c.glob.hist) := by
  have hall := exec_ingesting hrows hout h
  refine ⟨⟨hall.genuine, hall.once⟩, ?_, ?_, ?_⟩
  · intro later i n earlier receipt hhist hdeleted
    have hlawful := hall.lawful.split hhist
    obtain ⟨q, s, v, found⟩ := n
    cases s with
    | delete receipt' =>
        obtain rfl : receipt' = receipt := Option.some.inj hdeleted
        obtain ⟨d, hd, hreceipt, hcase⟩ := hlawful
        refine ⟨d, hd, hreceipt, hcase.imp_right ?_⟩
        rintro ⟨envelope, now, done, henvelope, n', hn', hinserted⟩
        refine ⟨envelope, now, henvelope, ?_⟩
        cases done with
        | false => exact .inl ⟨n', hn', hinserted⟩
        | true =>
            right
            have hmem : (i, n') ∈ c.glob.hist := by
              rw [hhist]
              exact List.mem_append_right _ (List.mem_cons_of_mem _ (mem_own.mp hn'))
            exact hall.stored (i, n') hmem _ hinserted
    | receive => exact absurd hdeleted (by simp [Executed.deleted])
    | insert row => exact absurd hdeleted (by simp [Executed.deleted])
    | deleteBefore cutoff => exact absurd hdeleted (by simp [Executed.deleted])
    | dateNow => exact absurd hdeleted (by simp [Executed.deleted])
  · intro i n cutoff hmem hpruned
    obtain ⟨later, earlier, hhist⟩ := List.append_of_mem hmem
    have hlawful := hall.lawful.split hhist
    obtain ⟨q, s, v, found⟩ := n
    cases s with
    | deleteBefore cutoff' =>
        obtain rfl : cutoff' = cutoff := by
          cases v with
          | false => exact absurd hpruned (by simp [Executed.pruned])
          | true => exact Option.some.inj hpruned
        obtain ⟨days, now, hreq, hdays, ⟨n', hn', htime⟩, rfl⟩ := hlawful
        have hclock : now ≤ c.glob.world.now := by
          apply hall.clock (i, n') _ now htime
          rw [hhist]
          exact List.mem_append_right _ (List.mem_cons_of_mem _ (mem_own.mp hn'))
        exact ⟨days, hreq, hdays, by omega⟩
    | receive => exact absurd hpruned (by simp [Executed.pruned])
    | insert row => exact absurd hpruned (by simp [Executed.pruned])
    | delete receipt => exact absurd hpruned (by simp [Executed.pruned])
    | dateNow => exact absurd hpruned (by simp [Executed.pruned])
  · intro ch a hmove
    have hstep := Machine.exec_autostep (m := inbox env) (Request.code_tells env) h hmove
    generalize c.glob = g at hstep ⊢
    generalize d.glob = g' at hstep
    cases hstep with
    | reply _ x _ hx => exact hx
    | idle _ _ hevent _ => exact absurd rfl (hevent _ _)

end Runs

/-- A parser that knows one text. -/
def demoEnv : InboxEnv where
  environment := "test"
  maxMessages := 5
  parseJson text :=
    if text = "alarm" then
      some (.obj [("MessageId", .str "m1"), ("TopicArn", .str "t"), ("Message", .str "down")])
    else none
  dateOf _ := none

def demoWorld : World := ⟨0, [], false, [], []⟩

/-- One message, handed out twice. -/
def demoBatch : List Delivery := [⟨some "r1", some "alarm"⟩, ⟨some "r2", some "alarm"⟩]

def demoPicks : List Pick :=
  ([.env (.send (some "alarm")), .env (.handOut demoBatch), .spawn (.runner 1)] : List Pick) ++
    @List.replicate Pick 7 (.run 0)

theorem alarms_ingested_twice : ∃ c : State,
    (inbox demoEnv).exec (fun _ _ => true) demoPicks (Sys.start demoWorld) = some c ∧
      c.glob.world.rows.length = 1 ∧
      ∀ row ∈ c.glob.world.rows, Genuine demoEnv c.glob.world row := by
  have hrun : ((inbox demoEnv).exec (fun _ _ => true) demoPicks (Sys.start demoWorld)).map
      (fun c => c.glob.world.rows.length) = some 1 := by
    decide
  obtain ⟨c, hc, hlength⟩ := Option.map_eq_some_iff.mp hrun
  exact ⟨c, hc, hlength, (alarms_ingested (d := c) demoEnv rfl rfl hc).1.1⟩

end OpenUnion.AlarmInbox
