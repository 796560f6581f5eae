import Mathlib.Data.List.Nodup
import OpenUnion.Code.Register

/-!
# Registration is all or nothing

`registerOrg` inserts the org and then its owner, each statement by itself.  When the second
insert fails, or finds the email taken by a registration that was faster, the call throws and
leaves the org behind.  As long as each insert of an org is followed by the insert of its owner,
a registration is all or nothing.

* `Kept.step`: what every allowed step keeps of the two tables and the notes.
* `all_or_nothing`: in every run of any number of registrations in which the insert of an owner
  neither fails nor conflicts, a call that throws has inserted nothing, and one that returns has
  made one org with one owner.
* `org_left_behind`: two registrations with one email.
-/

namespace OpenUnion.Registration

open Interleave

variable (env : EmailEnv)

abbrev State := Sys Stmt Stmt.Val Unit String Registered Call Accounts Empty Note

abbrev Step := Label Stmt Stmt.Val Unit Registered Call Empty

/-- The process has inserted an org, and not its owner yet. -/
def halfDone : List Note → Bool
  | .org _ :: _ => true
  | _ => false

/-- When registration is all or nothing: no call fails or is stopped between its two inserts, and
the second one finds the id and the email of the user free. -/
def ownerFollows : Step → Glob Accounts Note → Bool
  | .fault a, g | .crash a, g => !halfDone (own a.pid g.hist)
  | .event _ (.stmt (.insertUser user) _), g => g.world.userFree env user
  | _, _ => true

/-- An org or a user has been inserted. -/
def Inserted (ns : List Note) : Prop := (∃ org, .org org ∈ ns) ∨ ∃ user, .user user ∈ ns

/-- Registration is all or nothing, in a run that has started with the tables `w₀`. -/
structure AllOrNothing (w₀ : Accounts) (c : State) : Prop where
  /-- A call that throws has inserted nothing. -/
  throws : ∀ i p e, c.procs i = some p → p.prog = .fail e → ¬ Inserted (own i c.glob.hist)
  /-- A call that returns has made one org, with one user, who owns it. -/
  returns : ∀ i r, .returned r ∈ own i c.glob.hist →
    (∀ org ∈ w₀.orgs, org.id ≠ r.orgId) ∧
    (∃ name, (c.glob.world.orgs.filter fun org => org.id = r.orgId) = [⟨r.orgId, name⟩]) ∧
    (c.glob.world.users.filter fun user => user.orgId = r.orgId) =
      [⟨r.userId, r.email, r.orgId, .owner⟩]
  /-- A call that has ended has inserted nothing or both. -/
  ended : ∀ i, c.procs i = none → Inserted (own i c.glob.hist) →
    ∃ org user, .org org ∈ own i c.glob.hist ∧ .user user ∈ own i c.glob.hist
  /-- Every row is there from the start or inserted by a call. -/
  orgs : ∀ org ∈ c.glob.world.orgs, org ∈ w₀.orgs ∨ ∃ i, .org org ∈ own i c.glob.hist
  users : ∀ user ∈ c.glob.world.users, user ∈ w₀.users ∨ ∃ i, .user user ∈ own i c.glob.hist
  /-- No two users have one email. -/
  single : ∀ email, (c.glob.world.users.filter fun user => user.email = email).length ≤ 1

/-! ## The stages of a call -/

variable {env}

/-- What is left of a call once its email is free. -/
def insertOrgRest (env : EmailEnv) (call : Call) : Code Registered :=
  (run (.insertOrg call.org)).bind fun free : Bool =>
    if free then (run (.insertUser (call.owner env))).bind fun free : Bool =>
      if free then .ret (call.registered env)
      else .fail "duplicate key value violates unique constraint"
    else .fail "duplicate key value violates unique constraint"

/-- What is left of a call that has inserted its org. -/
def insertUserRest (env : EmailEnv) (call : Call) : Code Registered :=
  (run (.insertUser (call.owner env))).bind fun free : Bool =>
    if free then .ret (call.registered env)
    else .fail "duplicate key value violates unique constraint"

/-- What a live call has noted, and what it still does. -/
inductive Stage (env : EmailEnv) (call : Call) : Code Registered → List Note → Prop where
  | start : Stage env call (registerOrg env call) []
  | checked : Stage env call (insertOrgRest env call) []
  | orgInserted : Stage env call (insertUserRest env call) [.org call.org]
  | userInserted : Stage env call (.ret (call.registered env))
      [.user (call.owner env), .org call.org]
  | thrown (e : String) : Stage env call (.fail e) []

theorem registerOrg_eq (env : EmailEnv) (call : Call) : registerOrg env call =
    match call.inputError env with
    | some error => .fail error
    | none => .op (.userByEmail (call.email env)) (fun existing : Option OrgUser =>
        if existing.isSome then .fail "email_already_registered" else insertOrgRest env call)
        (.fail default) := by
  unfold registerOrg
  cases call.inputError env with
  | some error => rfl
  | none => rfl

section Stages

variable {call : Call} {s : Stmt} {next : s.Val → Code Registered} {err : Code Registered}
  {ns : List Note}

/-- The statement of a stage, with what its notes are. -/
theorem Stage.op (h : Stage env call (.op s next err) ns) :
    err = .fail default ∧
    ((s = .userByEmail (call.email env) ∧ ns = [] ∧ ∀ w : Accounts,
        Stage env call (next (s.result env w)) (s.note (s.result env w))) ∨
      (s = .insertOrg call.org ∧ ns = [] ∧ ∀ w : Accounts,
        Stage env call (next (s.result env w)) (s.note (s.result env w))) ∨
      (s = .insertUser (call.owner env) ∧ ns = [.org call.org] ∧ ∀ w : Accounts,
        w.userFree env (call.owner env) = true →
          Stage env call (next (s.result env w)) (s.note (s.result env w) ++ ns))) := by
  generalize hprog : Prog.op s next err = prog at h
  cases h with
  | start =>
      rw [registerOrg_eq] at hprog
      cases hinput : call.inputError env with
      | some error =>
          rw [hinput] at hprog
          cases hprog
      | none =>
          rw [hinput] at hprog
          cases hprog
          refine ⟨rfl, .inl ⟨rfl, rfl, fun w => ?_⟩⟩
          change Stage env call (if (w.users.find? _).isSome then _ else _) []
          split
          · exact .thrown _
          · exact .checked
  | checked =>
      cases hprog
      refine ⟨rfl, .inr (.inl ⟨rfl, rfl, fun w => ?_⟩)⟩
      change Stage env call (if w.orgFree call.org then _ else _)
        (cond (w.orgFree call.org) [.org call.org] [])
      cases w.orgFree call.org with
      | true => exact .orgInserted
      | false => exact .thrown _
  | orgInserted =>
      cases hprog
      refine ⟨rfl, .inr (.inr ⟨rfl, rfl, fun w hfree => ?_⟩)⟩
      change Stage env call (if w.userFree env (call.owner env) then _ else _)
        (cond (w.userFree env (call.owner env)) [.user (call.owner env)] [] ++ [.org call.org])
      rw [hfree]
      exact .userInserted
  | userInserted => cases hprog
  | thrown => cases hprog

/-- A call that is about to return has inserted both rows. -/
theorem Stage.ret {r : Registered} (h : Stage env call (.ret r) ns) :
    r = call.registered env ∧ ns = [.user (call.owner env), .org call.org] := by
  generalize hprog : (.ret r : Code Registered) = prog at h
  cases h with
  | start =>
      rw [registerOrg_eq] at hprog
      cases hinput : call.inputError env <;> rw [hinput] at hprog <;> cases hprog
  | userInserted =>
      cases hprog
      exact ⟨rfl, rfl⟩
  | checked => cases hprog
  | orgInserted => cases hprog
  | thrown => cases hprog

/-- A call that throws has inserted nothing. -/
theorem Stage.fail {e : String} (h : Stage env call (.fail e) ns) : ns = [] := by
  generalize hprog : (.fail e : Code Registered) = prog at h
  cases h with
  | start => rfl
  | thrown => rfl
  | checked => cases hprog
  | orgInserted => cases hprog
  | userInserted => cases hprog

/-- No call opens a transaction. -/
theorem Stage.flat {p : Code Registered} (h : Stage env call p ns) :
    (∃ s next err, p = .op s next err) ∨ (∃ r, p = .ret r) ∨ ∃ e, p = .fail e := by
  cases h with
  | start =>
      rw [registerOrg_eq]
      cases call.inputError env with
      | some error => exact .inr (.inr ⟨error, rfl⟩)
      | none => exact .inl ⟨_, _, _, rfl⟩
  | checked => exact .inl ⟨_, _, _, rfl⟩
  | orgInserted => exact .inl ⟨_, _, _, rfl⟩
  | userInserted => exact .inr (.inl ⟨_, rfl⟩)
  | thrown e => exact .inr (.inr ⟨e, rfl⟩)

end Stages

/-- A statement leads to the next stage, if a user who is inserted is free. -/
theorem Stage.stmt {call : Call} {s : Stmt} {next : s.Val → Code Registered}
    {err : Code Registered} {ns : List Note} (h : Stage env call (.op s next err) ns) (w : Accounts)
    (hfree : ∀ user, s = .insertUser user → w.userFree env user = true) :
    Stage env call (next (s.result env w)) (s.note (s.result env w) ++ ns) := by
  obtain ⟨-, ⟨-, rfl, hnext⟩ | ⟨-, rfl, hnext⟩ | ⟨hs, -, hnext⟩⟩ := h.op
  · rw [List.append_nil]
    exact hnext w
  · rw [List.append_nil]
    exact hnext w
  · exact hnext w (hfree _ hs)

/-- A statement that fails ends the call, which has inserted nothing yet. -/
theorem Stage.fault {call : Call} {s : Stmt} {next : s.Val → Code Registered}
    {err : Code Registered} {ns : List Note} (h : Stage env call (.op s next err) ns)
    (hhalf : halfDone ns = false) : Stage env call err ns := by
  obtain ⟨rfl, ⟨-, rfl, -⟩ | ⟨-, rfl, -⟩ | ⟨-, rfl, -⟩⟩ := h.op
  · exact .thrown _
  · exact .thrown _
  · simp [halfDone] at hhalf

/-- The stages of the calls. -/
def registrationStages (env : EmailEnv) : Stages (registrations env) (ownerFollows env) where
  holds a p ns := Stage env a.req p ns
  code _ call := .start
  stmt a s next err busy g h hok := h.stmt g.world fun user hs => by
    subst hs
    exact hok
  fault a s next err g h hok := h.fault (by simpa [ownerFollows] using hok)
  no_begin a next ns h := by
    obtain ⟨_, _, _, h⟩ | ⟨_, h⟩ | ⟨_, h⟩ := h.flat <;> cases h
  no_commit a t next err ns h := by
    obtain ⟨_, _, _, h⟩ | ⟨_, h⟩ | ⟨_, h⟩ := h.flat <;> cases h
  no_rollback a next ns h := by
    obtain ⟨_, _, _, h⟩ | ⟨_, h⟩ | ⟨_, h⟩ := h.flat <;> cases h

/-! ## What every run keeps -/

/-- The notes of a process: nothing, an org, or an org with its owner and perhaps the answer. -/
inductive Noted : List Note → Prop where
  | nothing : Noted []
  | half (org : Org) : Noted [.org org]
  | both (org : Org) (user : OrgUser) (horg : user.orgId = org.id) (hrole : user.role = .owner) :
      Noted [.user user, .org org]
  | returned (org : Org) (user : OrgUser) (horg : user.orgId = org.id)
      (hrole : user.role = .owner) :
      Noted [.returned ⟨org.id, user.id, user.email, .owner⟩, .user user, .org org]

/-- What holds of the tables and of the notes of each process: ids and emails are unique, every
row has its origin, what has been noted is there, and the users of a new org are those that its
process has inserted. -/
structure Kept (env : EmailEnv) (w₀ w : Accounts) (notes : ℕ → List Note) : Prop where
  orgIds : (w.orgs.map Org.id).Nodup
  emails : (w.users.map fun user => env.lower user.email).Nodup
  homes : ∀ user ∈ w.users, ∃ org ∈ w.orgs, org.id = user.orgId
  orgs : ∀ org ∈ w.orgs, org ∈ w₀.orgs ∨ ∃ i, .org org ∈ notes i
  users : ∀ user ∈ w.users, user ∈ w₀.users ∨ ∃ i, .user user ∈ notes i
  stay : ∀ org ∈ w₀.orgs, org ∈ w.orgs
  orgThere : ∀ i org, .org org ∈ notes i → org ∈ w.orgs ∧ ∀ old ∈ w₀.orgs, old.id ≠ org.id
  userThere : ∀ i user, .user user ∈ notes i → user ∈ w.users
  apart : ∀ i j org org', .org org ∈ notes i → .org org' ∈ notes j → org.id = org'.id → i = j
  members : ∀ i org, .org org ∈ notes i → ∀ user ∈ w.users, user.orgId = org.id →
    .user user ∈ notes i
  noted : ∀ i, Noted (notes i)

section Steps

variable {w₀ w : Accounts} {notes : ℕ → List Note} {i j : ℕ} {org : Org} {user : OrgUser}
  {n : Note} {ns : List Note}

/-- The notes of a process that has made new ones. -/
theorem mem_update (h : n ∈ Function.update notes i ns j) : j = i ∧ n ∈ ns ∨ j ≠ i ∧ n ∈ notes j := by
  by_cases hj : j = i
  · subst hj
    rw [Function.update_self] at h
    exact .inl ⟨rfl, h⟩
  · rw [Function.update_of_ne hj] at h
    exact .inr ⟨hj, h⟩

theorem mem_update_self (h : n ∈ ns) : n ∈ Function.update notes i ns i := by
  rwa [Function.update_self]

theorem mem_update_of_ne (hj : j ≠ i) (h : n ∈ notes j) : n ∈ Function.update notes i ns j := by
  rwa [Function.update_of_ne hj]

/-- Notes that have been made stay, when a process makes new ones. -/
theorem mem_update_of_mem (hns : ∀ n ∈ notes i, n ∈ ns) (h : n ∈ notes j) :
    n ∈ Function.update notes i ns j := by
  by_cases hj : j = i
  · subst hj
    exact mem_update_self (hns n h)
  · exact mem_update_of_ne hj h

theorem noted_update (h : ∀ i, Noted (notes i)) (hns : Noted ns) :
    ∀ j, Noted (Function.update notes i ns j) := by
  intro j
  by_cases hj : j = i
  · subst hj
    rwa [Function.update_self]
  · rw [Function.update_of_ne hj]
    exact h j

theorem ne_of_orgFree (hfree : w.orgFree org = true) : ∀ o ∈ w.orgs, o.id ≠ org.id := by
  simpa [Accounts.orgFree] using hfree

theorem ne_of_userFree (hfree : w.userFree env user = true) :
    ∀ u ∈ w.users, env.lower u.email ≠ env.lower user.email := by
  intro u hu heq
  have h := List.any_eq_false.mp (by simpa only [Accounts.userFree, Bool.not_eq_true'] using hfree) u hu
  exact h (decide_eq_true (.inr heq))

/-- A process that has noted nothing inserts an org whose id is free. -/
theorem Kept.insertOrg (h : Kept env w₀ w notes) (hi : notes i = [])
    (hfree : w.orgFree org = true) :
    Kept env w₀ { w with orgs := w.orgs ++ [org] } (Function.update notes i [.org org]) := by
  have hne : ∀ o ∈ w.orgs, o.id ≠ org.id := ne_of_orgFree hfree
  have hkeep : ∀ n ∈ notes i, n ∈ [Note.org org] := by simp [hi]
  have hother : ∀ {j o}, Note.org o ∈ Function.update notes i [.org org] j →
      j = i ∧ o = org ∨ j ≠ i ∧ Note.org o ∈ notes j := by
    intro j o ho
    rcases mem_update ho with ⟨hj, ho⟩ | ho
    · exact .inl ⟨hj, by simpa using ho⟩
    · exact .inr ho
  constructor
  case orgIds =>
    rw [List.map_append, List.nodup_append]
    refine ⟨h.orgIds, by simp, fun id hid id' hid' => ?_⟩
    obtain ⟨o, ho, rfl⟩ := List.mem_map.mp hid
    obtain rfl : id' = org.id := by simpa using hid'
    exact hne o ho
  case emails => exact h.emails
  case homes =>
    intro user huser
    obtain ⟨o, ho, hid⟩ := h.homes user huser
    exact ⟨o, List.mem_append_left _ ho, hid⟩
  case orgs =>
    intro o ho
    rcases List.mem_append.mp ho with ho | ho
    · exact (h.orgs o ho).imp_right fun ⟨j, hj⟩ => ⟨j, mem_update_of_mem hkeep hj⟩
    · obtain rfl : o = org := by simpa using ho
      exact .inr ⟨i, mem_update_self (by simp)⟩
  case users =>
    intro user huser
    exact (h.users user huser).imp_right fun ⟨j, hj⟩ => ⟨j, mem_update_of_mem hkeep hj⟩
  case stay => exact fun o ho => List.mem_append_left _ (h.stay o ho)
  case orgThere =>
    intro j o ho
    rcases hother ho with ⟨-, rfl⟩ | ⟨-, ho⟩
    · exact ⟨by simp, fun old hold => hne old (h.stay old hold)⟩
    · exact ⟨List.mem_append_left _ (h.orgThere j o ho).1, (h.orgThere j o ho).2⟩
  case userThere =>
    intro j user huser
    rcases mem_update huser with ⟨-, huser⟩ | ⟨-, huser⟩
    · simp at huser
    · exact h.userThere j user huser
  case apart =>
    intro j k o o' ho ho' hid
    rcases hother ho with ⟨hj, rfl⟩ | ⟨-, hold⟩
    · rcases hother ho' with ⟨hk, -⟩ | ⟨-, hold'⟩
      · exact hj.trans hk.symm
      · exact absurd hid.symm (hne o' (h.orgThere k o' hold').1)
    · rcases hother ho' with ⟨-, rfl⟩ | ⟨-, hold'⟩
      · exact absurd hid (hne o (h.orgThere j o hold).1)
      · exact h.apart j k o o' hold hold' hid
  case members =>
    intro j o ho user huser hmember
    rcases hother ho with ⟨-, rfl⟩ | ⟨hj, ho⟩
    · -- no user belongs to an org that was not there
      obtain ⟨old, hold, hid⟩ := h.homes user huser
      exact absurd (hid.trans hmember) (hne old hold)
    · exact mem_update_of_ne hj (h.members j o ho user huser hmember)
  case noted => exact noted_update h.noted (.half org)

/-- A process that has inserted an org inserts its owner, whose email is free. -/
theorem Kept.insertUser (h : Kept env w₀ w notes) (hi : notes i = [.org org])
    (horg : user.orgId = org.id) (hrole : user.role = .owner)
    (hfree : w.userFree env user = true) :
    Kept env w₀ { w with users := w.users ++ [user] }
      (Function.update notes i [.user user, .org org]) := by
  have hne := ne_of_userFree hfree
  have hown : .org org ∈ notes i := by simp [hi]
  have hkeep : ∀ n ∈ notes i, n ∈ [Note.user user, .org org] := by simp [hi]
  have hother : ∀ {j o}, Note.org o ∈ Function.update notes i [.user user, .org org] j →
      Note.org o ∈ notes j := by
    intro j o ho
    rcases mem_update ho with ⟨rfl, ho⟩ | ⟨-, ho⟩
    · obtain rfl : o = org := by simpa using ho
      exact hown
    · exact ho
  constructor
  case orgIds => exact h.orgIds
  case emails =>
    rw [List.map_append, List.nodup_append]
    refine ⟨h.emails, by simp, fun email hemail email' hemail' => ?_⟩
    obtain ⟨u, hu, rfl⟩ := List.mem_map.mp hemail
    obtain rfl : email' = env.lower user.email := by simpa using hemail'
    exact hne u hu
  case homes =>
    intro u hu
    rcases List.mem_append.mp hu with hu | hu
    · exact h.homes u hu
    · obtain rfl : u = user := by simpa using hu
      exact ⟨org, (h.orgThere i org hown).1, horg.symm⟩
  case orgs =>
    intro o ho
    exact (h.orgs o ho).imp_right fun ⟨j, hj⟩ => ⟨j, mem_update_of_mem hkeep hj⟩
  case users =>
    intro u hu
    rcases List.mem_append.mp hu with hu | hu
    · exact (h.users u hu).imp_right fun ⟨j, hj⟩ => ⟨j, mem_update_of_mem hkeep hj⟩
    · obtain rfl : u = user := by simpa using hu
      exact .inr ⟨i, mem_update_self (by simp)⟩
  case stay => exact h.stay
  case orgThere => exact fun j o ho => h.orgThere j o (hother ho)
  case userThere =>
    intro j u hu
    rcases mem_update hu with ⟨-, hu⟩ | ⟨-, hu⟩
    · obtain rfl : u = user := by simpa using hu
      exact List.mem_append_right _ (List.mem_singleton_self _)
    · exact List.mem_append_left _ (h.userThere j u hu)
  case apart => exact fun j k o o' ho ho' => h.apart j k o o' (hother ho) (hother ho')
  case members =>
    intro j o ho u hu hmember
    rcases List.mem_append.mp hu with hu | hu
    · exact mem_update_of_mem hkeep (h.members j o (hother ho) u hu hmember)
    · obtain rfl : u = user := by simpa using hu
      -- the user belongs to the org of this process, and to no other new one
      obtain rfl : i = j := h.apart i j org o hown (hother ho) (horg.symm.trans hmember)
      exact mem_update_self (by simp)
  case noted => exact noted_update h.noted (.both org user horg hrole)

/-- A process that has inserted both rows answers. -/
theorem Kept.reply (h : Kept env w₀ w notes) (hi : notes i = [.user user, .org org])
    (horg : user.orgId = org.id) (hrole : user.role = .owner) :
    Kept env w₀ w (Function.update notes i
      [.returned ⟨org.id, user.id, user.email, .owner⟩, .user user, .org org]) := by
  have hkeep : ∀ n ∈ notes i,
      n ∈ [.returned ⟨org.id, user.id, user.email, .owner⟩, Note.user user, .org org] := by
    simp [hi]
  have hback : ∀ {j n}, n ∈ Function.update notes i
      [.returned ⟨org.id, user.id, user.email, .owner⟩, .user user, .org org] j →
      (∀ r, n ≠ .returned r) → n ∈ notes j := by
    intro j n hn hne
    rcases mem_update hn with ⟨rfl, hnew⟩ | ⟨-, hold⟩
    · rw [hi]
      exact (List.mem_cons.mp hnew).resolve_left (hne _)
    · exact hold
  have horgs : ∀ {j o}, Note.org o ∈ Function.update notes i
      [.returned ⟨org.id, user.id, user.email, .owner⟩, .user user, .org org] j →
      .org o ∈ notes j := fun ho => hback ho (by simp)
  constructor
  case orgIds => exact h.orgIds
  case emails => exact h.emails
  case homes => exact h.homes
  case orgs =>
    intro o ho
    exact (h.orgs o ho).imp_right fun ⟨j, hj⟩ => ⟨j, mem_update_of_mem hkeep hj⟩
  case users =>
    intro u hu
    exact (h.users u hu).imp_right fun ⟨j, hj⟩ => ⟨j, mem_update_of_mem hkeep hj⟩
  case stay => exact h.stay
  case orgThere => exact fun j o ho => h.orgThere j o (horgs ho)
  case userThere => exact fun j u hu => h.userThere j u (hback hu (by simp))
  case apart => exact fun j k o o' ho ho' => h.apart j k o o' (horgs ho) (horgs ho')
  case members =>
    exact fun j o ho u hu hmember =>
      mem_update_of_mem hkeep (h.members j o (horgs ho) u hu hmember)
  case noted => exact noted_update h.noted (.returned org user horg hrole)

/-- The insert of an org, whether its id is free or not. -/
theorem Kept.org_stmt (h : Kept env w₀ w notes) (hi : notes i = []) :
    Kept env w₀ ((Stmt.insertOrg org).write env w)
      (Function.update notes i ((Stmt.insertOrg org).note ((Stmt.insertOrg org).result env w) ++
        notes i)) := by
  change Kept env w₀ (if w.orgFree org then _ else w)
    (Function.update notes i (cond (w.orgFree org) [.org org] [] ++ notes i))
  cases hfree : w.orgFree org with
  | true =>
      rw [hi]
      exact h.insertOrg hi hfree
  | false =>
      rw [cond_false, List.nil_append, Function.update_eq_self]
      exact h

/-- The insert of an owner who is free. -/
theorem Kept.user_stmt (h : Kept env w₀ w notes) (hi : notes i = [.org org])
    (horg : user.orgId = org.id) (hrole : user.role = .owner)
    (hfree : w.userFree env user = true) :
    Kept env w₀ ((Stmt.insertUser user).write env w)
      (Function.update notes i ((Stmt.insertUser user).note ((Stmt.insertUser user).result env w) ++
        notes i)) := by
  change Kept env w₀ (if w.userFree env user then _ else w)
    (Function.update notes i (cond (w.userFree env user) [.user user] [] ++ notes i))
  rw [hfree, hi]
  exact h.insertUser hi horg hrole hfree

/-- An allowed step keeps it. -/
theorem Kept.step {c c' : State} {l : Step}
    (h : Kept env w₀ c.glob.world fun i => own i c.glob.hist)
    (hstep : Stagestep (registrationStages env) c l c') (hok : ownerFollows env l c.glob = true) :
    Kept env w₀ c'.glob.world fun i => own i c'.glob.hist := by
  cases hstep with
  | stmt i q s next err busy hp hstage =>
      change Kept env w₀ (s.write env c.glob.world)
        fun j => own j ((registrations env).afterStmt ⟨i, q⟩ s busy none c.glob).hist
      rw [own_afterStmt]
      obtain ⟨-, ⟨rfl, hns, -⟩ | ⟨rfl, hns, -⟩ | ⟨rfl, hns, -⟩⟩ := Stage.op hstage
      · have hsame : Function.update (fun j => own j c.glob.hist) i (own i c.glob.hist) =
            fun j => own j c.glob.hist := Function.update_eq_self i fun j => own j c.glob.hist
        change Kept env w₀ c.glob.world
          (Function.update (fun j => own j c.glob.hist) i (own i c.glob.hist))
        rwa [hsame]
      · exact h.org_stmt hns
      · exact h.user_stmt hns rfl rfl hok
  | reply i q r hp hstage =>
      obtain ⟨rfl, hns⟩ := Stage.ret hstage
      change Kept env w₀ c.glob.world
        fun j => own j ((registrations env).record ⟨i, q⟩ (.reply (q.registered env)) c.glob).hist
      rw [own_record]
      have hreply := h.reply hns rfl rfl
      rwa [← hns] at hreply
  | spawn q => exact h
  | error i q e hp hstage => exact h
  | fault i q s next err hp hstage => exact h
  | crash i q p hp hstage => exact h
  | env e => exact e.elim

end Steps

/-! ## Main result -/

/-- Rows that all have one key are at most one. -/
theorem length_filter_le_one {α β : Type} {l : List α} {f : α → β} {p : α → Bool} {b : β}
    (hnodup : (l.map f).Nodup) (hkey : ∀ x ∈ l, p x = true → f x = b) :
    (l.filter p).length ≤ 1 := by
  have hkeys : (l.filter p).map f = List.replicate (l.filter p).length b := by
    rw [List.eq_replicate_iff]
    refine ⟨List.length_map f, fun y hy => ?_⟩
    obtain ⟨x, hx, rfl⟩ := List.mem_map.mp hy
    exact hkey x (List.mem_of_mem_filter hx) (List.of_mem_filter hx)
  have hsub : ((l.filter p).map f).Nodup := hnodup.sublist (List.filter_sublist.map f)
  rw [hkeys, List.nodup_replicate] at hsub
  exact hsub

/-- The only row that is looked for. -/
theorem filter_eq_singleton {α β : Type} {l : List α} {f : α → β} {p : α → Bool} {a : α}
    (hnodup : (l.map f).Nodup) (ha : a ∈ l) (hp : p a = true)
    (honly : ∀ x ∈ l, p x = true → x = a) : l.filter p = [a] := by
  have hmem : a ∈ l.filter p := List.mem_filter.mpr ⟨ha, hp⟩
  have hle : (l.filter p).length ≤ 1 :=
    length_filter_le_one hnodup fun x hx hpx => congrArg f (honly x hx hpx)
  obtain ⟨x, hx⟩ := List.length_eq_one_iff.mp
    (Nat.le_antisymm hle (List.length_pos_of_mem hmem))
  rw [hx] at hmem ⊢
  rw [List.mem_singleton.mp hmem]

/-- The tables at the start: ids and emails are unique, and a user has an org. -/
structure Accounts.Sound (env : EmailEnv) (w : Accounts) : Prop where
  orgIds : (w.orgs.map Org.id).Nodup
  emails : (w.users.map fun user => env.lower user.email).Nodup
  homes : ∀ user ∈ w.users, ∃ org ∈ w.orgs, org.id = user.orgId

section Runs

variable {w₀ w : Accounts} {notes : ℕ → List Note} {i : ℕ}

theorem Kept.start (h : w₀.Sound env) : Kept env w₀ w₀ fun _ => [] :=
  ⟨h.orgIds, h.emails, h.homes, fun _ ho => .inl ho, fun _ hu => .inl hu, fun _ ho => ho,
    fun _ _ ho => absurd ho (by simp), fun _ _ hu => absurd hu (by simp),
    fun _ _ _ _ ho => absurd ho (by simp), fun _ _ ho => absurd ho (by simp), fun _ => .nothing⟩

/-- What a call that has returned leaves. -/
theorem Kept.returned (h : Kept env w₀ w notes) {r : Registered} (hr : .returned r ∈ notes i) :
    (∀ org ∈ w₀.orgs, org.id ≠ r.orgId) ∧
    (∃ name, (w.orgs.filter fun org => org.id = r.orgId) = [⟨r.orgId, name⟩]) ∧
    (w.users.filter fun user => user.orgId = r.orgId) = [⟨r.userId, r.email, r.orgId, .owner⟩] := by
  have hnoted : Noted (notes i) := h.noted i
  generalize hns : notes i = ns at hnoted hr
  cases hnoted with
  | nothing => simp at hr
  | half org => simp at hr
  | both org user horg hrole => simp at hr
  | returned org user horg hrole =>
      obtain rfl : r = ⟨org.id, user.id, user.email, .owner⟩ := by simpa using hr
      have hown : .org org ∈ notes i := by simp [hns]
      have huser : .user user ∈ notes i := by simp [hns]
      obtain ⟨hthere, hnew⟩ := h.orgThere i org hown
      refine ⟨hnew, ⟨org.name, ?_⟩, ?_⟩
      · refine filter_eq_singleton h.orgIds hthere (by simp) fun o ho hid => ?_
        exact List.inj_on_of_nodup_map h.orgIds ho hthere (by simpa using hid)
      · have huser_eq : user = ⟨user.id, user.email, org.id, .owner⟩ := by
          cases user
          simp_all
        rw [← huser_eq]
        refine filter_eq_singleton h.emails (h.userThere i user huser) (by simpa using horg)
          fun u hu hid => ?_
        have hmine : .user u ∈ notes i := h.members i org hown u hu (by simpa using hid)
        simpa [hns] using hmine

end Runs

/-- In every run of registrations, of any number and in any order, in which the insert of an
owner follows that of the org and finds the owner free, registration is all or nothing. -/
theorem all_or_nothing {env : EmailEnv} {w₀ : Accounts} (hsound : w₀.Sound env)
    {cs : List (Choice Call Empty)} {c : State}
    (h : (registrations env).exec (ownerFollows env) cs (Sys.start w₀) = some c) :
    AllOrNothing w₀ c := by
  have hkept : Kept env w₀ c.glob.world fun i => own i c.glob.hist := by
    refine (registrationStages env).exec_invariant
      (I := fun c => Kept env w₀ c.glob.world fun i => own i c.glob.hist) ?_ ?_ h
    · exact Kept.start hsound
    · exact fun c l c' hc _ _ hstep hok => hc.step hstep hok
  have hstaged : (registrationStages env).Staged c := (registrationStages env).exec_staged h
  have hlive : ∀ i, halfDone (own i c.glob.hist) = true → ∃ p, c.procs i = some p := by
    refine (registrationStages env).exec_live (fun ns => halfDone ns = true) (by simp [halfDone])
      (fun a r g hstage => ?_) (fun a e g hstage => ?_) (fun a g hok => ?_) h
    · obtain ⟨-, hns⟩ := Stage.ret hstage
      change ¬ halfDone (.returned r :: own a.pid g.hist) = true
      simp [halfDone]
    · have hns : own a.pid g.hist = [] := Stage.fail hstage
      simp [hns, halfDone]
    · simpa [ownerFollows] using hok
  constructor
  case throws =>
    intro i p e hp hprog
    have hstage : Stage env p.req p.prog (own i c.glob.hist) := (hstaged i p hp).2
    rw [hprog] at hstage
    rw [hstage.fail]
    rintro (⟨org, horg⟩ | ⟨user, huser⟩)
    · simp at horg
    · simp at huser
  case returns => exact fun i r hr => hkept.returned hr
  case ended =>
    intro i hdead hinserted
    have hnoted : Noted (own i c.glob.hist) := hkept.noted i
    have hlive := hlive i
    generalize own i c.glob.hist = ns at hnoted hinserted hlive
    cases hnoted with
    | nothing =>
        rcases hinserted with ⟨org, horg⟩ | ⟨user, huser⟩
        · simp at horg
        · simp at huser
    | half org =>
        obtain ⟨p, hp⟩ := hlive rfl
        rw [hdead] at hp
        cases hp
    | both org user horg hrole => exact ⟨org, user, by simp, by simp⟩
    | returned org user horg hrole => exact ⟨org, user, by simp, by simp⟩
  case orgs => exact hkept.orgs
  case users => exact hkept.users
  case single =>
    intro email
    exact length_filter_le_one (b := env.lower email) hkept.emails fun u _ hu => by
      rw [of_decide_eq_true hu]

/-- Emails that are in lower case already. -/
def lowerEnv : EmailEnv := ⟨id, id⟩

/-- A registration with the email `a@b`, and ids of its own. -/
def registerAs (nano : String) : Call where
  input := .obj [("orgName", .str "Acme"), ("email", .str "a@b"), ("password", .str "password")]
  orgNano := nano
  userNano := nano

/-- One registration that returns. -/
theorem one_registration : ∃ c : State,
    (registrations lowerEnv).exec (ownerFollows lowerEnv)
      (.spawn (registerAs "x") :: List.replicate 4 (.run 0)) (Sys.start ⟨[], []⟩) = some c ∧
      AllOrNothing ⟨[], []⟩ c := by
  obtain ⟨c, hc⟩ := Option.isSome_iff_exists.mp
    (show ((registrations lowerEnv).exec (ownerFollows lowerEnv)
      (.spawn (registerAs "x") :: List.replicate 4 (.run 0)) (Sys.start ⟨[], []⟩)).isSome by
      decide +kernel)
  exact ⟨c, hc, all_or_nothing ⟨by decide, by decide, by decide⟩ hc⟩

/-- The message a program throws. -/
def thrownMessage {S : Type} {R : S → Type} {T α : Type} : Prog S R T String α → String
  | .fail e => e
  | _ => ""

/-- Two registrations with one email that both look for it before either inserts: the second one
throws, and its org stays. -/
theorem org_left_behind : ∃ c : State,
    (registrations lowerEnv).exec (fun _ _ => true)
      [.spawn (registerAs "x"), .spawn (registerAs "y"), .run 0, .run 1, .run 0, .run 1, .run 0,
        .run 1] (Sys.start ⟨[], []⟩) = some c ∧ ¬ AllOrNothing ⟨[], []⟩ c := by
  have hrun : ((registrations lowerEnv).exec (fun _ _ => true)
      [.spawn (registerAs "x"), .spawn (registerAs "y"), .run 0, .run 1, .run 0, .run 1, .run 0,
        .run 1] (Sys.start ⟨[], []⟩)).map
      (fun c => (own 1 c.glob.hist, (c.procs 1).map fun p => thrownMessage p.prog)) =
      some ([.org ⟨"org_y", "Acme"⟩], some "duplicate key value violates unique constraint") := by
    decide +kernel
  obtain ⟨c, hc, hstate⟩ := Option.map_eq_some_iff.mp hrun
  obtain ⟨hown, hproc⟩ := Prod.mk.inj hstate
  obtain ⟨p, hp, herror⟩ := Option.map_eq_some_iff.mp hproc
  refine ⟨c, hc, fun h => ?_⟩
  cases hprog : p.prog with
  | fail e =>
      refine h.throws 1 p e hp hprog (.inl ⟨⟨"org_y", "Acme"⟩, ?_⟩)
      simp [hown]
  | _ => simp [hprog, thrownMessage] at herror

end OpenUnion.Registration
