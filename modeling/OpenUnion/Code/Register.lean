import OpenUnion.Code.Json
import OpenUnion.Code.Scanner
import OpenUnion.Interleave.Stages

/-!
# Registration of an org

`registerOrg` looks for a user with the email and then inserts the org and its owner, each
statement by itself.  `orgs` is unique in its ids; `org_users` is unique in its ids and, by an
index on `lower(email)`, in its emails.

The two ids that `nanoid` draws come with the call and may be taken. `toLowerCase` and the
`lower` of the database are parameters; the hash of the password and the other columns are left
out, and so is the reference of a user to its org, which a call has inserted before.
-/

namespace OpenUnion.Registration

open Interleave

/-- The functions that read an email. -/
structure EmailEnv where
  toLowerCase : String → String
  /-- `lower` of the database. -/
  lower : String → String

/-- A row of `orgs`. -/
structure Org where
  id : String
  name : String
  deriving DecidableEq

inductive OrgRole where
  | owner
  | admin
  | editor
  | viewer
  deriving DecidableEq

/-- A row of `org_users`. -/
structure OrgUser where
  id : String
  email : String
  orgId : String
  role : OrgRole
  deriving DecidableEq

/-- The two tables. -/
structure Accounts where
  orgs : List Org
  users : List OrgUser

/-- What `registerOrg` returns. -/
structure Registered where
  orgId : String
  userId : String
  email : String
  role : OrgRole
  deriving DecidableEq

/-- A call of `registerOrg`, with what `nanoid` draws in it. -/
structure Call where
  input : Json
  orgNano : String
  userNano : String

inductive Stmt where
  | userByEmail (email : String)
  | insertOrg (org : Org)
  | insertUser (user : OrgUser)

/-- What a statement answers; an insert whether the row was free. -/
def Stmt.Val : Stmt → Type
  | .userByEmail _ => Option OrgUser
  | .insertOrg _ | .insertUser _ => Bool

namespace Accounts

variable (w : Accounts)

/-- The id of the org is free. -/
def orgFree (org : Org) : Bool := !w.orgs.any fun o => decide (o.id = org.id)

/-- The id and the email of the user are free. -/
def userFree (env : EmailEnv) (user : OrgUser) : Bool :=
  !w.users.any fun u => decide (u.id = user.id ∨ env.lower u.email = env.lower user.email)

end Accounts

section Calls

variable (env : EmailEnv)

/-- What a statement answers. -/
def Stmt.result : (s : Stmt) → Accounts → s.Val
  | .userByEmail email, w => w.users.find? fun u => decide (u.email = email)
  | .insertOrg org, w => w.orgFree org
  | .insertUser user, w => w.userFree env user

/-- The tables after a statement. -/
def Stmt.write : Stmt → Accounts → Accounts
  | .userByEmail _, w => w
  | .insertOrg org, w => if w.orgFree org then { w with orgs := w.orgs ++ [org] } else w
  | .insertUser user, w => if w.userFree env user then { w with users := w.users ++ [user] } else w

/-- Programs over the two tables. -/
abbrev Code := Prog Stmt Stmt.Val Unit String

/-- Execute a statement. -/
abbrev run (s : Stmt) : Code s.Val := perform s

/-- `normalizeEmail`. -/
def normalizeEmail (email : String) : String := env.toLowerCase (trimmed email)

namespace Call

variable (call : Call)

def orgName : String := trimmed (call.input.textAt "orgName" "")

def email : String := normalizeEmail env (call.input.textAt "email" "")

def password : String := call.input.textAt "password" ""

/-- The error of the input, if it has one. -/
@[irreducible] def inputError : Option String :=
  let nameLength := Storage.utf16Length call.orgName
  let email := call.email env
  let passwordLength := Storage.utf16Length call.password
  if call.orgName = "" ∨ nameLength < 2 ∨ 80 < nameLength then some "invalid_org_name"
  else if email = "" ∨ includes email "@" = false ∨ 200 < Storage.utf16Length email then
    some "invalid_email"
  else if call.password = "" ∨ passwordLength < 8 ∨ 200 < passwordLength then
    some "invalid_password"
  else none

/-- The org a call inserts. -/
def org : Org := ⟨"org_" ++ call.orgNano, call.orgName⟩

/-- The owner a call inserts. -/
def owner : OrgUser := ⟨call.userNano, call.email env, call.org.id, .owner⟩

/-- What a call returns. -/
def registered : Registered := ⟨call.org.id, call.userNano, call.email env, .owner⟩

end Call

/-- `registerOrg`. -/
def registerOrg (call : Call) : Code Registered := do
  match call.inputError env with
  | some error => throw error
  | none =>
      let existing : Option OrgUser ← run (.userByEmail (call.email env))
      if existing.isSome then throw "email_already_registered"
      else
        let orgFree : Bool ← run (.insertOrg call.org)
        if orgFree then
          let userFree : Bool ← run (.insertUser (call.owner env))
          if userFree then return call.registered env
          else throw "duplicate key value violates unique constraint"
        else throw "duplicate key value violates unique constraint"

/-- What is noted of the calls. -/
inductive Note where
  | org (org : Org)
  | user (user : OrgUser)
  | returned (r : Registered)
  deriving DecidableEq

/-- The note of a statement: a row it has inserted. -/
def Stmt.note : (s : Stmt) → s.Val → List Note
  | .userByEmail _, _ => []
  | .insertOrg org, free => cond free [.org org] []
  | .insertUser user, free => cond free [.user user] []

/-- Calls over one database. -/
def registrations : Machine Stmt Stmt.Val Unit String Registered Call Accounts Empty Empty Note where
  engine := Engine.lockless (Stmt.result env) (Stmt.write env)
  code _ call := registerOrg env call
  env e := e.elim
  env_same e := e.elim
  note _ x _ :=
    match x with
    | .stmt s r => s.note r
    | .reply r => [.returned r]
    | .commit _ => []

end Calls

end OpenUnion.Registration
