import OpenUnion.Code.Json
import OpenUnion.Interleave.Machine

/-!
# Origins

A buyer adds an origin, proves that it controls it and may revoke it.  `checkOrigin` reads the
row, looks for the token at the origin and writes the outcome; `revokeOrigin` writes the status.
Neither opens a transaction.

The network is part of the world and may change at any time.  `new URL` and the look-up that
keeps the verifier off private hosts are parameters.
-/

namespace OpenUnion.Origins

open Interleave

/-- `origins.status`. -/
inductive OriginStatus where
  | pending | verified | revoked
  deriving DecidableEq

/-- A row of `origins`. -/
structure Origin where
  orgId : Nat
  origin : String
  status : OriginStatus
  method : String
  token : String
  verifiedAt : Option Nat
  failureReason : Option String
  deriving DecidableEq

/-- A URL, as far as it is read here. -/
structure OriginUrl where
  protocol : String
  username : String
  password : String
  hostname : String
  origin : String

/-- What the code rests on. -/
structure OriginEnv where
  production : Bool
  /-- `new URL(s)`; `none` where it throws. -/
  newUrl : String → Option OriginUrl

/-- An HTTP answer; reading the body may fail. -/
structure Response where
  status : Nat
  headers : String → Option String
  body : Except String String

/-- `resp.ok`. -/
def Response.ok (r : Response) : Bool := decide (200 ≤ r.status ∧ r.status ≤ 299)

/-- What the verifier finds outside; errors are the messages it reports. -/
structure Network where
  /-- `assertOriginHostIsPublic`: the message it throws, if it does. -/
  hostNotPublic : String → Option String
  resolveTxt : String → Except String (List (List String))
  get : String → Except String Response
  head : String → Except String Response

/-- What a proof comes to: `none` is `ok`, otherwise the reason. -/
abbrev ProofResult := Option String

section Proofs

variable (env : OriginEnv) (net : Network)

/-- `normalizeOrigin`; `none` where it throws. -/
def normalizeOrigin (input : String) : Option String :=
  match env.newUrl input with
  | none => none
  | some url =>
      if url.username ≠ "" ∨ url.password ≠ "" then none
      else if url.protocol ∉ ["http:", "https:"] then none
      else if env.production ∧ url.protocol ≠ "https:" then none
      else some url.origin

/-- A TXT record at `_proofwork.<host>` that contains the token. -/
def proveByDns (u : OriginUrl) (token : String) : ProofResult :=
  match net.resolveTxt ("_proofwork." ++ u.hostname) with
  | .error message => some message
  | .ok records =>
      if records.any fun rec => includes (String.join rec) token then none
      else some "dns_txt_missing_token"

/-- A file at `/.well-known/proofwork-verify.txt` that contains the token. -/
def proveByFile (u : OriginUrl) (token : String) : ProofResult :=
  match net.get (u.origin ++ "/.well-known/proofwork-verify.txt") with
  | .error message => some message
  | .ok resp =>
      if !resp.ok then some s!"http_file_bad_status:{resp.status}"
      else
        match resp.body with
        | .error message => some message
        | .ok text => if includes text token then none else some "http_file_missing_token"

/-- A header that contains the token. -/
def proveByHeader (u : OriginUrl) (token : String) : ProofResult :=
  match net.head (u.origin ++ "/") with
  | .error message => some message
  | .ok resp =>
      if !resp.ok then some s!"header_bad_status:{resp.status}"
      else
        match (resp.headers "x-proofwork-verify").or ((resp.headers "x-proofwork-verification").or
            (resp.headers "x-proofwork-verify-token")) with
        | none => some "header_missing"
        | some h =>
            if h = "" then some "header_missing"
            else if includes h token then none else some "header_missing_token"

/-- `verifyOriginProof`. -/
def verifyOriginProof (origin method token : String) : ProofResult :=
  if origin = "" ∨ token = "" then some "invalid_origin_or_token"
  else
    match env.newUrl origin with
    | none => some "invalid_origin"
    | some u =>
        if u.protocol ∉ ["http:", "https:"] then some "invalid_origin_protocol"
        else if u.username ≠ "" ∨ u.password ≠ "" then some "invalid_origin_credentials"
        else
          match net.hostNotPublic origin with
          | some message => some message
          | none =>
              if method = "dns_txt" then proveByDns net u token
              else if method = "http_file" then proveByFile net u token
              else if method = "header" then proveByHeader net u token
              else some "unknown_method"

end Proofs

/-- The table `origins`, the clock and the network. -/
structure World where
  ids : List Nat
  origins : Nat → Option Origin
  now : Nat
  network : Network

/-- The statements, and the proof. -/
inductive Stmt where
  | select (id : Nat)
  | prove (origin method token : String)
  /-- `new Date()`. -/
  | now
  /-- `UPDATE … SET status = 'pending', failure_reason = … RETURNING *`. -/
  | setPending (id : Nat) (reason : String)
  /-- `UPDATE … SET status = 'verified', verified_at = …, failure_reason = NULL RETURNING *`. -/
  | setVerified (id verifiedAt : Nat)
  /-- `UPDATE … SET status = 'revoked' RETURNING *`. -/
  | setRevoked (id : Nat)

/-- What a statement answers. -/
@[reducible] def Stmt.Val : Stmt → Type
  | .select _ | .setPending _ _ | .setVerified _ _ | .setRevoked _ => Option Origin
  | .prove _ _ _ => ProofResult
  | .now => Nat

/-- A translated function; no transaction is opened. -/
abbrev Code := Prog Stmt Stmt.Val Empty String

def run (s : Stmt) : Code s.Val := perform s

/-- `executeTakeFirstOrThrow`. -/
def takeFirstOrThrow : Option Origin → Code (Option Origin)
  | some row => .ret (some row)
  | none => .fail "no result"

/-- The methods that `checkOrigin` knows. -/
def methods : List String := ["http_file", "dns_txt", "header"]

/-- What `checkOrigin` does with a pending row. -/
def checkPending (id : Nat) (row : Origin) : Code (Option Origin) :=
  if row.method ∉ methods then
    (run (.setPending id "invalid verification method")).bind takeFirstOrThrow
  else
    (run (.prove row.origin row.method row.token)).bind fun check =>
      match check with
      | none => (run .now).bind fun now => (run (.setVerified id now)).bind takeFirstOrThrow
      | some reason => (run (.setPending id reason)).bind takeFirstOrThrow

/-- `checkOrigin`. -/
def checkOrigin (id : Nat) : Code (Option Origin) :=
  (run (.select id)).bind fun row =>
    match row with
    | none => .ret none
    | some row => if row.status = .pending then checkPending id row else .ret (some row)

/-- `revokeOrigin`. -/
def revokeOrigin (id : Nat) : Code (Option Origin) := run (.setRevoked id)

/-- The requests. -/
inductive Request where
  /-- `POST /api/origins/:originId/check`. -/
  | check (id : Nat)
  /-- `POST /api/origins/:originId/revoke`. -/
  | revoke (id : Nat)
  deriving DecidableEq

/-- The answer of both routes, by what the function returns. -/
inductive Reply where
  | origin (row : Origin)
  | error (status : Nat) (code message : String)

/-- `if (!rec) return reply.code(404)…`. -/
def answer : Option Origin → Reply
  | some row => .origin row
  | none => .error 404 "not_found" "origin not found"

/-- The program of a request. -/
def Request.code : Request → Code Reply
  | .check id => (checkOrigin id).bind fun rec => .ret (answer rec)
  | .revoke id => (revokeOrigin id).bind fun rec => .ret (answer rec)

/-- The row allows the origin to its organisation. -/
def Origin.allows (row : Origin) (orgId : Nat) (origin : String) : Bool :=
  decide (row.orgId = orgId ∧ row.status = .verified ∧ row.origin = origin)

/-- `originAllowed`. -/
def originAllowed (env : OriginEnv) (w : World) (orgId : Nat) (candidate : String) : Bool :=
  match normalizeOrigin env candidate with
  | none => false
  | some o => w.ids.any fun id => (w.origins id).any fun row => row.allows orgId o

section Engine

/-- Change a row that exists. -/
def World.update (w : World) (id : Nat) (f : Origin → Origin) : World :=
  { w with origins := Function.update w.origins id ((w.origins id).map f) }

/-- The row that a statement leaves. -/
def Stmt.set : Stmt → Origin → Origin
  | .setPending _ reason, row => { row with status := .pending, failureReason := some reason }
  | .setVerified _ verifiedAt, row =>
      { row with status := .verified, verifiedAt := some verifiedAt, failureReason := none }
  | .setRevoked _, row => { row with status := .revoked }
  | .select _, row | .prove _ _ _, row | .now, row => row

/-- The row a statement updates. -/
def Stmt.updates : Stmt → Option Nat
  | .setPending id _ | .setVerified id _ | .setRevoked id => some id
  | .select _ | .prove _ _ _ | .now => none

def Stmt.result (env : OriginEnv) (w : World) : (s : Stmt) → s.Val
  | .select id => w.origins id
  | .prove origin method token => verifyOriginProof env w.network origin method token
  | .now => w.now
  | .setPending id reason => (w.origins id).map (Stmt.setPending id reason).set
  | .setVerified id verifiedAt => (w.origins id).map (Stmt.setVerified id verifiedAt).set
  | .setRevoked id => (w.origins id).map (Stmt.setRevoked id).set

def Stmt.write (s : Stmt) (w : World) : World :=
  match s.updates with
  | some id => w.update id s.set
  | none => w

/-- The meaning of the statements.  Each commits by itself, so none waits for another. -/
def originEngine (env : OriginEnv) : Engine Stmt Stmt.Val World Empty where
  result s _ w := s.result env w
  locks _ _ _ := []
  write s _ _ w := s.write w
  effect _ _ _ w := w
  same _ _ _ := True
  same_refl _ _ := trivial
  same_trans _ _ _ _ _ _ := trivial
  write_same _ _ _ _ _ _ := trivial
  effect_same _ _ _ _ _ := trivial

end Engine

/-- A statement that a request has executed, with its answer. -/
structure Executed where
  req : Request
  stmt : Stmt
  val : stmt.Val

/-- What happens outside the requests. -/
inductive Outside where
  | tick (ms : Nat)
  | network (net : Network)

/-- A move of the outside. -/
def Outside.move : Outside → World → World
  | .tick ms, w => { w with now := w.now + ms }
  | .network net, w => { w with network := net }

/-- The requests over one table. -/
def originChecks (env : OriginEnv) :
    Machine Stmt Stmt.Val Empty String Reply Request World Empty Outside Executed where
  engine := originEngine env
  code _ q := q.code
  env := Outside.move
  env_same _ k _ := k.elim
  note a x _ :=
    match x with
    | .stmt s r => [⟨a.req, s, r⟩]
    | .commit t => t.elim
    | .reply _ => []

end OpenUnion.Origins
