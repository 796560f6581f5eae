import OpenUnion.Code.Json
import OpenUnion.Code.RateLimit
import OpenUnion.Text.Percent

/-!
# Authentication of buyers

`authenticateBuyer` prefers the session of the cookie `pw_sess` and falls back to the API key of
the `authorization` header.  The header of cookies is read as a whole before anything else:
`parseCookies` decodes the value of every pair that has a name.

The hashes and `toUpperCase` are parameters; what a key was last used is left out.
-/

namespace OpenUnion

open Text

/-! ## Cookies -/

/-- A pair of the header: the text before the first `=`, and the text behind it. -/
def cookiePair (part : String) : String × String :=
  match (trimmed part).toList.splitOn '=' with
  | [] => ("", "")
  | k :: rest => (String.ofList k, String.ofList (List.intercalate ['='] rest))

/-- The pairs of a header that have a name. -/
def cookiePairs (header : Option String) : List (String × String) :=
  ((((header.getD "").toList.splitOn ';').map String.ofList).map cookiePair).filter (·.1 ≠ "")

/-- The assignments of `parseCookies`; an assignment to `__proto__` does not make a property. -/
def setCookies : (String → Option String) → List (String × String) →
    Option (String → Option String)
  | out, [] => some out
  | out, (k, raw) :: pairs =>
      (decodeURIComponent raw).bind fun v =>
        setCookies (if k = "__proto__" then out else Function.update out k (some v)) pairs

/-- `parseCookies`; `none` where it throws. -/
def parseCookies (header : Option String) : Option (String → Option String) :=
  setCookies (fun _ => none) (cookiePairs header)

/-! ## The tables and the request -/

/-- A row of `sessions`. -/
structure SessionRow where
  userId : String
  orgId : String
  role : String
  csrfSecret : String
  /-- In milliseconds. -/
  expiresAt : Option ℤ
  revokedAt : Option ℤ

/-- A row of `org_api_keys`. -/
structure ApiKeyRow where
  id : String
  orgId : String
  keyPrefix : String
  keyHash : String
  revokedAt : Option ℤ

/-- What a request finds: the tables, the clock, and for each key of the rate limiter the table
and the clock at the call for it. -/
structure AuthEnv where
  /-- The signature of a session id, in hexadecimal digits. -/
  signSessionId : String → String
  csrfToken : String → String
  /-- With `BUYER_TOKEN_PEPPER`. -/
  hmacSha256Hex : String → String
  sha256 : String → String
  toUpperCase : String → String
  sessions : String → Option SessionRow
  apiKeys : List ApiKeyRow
  now : ℤ
  buckets : String → Buckets
  clock : String → ℤ

/-- The headers and the route of a request. -/
structure BuyerRequest where
  cookie : Option String
  authorization : Option String
  csrfHeader : Option String
  method : String
  routeUrl : Option String
  url : String

/-- The fields `authenticateBuyer` sets on the request. -/
structure BuyerIdentity where
  orgId : Option String
  userId : Option String
  role : Option String
  sessionId : Option String
  csrfSecret : Option String
  apiKeyId : Option String
  deriving DecidableEq

/-- How `authenticateBuyer` returns: the fields it has set, and the answer it has sent, if any. -/
structure AuthResult where
  request : BuyerIdentity
  sent : Option (ℕ × String × String)
  deriving DecidableEq

variable (env : AuthEnv)

/-! ## Sessions and keys -/

/-- The bytes of `Buffer.from(text, 'hex')`, which ends at the first pair that is no byte. -/
def bufferFromHex : List Char → List ℕ
  | h :: l :: rest =>
      match hexByte h l with
      | some b => b :: bufferFromHex rest
      | none => []
  | _ => []

/-- `verifySessionCookie`. -/
def verifySessionCookie (cookieValue : String) : Option String :=
  match (cookieValue.toList.splitOn '.').map String.ofList with
  | [id, sig] =>
      if bufferFromHex sig.toList = bufferFromHex (env.signSessionId id).toList then some id
      else none
  | _ => none

/-- `getSession`. -/
def getSession (id : String) : Option SessionRow :=
  (env.sessions id).filter fun row =>
    row.revokedAt.isNone && row.expiresAt.all fun t => decide (env.now ≤ t)

/-- `getApiKey`. -/
def getApiKey (token : String) : Option ApiKeyRow :=
  env.apiKeys.find? fun row =>
    decide (row.keyPrefix = String.ofList (token.toList.take 12)) &&
      decide (row.keyHash = env.hmacSha256Hex token ∨ row.keyHash = env.sha256 token) &&
      row.revokedAt.isNone

/-- The token of the `authorization` header; an empty one counts as none. -/
def bearerToken (authorization : Option String) : Option String :=
  authorization.bind fun auth =>
    if "Bearer ".toList.isPrefixOf auth.toList then
      some (trimmed (String.ofList (auth.toList.drop 7)))
    else none

/-- `rateLimit` for one key of this request. -/
def withinLimit (key : String) (ratePerMin : ℚ) : Except String Bool :=
  match rateLimit (env.buckets key) ⟨key, ratePerMin, env.clock key⟩ with
  | none => .error "rate_limit_bucket_missing"
  | some (ok, _) => .ok ok

/-! ## The request -/

/-- The key of the route in the rate limiter. -/
def BuyerRequest.routeKey (req : BuyerRequest) : String := req.routeUrl.getD req.url

/-- Nothing is set on the request yet. -/
def BuyerIdentity.unset : BuyerIdentity := ⟨none, none, none, none, none, none⟩

/-- The answer to a request beyond a limit. -/
def rateLimited (who : BuyerIdentity) : AuthResult :=
  ⟨who, some (429, "rate_limited", "Rate limited")⟩

/-- The two limits of a session or of a key. -/
def checkLimits (who : BuyerIdentity) (owner routeKey : String) (globalRate routeRate : ℚ)
    (next : Except String AuthResult) : Except String AuthResult := do
  if !(← withinLimit env (owner ++ ":global") globalRate) then return rateLimited who
  if !(← withinLimit env (owner ++ ":route:" ++ routeKey) routeRate) then return rateLimited who
  next

/-- A request with a live session. -/
def authenticateSession (req : BuyerRequest) (id : String) (sess : SessionRow) :
    Except String AuthResult :=
  let who : BuyerIdentity :=
    ⟨some sess.orgId, some sess.userId, some sess.role, some id, some sess.csrfSecret, none⟩
  checkLimits env who ("buyer_sess:" ++ id) req.routeKey 240 120 <|
    let token := req.csrfHeader.getD ""
    if env.toUpperCase req.method ∈ ["POST", "PUT", "PATCH", "DELETE"] ∧
        (token = "" ∨ token ≠ env.csrfToken sess.csrfSecret) then
      .ok ⟨who, some (403, "csrf", "Missing/invalid CSRF token")⟩
    else .ok ⟨who, none⟩

/-- The fallback to the API key. -/
def authenticateKey (req : BuyerRequest) : Except String AuthResult :=
  match bearerToken req.authorization with
  | none | some "" =>
      .ok ⟨.unset, some (401, "unauthorized", "Missing buyer token or session")⟩
  | some token =>
      match getApiKey env token with
      | none => .ok ⟨.unset, some (401, "unauthorized", "Invalid buyer token")⟩
      | some apiKey =>
          let who : BuyerIdentity :=
            ⟨some apiKey.orgId, none, none, none, none, some apiKey.id⟩
          checkLimits env who ("buyer:" ++ apiKey.id) req.routeKey 120 60 (.ok ⟨who, none⟩)

/-- The live session of a value of `pw_sess`. -/
def liveSession (sessCookie : Option String) : Option (String × SessionRow) :=
  match sessCookie with
  | none | some "" => none
  | some value =>
      (verifySessionCookie env value).bind fun id =>
        if id = "" then none else (getSession env id).map fun sess => (id, sess)

/-- `authenticateBuyer`. -/
def authenticateBuyer (req : BuyerRequest) : Except String AuthResult :=
  match parseCookies req.cookie with
  | none => .error "URIError: URI malformed"
  | some cookies =>
      match liveSession env (cookies "pw_sess") with
      | some (id, sess) => authenticateSession env req id sess
      | none => authenticateKey env req

end OpenUnion
