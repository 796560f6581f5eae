import OpenUnion.Code.Json

/-!
# Calls of the chain's JSON-RPC

`rpcCall` asks one URL after the other, each up to `maxRetries + 1` times, and returns the
`result` of the first reply that has no error.

The replies come with the request's number in the call. `JSON.parse` and `toLowerCase` are
parameters; the waits between attempts are left out, and a request that times out is one that
fails with an `AbortError`.
-/

namespace OpenUnion

/-- The functions of the language that `rpcCall` uses. -/
structure RpcEnv where
  /-- `JSON.parse`, if it does not throw. -/
  parse : String → Option Json
  /-- There is no JSON text without characters. -/
  parse_empty : parse "" = none
  toLowerCase : String → String

/-- What comes of one request. -/
inductive RpcReply where
  /-- `fetch` or the read of the body throws. -/
  | failed (name message : String)
  | answered (status : ℕ) (text : String)

/-- What an attempt throws. -/
structure RpcError where
  name : String
  message : String
  deriving DecidableEq

variable (env : RpcEnv)

/-- `resp.ok`. -/
def httpOk (status : ℕ) : Prop := 200 ≤ status ∧ status ≤ 299

instance (status : ℕ) : Decidable (httpOk status) := inferInstanceAs (Decidable (_ ∧ _))

/-- The body, `null` when it is empty or no JSON. -/
def rpcBody (text : String) : Json :=
  if text = "" then .null else (env.parse text).getD .null

/-- `json?.error`, if it counts as true. -/
def bodyError (json : Json) : Option Json := (json.get? "error").filter Json.truthy

/-- The result of an attempt, `undefined` being `none`, or what it throws. -/
def rpcOutcome : RpcReply → Except RpcError (Option Json)
  | .failed name message => .error ⟨name, message⟩
  | .answered status text =>
      if httpOk status then
        let json := rpcBody env text
        match bodyError json with
        | some err =>
            .error ⟨"Error",
              "rpc_error:" ++ err.textAt "code" "" ++ ":" ++ err.textAt "message" ""⟩
        | none => .ok (json.get? "result")
      else .error ⟨"Error", "rpc_http_error:" ++ toString status ++ ":" ++ sliced text 200⟩

/-- The texts that make an error worth another attempt. -/
def retryableTexts : List String :=
  ["rpc_http_error:429", "rpc_http_error:5", "rate limit", "over rate limit", "rpc_error:-32016",
    "fetch failed", "econnreset", "etimedout", "enotfound", "eai_again"]

def isRetryableRpcError (err : RpcError) : Bool :=
  decide (err.name = "AbortError") ||
    retryableTexts.any (includes (env.toLowerCase err.message))

variable (replies : ℕ → RpcReply)

/-- The attempts at one URL, `left` of them after this one. `sent` are the URLs of the requests
so far. -/
def tryUrl (url : String) (left : ℕ) (sent : List String) :
    List String × Except RpcError (Option Json) :=
  match rpcOutcome env (replies sent.length), left with
  | .ok v, _ => (sent ++ [url], .ok v)
  | .error err, 0 => (sent ++ [url], .error err)
  | .error err, left + 1 =>
      if isRetryableRpcError env err then tryUrl url left (sent ++ [url])
      else (sent ++ [url], .error err)

/-- The loop over the URLs. -/
def tryUrls (maxRetries : ℕ) : List String → List String → Option RpcError →
    List String × Except RpcError (Option Json)
  | [], sent, lastErr => (sent, .error (lastErr.getD ⟨"Error", "rpc_call_failed"⟩))
  | url :: urls, sent, _ =>
      match tryUrl env replies url maxRetries sent with
      | (sent, .ok v) => (sent, .ok v)
      | (sent, .error err) => tryUrls maxRetries urls sent (some err)

/-- The URLs of the requests in order, and what the call resolves or rejects with. -/
def rpcCall (maxRetries : ℕ) (urls : List String) : List String × Except RpcError (Option Json) :=
  tryUrls env replies maxRetries urls [] none

end OpenUnion
