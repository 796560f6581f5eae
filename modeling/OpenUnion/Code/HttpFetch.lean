import OpenUnion.Code.BrowserFlow

/-!
# HTTP requests of the worker

`fetchWithManualRedirects` asks for a URL and follows redirects by hand, four requests at most.
It checks a URL before it asks for it, and the target of a redirect once more as soon as it is
known.

A server may answer each request as it likes, so its replies go by the number of the request.
The headers of a request and its timeout are left out, and of a reply there is what the function
reads.
-/

namespace OpenUnion

/-- The worker's environment with `new URL(relative, base).toString()`, unless it throws. -/
structure FetchEnv extends WorkerEnv where
  resolveUrl : String → String → Option String

/-- A response, as far as it is read. -/
structure HttpReply where
  status : ℕ
  location : Option String

/-- What a call meets: the clock and the network. -/
structure Network where
  /-- The deadline has passed when the request is due. -/
  late : ℕ → Bool
  /-- The reply to a request, or the message `fetch` throws. -/
  reply : ℕ → String → Except String HttpReply

section

variable (env : FetchEnv) (network : Network) (allowedOrigins : List String)

/-- The target of a redirect, which has to be allowed like any other URL. -/
def redirectTarget (i : ℕ) (url location : String) : Except String String :=
  match env.resolveUrl location url with
  | none => .error "Invalid URL"
  | some next =>
      if env.strict then
        (assertUrlAllowed env.toWorkerEnv next allowedOrigins
          ("http_redirect_" ++ toString i)).map fun _ => next
      else .ok next

/-- The loop, from request `i` on with so many left: the URLs that are asked for, and the URL and
the response that are returned. -/
def fetchFrom (i : ℕ) (url : String) (resp : Option HttpReply) :
    ℕ → List String × Except String (String × Option HttpReply)
  | 0 => ([], .ok (url, resp))
  | left + 1 =>
      if network.late i then ([], .error "job_time_budget_exceeded")
      else match checkUrl env.toWorkerEnv url allowedOrigins ("http_url_" ++ toString i) with
      | .error message => ([], .error message)
      | .ok () => match network.reply i url with
        | .error message => ([url], .error message)
        | .ok resp =>
            if resp.status < 300 ∨ 400 ≤ resp.status then ([url], .ok (url, some resp))
            else match resp.location.filter fun loc => decide (loc ≠ "") with
            | none => ([url], .ok (url, some resp))
            | some loc => match redirectTarget env allowedOrigins i url loc with
              | .error message => ([url], .error message)
              | .ok next =>
                  let rest := fetchFrom (i + 1) next (some resp) left
                  (url :: rest.1, rest.2)

/-- `fetchWithManualRedirects`. -/
def fetchWithManualRedirects (url : String) :
    List String × Except String (String × Option HttpReply) :=
  fetchFrom env network allowedOrigins 0 url none 4

end

end OpenUnion
