import OpenUnion.Code.Json
import OpenUnion.Interleave.Prog

/-!
# The browser flow of the worker

`runOpenClawBrowserFlowModule` opens a page with the `openclaw` command and works through the
steps of a flow on it.  A step that may have moved the page is followed by `enforcePagePolicy`,
which asks the page for its location and checks it.

Commands, files, uploads and the clock are statements, and what they answer, a failure
included, is a reply.  Timeouts belong to the behaviour of the commands and are left out.
The log lines are statements of their own, for they survive a step that throws.
-/

namespace OpenUnion

open Interleave

/-- What `new URL` returns of a URL. -/
structure Url where
  protocol : String
  username : String
  password : String
  origin : String

/-- The worker's environment, and the built-in functions it rests on. -/
structure WorkerEnv where
  /-- `PROOFWORK_ORIGIN_ENFORCEMENT` is `strict`. -/
  strict : Bool
  noLogin : Bool
  denyOrigins : List String
  allowOrigins : List String
  extraAllowedOrigins : List String
  valueEnvAllowlist : List String
  processEnv : String → Option String
  browserProfile : String
  browserReady : Bool
  /-- A file in a directory `mkdtemp` makes. -/
  snapshotPath : String
  /-- `JSON.parse`, or the message it throws. -/
  parseJson : String → Except String Json
  /-- `new URL`, unless it throws. -/
  parseUrl : String → Option Url
  toLowerCase : String → String
  /-- The match of `/\bMEDIA:([^\s]+)\s*$/m`. -/
  mediaPath : String → Option String

/-- What a `wait` waits for. -/
inductive WaitFor where
  | time (ms : String)
  | selector (selector : String)
  | text (text : String)
  | url (url : String)

/-- The `openclaw browser` commands. -/
inductive OpenClaw where
  | createProfile (name : String)
  | start
  | openUrl (url : String)
  | navigate (url targetId : String)
  | wait (what : WaitFor) (targetId : String)
  | click (ref targetId : String)
  | typeText (ref value targetId : String)
  | press (key targetId : String)
  | snapshot (out targetId : String)
  | screenshot (fullPage : Bool) (targetId : String)
  | evaluateLocation (targetId : String)
  | evaluate (fn ref targetId : String)
  | close (targetId : String)

/-- An artifact `uploadArtifact` has stored. -/
structure StoredArtifact where
  kind : String
  label : String

/-- What the flow asks of the outside. -/
inductive FlowStmt where
  | now
  | openclaw (command : OpenClaw)
  | readText (path : String)
  | readBytes (path : String)
  | log (line : String)
  | uploadArtifact (filename contentType kind label : String) (bytes : List UInt8)
  /-- Upload the log lines and what has been extracted. -/
  | uploadLog (extracted : List (String × Json))

/-- The replies: a command prints to `stdout`, or exits with a code and `stderr`. -/
@[reducible] def FlowStmt.Val : FlowStmt → Type
  | .now => Nat
  | .openclaw _ => Except (String × String) String
  | .readText _ => Except String String
  | .readBytes _ => Except String (List UInt8)
  | .log _ => Unit
  | .uploadArtifact _ _ _ _ _ => Except String StoredArtifact
  | .uploadLog _ => Except String StoredArtifact

/-- A program of the worker; what it throws is the message of the error. -/
abbrev Flow := Prog FlowStmt FlowStmt.Val Unit String

/-- Throw the message of a failed computation. -/
def orMessage {α : Type} : Except String α → Flow α
  | .ok a => .ret a
  | .error message => .fail message

/-- Execute a statement of the flow. -/
abbrev doFlow (s : FlowStmt) : Flow s.Val := perform s

/-- A line of the flow's log. -/
abbrev pushLog (line : String) : Flow Unit := doFlow (.log line)

/-- `runOpenClaw`. -/
def runOpenClaw (command : OpenClaw) : Flow String := do
  match ← doFlow (.openclaw command) with
  | .ok stdout => return stdout
  | .error (code, stderr) => throw ("openclaw_failed:" ++ code ++ ":" ++ sliced stderr 300)

section Policy

variable (env : WorkerEnv)

/-- `urlOriginStrict`. -/
def urlOriginStrict (url : String) : Except String String :=
  match env.parseUrl url with
  | none => .error "Invalid URL"
  | some u =>
      if u.protocol ≠ "http:" ∧ u.protocol ≠ "https:" then .error "unsupported_url_scheme"
      else if u.username ≠ "" ∨ u.password ≠ "" then .error "url_contains_credentials"
      else .ok u.origin

/-- `originAllowedByWorkerPolicy`. -/
def originAllowedByWorkerPolicy (origin : String) : Bool :=
  if origin ∈ env.denyOrigins then false
  else if env.allowOrigins ≠ [] then decide (origin ∈ env.allowOrigins)
  else true

/-- `assertUrlAllowed`. -/
def assertUrlAllowed (url : String) (allowedOrigins : List String) (what : String) :
    Except String String :=
  match urlOriginStrict env url with
  | .error message => .error message
  | .ok origin =>
      if ¬ originAllowedByWorkerPolicy env origin then
        .error ("origin_blocked_by_worker_policy:" ++ what ++ ":" ++ origin)
      else if env.strict ∧ allowedOrigins = [] then
        .error ("origin_enforcement_missing_allowed_origins:" ++ what)
      else if env.strict ∧ origin ∉ allowedOrigins then
        .error ("origin_not_allowed:" ++ what ++ ":" ++ origin)
      else .ok origin

/-- `looksLikeLoginText`. -/
def looksLikeLoginText (s : String) : Bool :=
  ["oauth", "sso", "sign in", "signin", "log in", "login", "password", "passcode", "one-time",
    "one time", "otp", "2fa", "mfa", "verification code", "auth/"].any
      (includes (env.toLowerCase s))

/-- Throw for a text that looks like a login. -/
def refuseLogin (url : String) : Except String Unit :=
  if env.noLogin && looksLikeLoginText env url then .error ("no_login_blocked_url:" ++ url)
  else .ok ()

/-- What is checked of a URL before it is used. -/
def checkUrl (url : String) (allowedOrigins : List String) (what : String) : Except String Unit :=
  match if env.strict then (assertUrlAllowed env url allowedOrigins what).map fun _ => ()
      else .ok () with
  | .error message => .error message
  | .ok () => refuseLogin env url

/-- `parseJsonFromStdout`. -/
def parseJsonFromStdout (stdout : String) : Except String Json :=
  let text := trimmed stdout
  if text = "" then .ok .null
  else
    match env.parseJson text with
    | .ok j => .ok j
    | .error _ =>
        let cs := text.toList
        let starts := [cs.findIdx? (· = '\x7b'), cs.findIdx? (· = '[')].filterMap id
        let ends := [cs.reverse.findIdx? (· = '\x7d'), cs.reverse.findIdx? (· = ']')].filterMap id
        match starts.min?, ends.min? with
        | some first, some fromEnd =>
            if first < cs.length - 1 - fromEnd then
              env.parseJson (String.ofList ((cs.take (cs.length - fromEnd)).drop first))
            else .error "json_parse_failed"
        | _, _ => .error "json_parse_failed"

/-- `getCurrentPageUrl`. -/
def getCurrentPageUrl (targetId : String) : Flow String := do
  let stdout ← runOpenClaw (.evaluateLocation targetId)
  let j ← orMessage (parseJsonFromStdout env stdout)
  return j.stringAt "result"

/-- `enforcePagePolicy`. -/
def enforcePagePolicy (targetId : String) (allowedOrigins : List String) (what : String) :
    Flow String := do
  let href ← getCurrentPageUrl env targetId
  if href = "" then return href
  else
    let _ ← orMessage (assertUrlAllowed env href allowedOrigins what)
    let _ ← orMessage (refuseLogin env href)
    return href

end Policy

/-- What a step looks for in a snapshot. -/
structure RefMatch where
  role : Option String
  name : Option String
  text : Option String

/-- A step of a flow; a field that is not of the type the code tests for is `none`. -/
structure FlowStep where
  /-- `String(step.op ?? step.action ?? "")`. -/
  op : String
  url : Option String
  /-- The text of the clamped number, when `ms` is a number or a string. -/
  ms : Option String
  selector : Option String
  text : Option String
  ref : Option String
  role : Option String
  name : Option String
  value : Option String
  valueEnv : Option String
  key : Option String
  label : Option String
  kind : Option String
  attributeName : Option String
  fn : Option String
  fullPage : Bool

/-- A string that is there and not empty. -/
def given (s : Option String) : Option String := s.filter (· ≠ "")

/-- The text with `\r\n` made `\n`. -/
def unixLines : List Char → List Char
  | '\r' :: '\n' :: cs => '\n' :: unixLines cs
  | c :: cs => c :: unixLines cs
  | [] => []

section Refs

variable (env : WorkerEnv)

/-- The first `[ref=...]` of a line, whatever its case. -/
def refIn : List Char → Option String
  | [] => none
  | c :: cs =>
      let body := cs.drop 4
      let ref := body.takeWhile (· ≠ ']')
      if c = '[' ∧ env.toLowerCase (String.ofList (cs.take 4)) = "ref=" ∧ ref ≠ [] ∧
          ref.length < body.length then some (String.ofList ref)
      else refIn cs

/-- A line of a snapshot that fits the match. -/
def fitsMatch (m : RefMatch) (line : String) : Bool :=
  let role := env.toLowerCase (trimmed (m.role.getD ""))
  let name := trimmed (m.name.getD "")
  let containsText := trimmed (m.text.getD "")
  includes line "[ref=" &&
    (decide (role = "") || includes (env.toLowerCase line) ("- " ++ role)) &&
    (decide (name = "") || includes line ("\"" ++ name ++ "\"")) &&
    (decide (containsText = "") ||
      includes (env.toLowerCase line) (env.toLowerCase containsText))

/-- `findRefInRoleSnapshot`. -/
def findRefInRoleSnapshot (snapshotText : String) (m : RefMatch) : Option String :=
  let lines := ((unixLines snapshotText.toList).splitOn '\n').map String.ofList
  (lines.filter (fitsMatch env m)).findSome? fun line => (refIn env line.toList).map trimmed

/-- `resolveRefViaSnapshot`. -/
def resolveRefViaSnapshot (targetId : String) (m : RefMatch) : Flow (Option String) := do
  let stdout ← runOpenClaw (.snapshot env.snapshotPath targetId)
  let j ← orMessage (parseJsonFromStdout env stdout)
  let out := trimmed (j.textAt "out" env.snapshotPath)
  let text ← doFlow (.readText (if out = "" then env.snapshotPath else out))
  return findRefInRoleSnapshot env (← orMessage text) m

/-- The reference a step gives, or the one it describes. -/
def refFor (targetId : String) (step : FlowStep) : Flow (Option String) :=
  if trimmed (step.ref.getD "") ≠ "" then .ret (some (trimmed (step.ref.getD "")))
  else resolveRefViaSnapshot env targetId ⟨step.role, step.name, step.text⟩

/-- The element a step is about. -/
def stepRef (targetId : String) (step : FlowStep) : Flow String := do
  let ref ← refFor env targetId step
  match given ref with
  | some ref => return ref
  | none => throw "ref_not_found"

/-- The characters of the name of a variable a value may come from. -/
def isEnvNameChar (c : Char) : Bool := decide ('A' ≤ c ∧ c ≤ 'Z') || c.isDigit || c == '_'

/-- `isAllowedValueEnv`. -/
def isAllowedValueEnv (name : String) : Bool :=
  let n := trimmed name
  let sensitive := ["token", "secret", "password", "key"].any (includes (env.toLowerCase n))
  decide (n ≠ "" ∧ n.toList.length ≤ 100) && n.toList.all isEnvNameChar && !sensitive &&
    decide (n ∈ env.valueEnvAllowlist)

/-- `pickFillValue`. -/
def pickFillValue (step : FlowStep) : Except String String :=
  match given step.valueEnv with
  | some valueEnv =>
      let name := trimmed valueEnv
      if isAllowedValueEnv env name then
        let raw := (env.processEnv name).getD ""
        .ok (sliced (trimmed (String.ofList
          ((unixLines raw.toList).map fun c => if c = '\n' then ' ' else c))) 1024)
      else .error ("value_env_not_allowed:" ++ name)
  | none => .ok (step.value.getD "")

/-- `redactStepValue`. -/
def redactStepValue (step : FlowStep) : String :=
  match given step.valueEnv, step.value with
  | some name, _ => "<env:" ++ name ++ ">"
  | none, some value => "<inline:" ++ toString (min 80 value.length) ++ " chars>"
  | none, none => "<none>"

end Refs

/-- What a flow works with. -/
structure FlowContext where
  env : WorkerEnv
  startUrl : String
  allowedOrigins : List String
  deadlineMs : Option Nat
  targetId : String

/-- What a flow has collected. -/
structure FlowState where
  artifacts : List StoredArtifact
  extracted : List (String × Json)

/-- Throw when the time budget is used up. -/
def checkDeadline (deadlineMs : Option Nat) : Flow Unit := do
  let now ← doFlow .now
  if deadlineMs.any fun t => decide (t < now) then throw "job_time_budget_exceeded" else return

/-- `detectPngOrJpeg`: the content type and the extension. -/
def detectPngOrJpeg (bytes : List UInt8) : Option (String × String) :=
  if [0x89, 0x50, 0x4e, 0x47, 0x0d, 0x0a, 0x1a, 0x0a] <+: bytes then some ("image/png", "png")
  else if [0xff, 0xd8, 0xff] <+: bytes then some ("image/jpeg", "jpg")
  else none

/-- Where a screenshot says it has been stored. -/
def screenshotPath (env : WorkerEnv) (stdout : String) : String :=
  let fromJson := match parseJsonFromStdout env stdout with
    | .ok j => j.stringAt "path"
    | .error _ => ""
  trimmed (if fromJson = "" then (env.mediaPath stdout).getD "" else fromJson)

/-- Store the screenshot at `outPath` as `filename` under `label`. -/
def storeScreenshot (outPath filename label : String) : Flow StoredArtifact := do
  if outPath = "" then throw "openclaw_browser_screenshot_missing_path"
  else
    let bytes ← orMessage (← doFlow (.readBytes outPath))
    match detectPngOrJpeg bytes with
    | none => throw "screenshot_unknown_format"
    | some (contentType, ext) =>
        let stored ← doFlow
          (.uploadArtifact (filename ++ "." ++ ext) contentType "screenshot" label bytes)
        orMessage stored

/-- Take a screenshot and store it. -/
def takeScreenshot (env : WorkerEnv) (fullPage : Bool) (targetId filename label : String) :
    Flow StoredArtifact := do
  let stdout ← runOpenClaw (.screenshot fullPage targetId)
  storeScreenshot (screenshotPath env stdout) filename label

/-- The function an `extract` step evaluates. -/
def extractFn (env : WorkerEnv) (step : FlowStep) : Except String String :=
  let kindRaw := env.toLowerCase (trimmed (step.kind.getD "text"))
  if kindRaw = "value" then .ok "(el) => (typeof el?.value === \"string\" ? el.value : null)"
  else if kindRaw = "html" then .ok "(el) => el?.innerHTML ?? \"\""
  else if kindRaw = "attribute" then
    let attr := trimmed (step.attributeName.getD "")
    let isFirst := fun c : Char => c.isAlpha || c == '_'
    let isRest := fun c : Char => c.isAlphanum || c == '_' || c == ':' || c == '\\' || c == '-'
    match attr.toList with
    | c :: cs =>
        if isFirst c && cs.all isRest && decide (cs.length ≤ 60) then
          .ok ("(el) => el?.getAttribute?.(\"" ++
            String.ofList ((c :: cs).flatMap fun c => if c = '\\' then ['\\', '\\'] else [c]) ++
            "\") ?? null")
        else .error "invalid_extract_attribute"
    | [] => .error "invalid_extract_attribute"
  else .ok "(el) => el?.textContent ?? \"\""

namespace FlowContext

variable (c : FlowContext)

/-- `enforcePagePolicy` on the page of the flow. -/
def enforce (what : String) : Flow Unit := do
  let _ ← enforcePagePolicy c.env c.targetId c.allowedOrigins what
  return

/-- `goto` and `navigate`. -/
def navigateStep (i : Nat) (op : String) (step : FlowStep) : Flow Unit := do
  let url := (given step.url).getD c.startUrl
  orMessage (checkUrl c.env url c.allowedOrigins ("step_" ++ toString i ++ "_url"))
  pushLog ("step " ++ toString i ++ ": " ++ op ++ " url=" ++ url)
  let _ ← runOpenClaw (.navigate url c.targetId)
  c.enforce ("after_" ++ op ++ "_" ++ toString i)

/-- What a `wait` step waits for; a URL is checked first. -/
def waitFor (i : Nat) (step : FlowStep) : Except String (WaitFor × String) :=
  match step.ms, given step.selector, given step.text, given step.url with
  | some ms, _, _, _ => .ok (.time ms, " ms=" ++ ms)
  | none, some selector, _, _ => .ok (.selector selector, " selector=" ++ selector)
  | none, none, some text, _ => .ok (.text text, " text=" ++ text)
  | none, none, none, some url =>
      (checkUrl c.env url c.allowedOrigins ("step_" ++ toString i ++ "_wait_url")).map fun _ =>
        (.url url, " url=" ++ url)
  | none, none, none, none => .ok (.time "250", " default")

def waitStep (i : Nat) (step : FlowStep) : Flow Unit := do
  let (what, line) ← orMessage (c.waitFor i step)
  pushLog ("step " ++ toString i ++ ": wait" ++ line)
  let _ ← runOpenClaw (.wait what c.targetId)
  c.enforce ("after_wait_" ++ toString i)

def clickStep (i : Nat) (step : FlowStep) : Flow Unit := do
  let ref ← stepRef c.env c.targetId step
  pushLog ("step " ++ toString i ++ ": click ref=" ++ ref)
  let _ ← runOpenClaw (.click ref c.targetId)
  c.enforce ("after_click_" ++ toString i)

/-- `fill` and `type`. -/
def typeStep (i : Nat) (op : String) (step : FlowStep) : Flow Unit := do
  let ref ← stepRef c.env c.targetId step
  let val ← orMessage (pickFillValue c.env step)
  pushLog ("step " ++ toString i ++ ": " ++ op ++ " ref=" ++ ref ++ " value=" ++
    redactStepValue step)
  let _ ← runOpenClaw (.typeText ref val c.targetId)
  return

def pressStep (i : Nat) (step : FlowStep) : Flow Unit := do
  let key := (given step.key).getD "Enter"
  pushLog ("step " ++ toString i ++ ": press key=" ++ key)
  let _ ← runOpenClaw (.press key c.targetId)
  c.enforce ("after_press_" ++ toString i)

def screenshotStep (i : Nat) (step : FlowStep) : Flow StoredArtifact := do
  let label := (given step.label).getD ("flow_screenshot_" ++ toString i)
  pushLog ("step " ++ toString i ++ ": screenshot label=" ++ label ++ " fullPage=" ++
    toString step.fullPage)
  takeScreenshot c.env step.fullPage c.targetId label label

def extractStep (i : Nat) (step : FlowStep) : Flow (String × Json) := do
  let key := (given step.key).getD ("extract_" ++ toString i)
  let ref ← stepRef c.env c.targetId step
  if trimmed (step.fn.getD "") ≠ "" then throw "extract_fn_forbidden"
  else
    let fn ← orMessage (extractFn c.env step)
    pushLog ("step " ++ toString i ++ ": extract key=" ++ key ++ " ref=" ++ ref)
    let stdout ← runOpenClaw (.evaluate fn ref c.targetId)
    let j ← orMessage (parseJsonFromStdout c.env stdout)
    return (key, match j.get? "result" with
      | some (.str s) => .str (sliced s 20000)
      | some v => v
      | none => .null)

/-- The body of the loop. -/
def runStep (i : Nat) (op : String) (step : FlowStep) (st : FlowState) : Flow FlowState := do
  checkDeadline c.deadlineMs
  if op = "goto" ∨ op = "navigate" then
    c.navigateStep i op step
    return st
  else if op = "wait" then
    c.waitStep i step
    return st
  else if op = "click" then
    c.clickStep i step
    return st
  else if op = "fill" ∨ op = "type" then
    c.typeStep i op step
    return st
  else if op = "press" then
    c.pressStep i step
    return st
  else if op = "screenshot" then
    let stored ← c.screenshotStep i step
    return { st with artifacts := st.artifacts ++ [stored] }
  else if op = "extract" then
    let (key, value) ← c.extractStep i step
    return { st with extracted := st.extracted.filter (fun e => e.1 ≠ key) ++ [(key, value)] }
  else
    pushLog ("step " ++ toString i ++ ": unknown op=" ++ op ++ " (ignored)")
    return st

end FlowContext

/-- The errors a flow does not go on after. -/
def isFatal (msg : String) : Bool :=
  decide (msg = "job_time_budget_exceeded") || startsWith msg "origin_" ||
    startsWith msg "no_login_" || startsWith msg "value_env_not_allowed" ||
    decide (msg = "extract_fn_forbidden") || decide (msg = "unsupported_url_scheme") ||
    decide (msg = "url_contains_credentials")

/-- The handler of a step: a policy violation stops the flow. -/
def stepError (i : Nat) (op msg : String) : Flow (Option FlowState) := do
  pushLog ("step " ++ toString i ++ ": ERROR op=" ++ op ++ " err=" ++ sliced msg 500)
  if isFatal msg then throw msg else return none

/-- The loop over the steps. -/
def flowSteps (c : FlowContext) (continueOnError : Bool) :
    Nat → List FlowStep → FlowState → Flow FlowState
  | _, [], st => .ret st
  | i, step :: steps, st =>
      let op := c.env.toLowerCase (trimmed step.op)
      if op = "" then flowSteps c continueOnError (i + 1) steps st
      else
        (((c.runStep i op step st).bind fun st' => .ret (some st')).orElse (stepError i op)).bind
          fun
          | some st' => flowSteps c continueOnError (i + 1) steps st'
          | none =>
              if continueOnError then flowSteps c continueOnError (i + 1) steps st else .ret st

/-- A job, as far as the flow reads it. -/
structure FlowJob where
  /-- `taskDescriptor.input_spec.url`, when it is a string. -/
  descriptorUrl : Option String
  /-- `String(journey.startUrl ?? "")`. -/
  startUrl : String
  /-- `constraints.allowedOrigins`, as texts. -/
  allowedOrigins : List String

/-- `site_profile.browser_flow`. -/
structure BrowserFlow where
  steps : List FlowStep
  /-- `max_steps`, when it is a finite number, rounded down. -/
  maxSteps : Option Int
  /-- `continue_on_error` is not `false`. -/
  continueOnError : Bool

/-- The input of `runOpenClawBrowserFlowModule`; a deadline that is not finite is none. -/
structure FlowInput where
  job : FlowJob
  flow : BrowserFlow
  allowedOrigins : Option (List String)
  deadlineMs : Option Nat

/-- `compileAllowedOrigins`. -/
def compileAllowedOrigins (env : WorkerEnv) (job : FlowJob) : List String :=
  (job.allowedOrigins ++ env.extraAllowedOrigins).filterMap fun o => (urlOriginStrict env o).toOption

/-- The origins a flow may be on. -/
def FlowInput.origins (input : FlowInput) (env : WorkerEnv) : List String :=
  input.allowedOrigins.getD (compileAllowedOrigins env input.job)

/-- The steps of a flow, at most `max_steps` of them. -/
def BrowserFlow.taken (flow : BrowserFlow) : List FlowStep :=
  flow.steps.take (match flow.maxSteps with
    | some n => (max 1 (min 100 n)).toNat
    | none => 50)

/-- `ensureOpenClawBrowserReady`. -/
def ensureOpenClawBrowserReady (env : WorkerEnv) : Flow Unit :=
  if env.browserReady || decide (env.browserProfile = "") then .ret ()
  else do
    let _ ← doFlow (.openclaw (.createProfile env.browserProfile))
    let _ ← (runOpenClaw .start).orElse fun msg =>
      .fail ("openclaw_browser_start_failed:" ++ sliced msg 300)
    return

/-- Run `body` and close the page, whatever happens. -/
def withClose {α : Type} (targetId : String) (body : Flow α) : Flow α :=
  ((body.bind fun a => .ret (Except.ok a)).orElse fun msg => .ret (.error msg)).bind fun r => do
    let _ ← doFlow (.openclaw (.close targetId))
    orMessage r

/-- The steps, and the final screenshot unless there is one of its name. -/
def FlowContext.flowBody (c : FlowContext) (flow : BrowserFlow) : Flow FlowState := do
  c.enforce "after_open"
  let st ← flowSteps c flow.continueOnError 0 flow.taken ⟨[], []⟩
  if st.artifacts.any fun a => decide (a.kind = "screenshot" ∧ a.label = "universal_screenshot") then
    return st
  else
    checkDeadline c.deadlineMs
    let stored ← takeScreenshot c.env true c.targetId "screenshot" "universal_screenshot"
    return { st with artifacts := st.artifacts ++ [stored] }

/-- `runOpenClawBrowserFlowModule`. -/
def runOpenClawBrowserFlowModule (env : WorkerEnv) (input : FlowInput) : Flow FlowState := do
  let startUrl := (given input.job.descriptorUrl).getD input.job.startUrl
  if startUrl = "" then throw "missing_start_url"
  else
    ensureOpenClawBrowserReady env
    checkDeadline input.deadlineMs
    orMessage (checkUrl env startUrl (input.origins env) "start_url")
    pushLog ("start_url: " ++ startUrl)
    let stdout ← runOpenClaw (.openUrl startUrl)
    let j ← orMessage (parseJsonFromStdout env stdout)
    let targetId := trimmed (j.textAt "targetId" "")
    if targetId = "" then throw "openclaw_browser_open_missing_target_id"
    else
      let c : FlowContext := ⟨env, startUrl, input.origins env, input.deadlineMs, targetId⟩
      let st ← withClose targetId (c.flowBody input.flow)
      let stored ← orMessage (← doFlow (.uploadLog st.extracted))
      return { st with artifacts := st.artifacts ++ [stored] }

end OpenUnion
