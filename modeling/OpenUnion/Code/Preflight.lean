import Mathlib.Data.Rat.Floor
import OpenUnion.Code.BrowserFlow
import OpenUnion.Code.Descriptors

/-!
# The preflight of the worker

Before the universal worker claims a job it looks through the descriptor of the job, in
`preflightJobOrThrow`: the type, the start URL, each step of the browser flow and the inputs
of a clip.  `flowStep` and `browserFlow` are the same descriptor as
`runOpenClawBrowserFlowModule` reads it after the claim.

`Number` and the text of a number are parameters; the line for the debug log is left out.
-/

namespace OpenUnion

/-- The settings the preflight looks at, and the functions it rests on. -/
structure PreflightEnv extends WorkerEnv where
  allowTaskTypes : List String
  denyTaskTypes : List String
  ffmpegUnhealthy : Bool
  ffmpegMaxDurationSec : ℚ
  /-- `Number(value)`, if it is finite. -/
  finiteNumber : Json → Option ℚ
  /-- `String(Math.max(0, Math.min(60_000, Number(value))))`. -/
  msText : Json → String

/-- A job, as far as the preflight reads it. -/
structure PreflightJob where
  taskDescriptor : Json
  /-- `journey.startUrl`, when it is a string. -/
  journeyUrl : Option String

namespace Json

/-- A member that is a string. -/
def string? (j : Json) (key : String) : Option String :=
  match j.get? key with
  | some (.str s) => some s
  | _ => none

/-- A member of which members are read; `null` has none. -/
def member (j : Json) (key : String) : Json := (j.get? key).getD .null

/-- The elements of a member that is an array. -/
def elemsAt (j : Json) (key : String) : List Json :=
  match j.get? key with
  | some (.arr elems) => elems
  | _ => []

/-- `typeof value === "object"`, of a value that counts as true. -/
def isObject : Json → Bool
  | .obj _ | .arr _ => true
  | _ => false

end Json

/-- `getBrowserFlowSpec`. -/
def getBrowserFlowSpec (taskDescriptor : Json) : Option Json :=
  let sp := taskDescriptor.member "site_profile"
  if sp.isObject then
    ((sp.present "browser_flow").or (sp.present "browserFlow")).filter Json.isObject
  else none

/-- The operation of a step, as it is written. -/
def stepOpText (step : Json) : String := step.textAt "op" (step.textAt "action" "")

section Flow

variable (env : PreflightEnv)

/-- The bound on the steps of a flow that are taken. -/
def maxSteps (flow : Json) : ℚ :=
  match (flow.get? "max_steps").bind env.finiteNumber with
  | some n => max 1 (min 100 n)
  | none => 50

/-- The steps `normalizeBrowserFlowSteps` takes. -/
def normalizeBrowserFlowSteps (flow : Json) : List Json :=
  (flow.elemsAt "steps").take ⌊maxSteps env flow⌋.toNat

/-- A step, as the module reads it. -/
def flowStep (step : Json) : FlowStep where
  op := stepOpText step
  url := step.string? "url"
  ms := match step.get? "ms" with
    | some (.num text) => some (env.msText (.num text))
    | some (.str text) => some (env.msText (.str text))
    | _ => none
  selector := step.string? "selector"
  text := step.string? "text"
  ref := step.string? "ref"
  role := step.string? "role"
  name := step.string? "name"
  value := step.string? "value"
  valueEnv := step.string? "value_env"
  key := step.string? "key"
  label := step.string? "label"
  kind := (step.present "kind").map Json.toText
  attributeName := step.string? "attribute"
  fn := step.string? "fn"
  fullPage := [step.get? "full_page", step.get? "fullPage"].any fun
    | some (.bool b) => b
    | _ => false

/-- A flow, as the module reads it. -/
def browserFlow (flow : Json) : BrowserFlow where
  steps := (flow.elemsAt "steps").map (flowStep env)
  maxSteps := ((flow.get? "max_steps").bind env.finiteNumber).map Int.floor
  continueOnError := match flow.get? "continue_on_error" with
    | some (.bool b) => b
    | _ => true

end Flow

/-- The names of attributes an `extract` step may ask for. -/
def isAttributeName (attr : String) : Bool :=
  match attr.toList with
  | c :: cs =>
      (c.isAlpha || c == '_') &&
        cs.all (fun c => c.isAlphanum || c == '_' || c == ':' || c == '\\' || c == '-') &&
        decide (cs.length ≤ 60)
  | [] => false

/-- `stepFieldText`. -/
def stepFieldText (step : Json) : String :=
  " ".intercalate (["selector", "text", "role", "name", "label"].filterMap fun key =>
    given (step.string? key))

section Preflight

variable (env : PreflightEnv)

/-- `typeAllowedByWorkerPolicy`. -/
def typeAllowedByWorkerPolicy (taskType : String) : Bool :=
  if taskType ∈ env.denyTaskTypes then false
  else if env.allowTaskTypes ≠ [] then decide (taskType ∈ env.allowTaskTypes)
  else true

/-- `getStartUrlFromJob`. -/
def getStartUrlFromJob (job : PreflightJob) : String :=
  let descriptorUrl := trimmed ((job.taskDescriptor.member "input_spec").stringAt "url")
  if descriptorUrl ≠ "" then descriptorUrl else trimmed (job.journeyUrl.getD "")

/-- `parseCapabilityTags`. -/
def parseCapabilityTags (job : PreflightJob) : List String :=
  let tags := (job.taskDescriptor.elemsAt "capability_tags").filterMap fun
    | .str tag => given (some (trimmed tag))
    | _ => none
  if tags ≠ [] then tags else ["browser"]

/-- The operation of a step. -/
def stepOp (step : Json) : String := env.toLowerCase (trimmed (stepOpText step))

/-- The points of a URL whose origin the worker keeps away from. -/
def originScore (allowedOrigins : List String) (origin : String) : Nat :=
  (if originAllowedByWorkerPolicy env.toWorkerEnv origin then 0 else 5) +
    if env.strict ∧ allowedOrigins ≠ [] ∧ origin ∉ allowedOrigins then 5 else 0

/-- The points of a step. -/
def stepScore (allowedOrigins : List String) (step : Json) : Nat :=
  let op := stepOp env step
  let url := trimmed (step.stringAt "url")
  let fields := stepFieldText step
  let asksFor := fun texts : List String => texts.any (includes (env.toLowerCase fields))
  let looksLikeLogin := looksLikeLoginText env.toWorkerEnv
  let urlPoints :=
    if (op = "navigate" ∨ op = "goto") ∧ url ≠ "" then
      (if looksLikeLogin url then 2 else 0) +
        match urlOriginStrict env.toWorkerEnv url with
        | .ok origin => originScore env allowedOrigins origin
        | .error _ => 2
    else 0
  let clickPoints := if op = "click" ∧ looksLikeLogin fields then 2 else 0
  let valueEnv := trimmed (step.stringAt "value_env")
  let fillPoints :=
    if op = "fill" ∨ op = "type" then
      (if asksFor ["password", "passcode"] then 5 else 0) +
      (if asksFor ["otp", "2fa", "mfa", "verification code"] then 5 else 0) +
      (if asksFor ["continue with google", "continue with apple", "continue with"] then 5 else 0) +
      (if asksFor ["email", "e-mail", "username", "user name"] then 1 else 0) +
      (if valueEnv ≠ "" ∧ ¬ isAllowedValueEnv env.toWorkerEnv valueEnv then 5 else 0)
    else 0
  let extractPoints := if op = "extract" ∧ trimmed (step.stringAt "fn") ≠ "" then 10 else 0
  if op = "" then 0 else urlPoints + clickPoints + fillPoints + extractPoints

/-- `noLoginPreflightScore`. -/
def noLoginPreflightScore (job : PreflightJob) (allowedOrigins : List String) : Nat :=
  let startUrl := getStartUrlFromJob job
  (if looksLikeLoginText env.toWorkerEnv startUrl then 2 else 0) +
    (match urlOriginStrict env.toWorkerEnv startUrl with
      | .ok origin => originScore env allowedOrigins origin
      | .error _ => 0) +
    (match getBrowserFlowSpec job.taskDescriptor with
      | some flow => ((flow.elemsAt "steps").map (stepScore env allowedOrigins)).sum
      | none => 0)

/-- Throw the message unless `ok`. -/
def throwUnless (ok : Bool) (message : String) : Except String Unit :=
  if ok then .ok () else .error message

/-- A check that is made only if `P` holds. -/
def checkIf (P : Prop) [Decidable P] (check : Except String Unit) : Except String Unit :=
  if P then check else .ok ()

/-- The URL of a step, if it has one. -/
def preflightUrl (allowedOrigins : List String) (step : Json) (what : String) :
    Except String Unit :=
  let url := trimmed (step.stringAt "url")
  if url = "" then .ok () else checkUrl env.toWorkerEnv url allowedOrigins what

/-- An `extract` step. -/
def preflightExtract (step : Json) : Except String Unit := do
  throwUnless (decide (trimmed (step.stringAt "fn") = "")) "extract_fn_forbidden"
  let kindRaw := env.toLowerCase (trimmed (step.textAt "kind" "text"))
  throwUnless (decide (kindRaw ≠ "attribute") || isAttributeName (trimmed (step.stringAt "attribute")))
    "invalid_extract_attribute"

/-- The variable a `fill` or `type` step takes its value from. -/
def preflightValueEnv (step : Json) : Except String Unit :=
  let name := trimmed (step.stringAt "value_env")
  throwUnless (decide (name = "") || isAllowedValueEnv env.toWorkerEnv name)
    ("value_env_not_allowed:" ++ name)

/-- The body of the loop over the steps. -/
def preflightStep (allowedOrigins : List String) (i : Nat) (step : Json) : Except String Unit :=
  let op := stepOp env step
  let fields := stepFieldText step
  if op = "" then .ok ()
  else do
    checkIf (op = "navigate" ∨ op = "goto")
      (preflightUrl env allowedOrigins step ("step_" ++ toString i ++ "_url"))
    checkIf (op = "wait")
      (preflightUrl env allowedOrigins step ("step_" ++ toString i ++ "_wait_url"))
    checkIf (op = "extract") (preflightExtract env step)
    checkIf (op = "fill" ∨ op = "type") (preflightValueEnv env step)
    throwUnless
      (!(env.noLogin && decide (op = "click" ∨ op = "fill" ∨ op = "type") &&
        looksLikeLoginText env.toWorkerEnv fields))
      ("no_login_blocked_step:" ++ op ++ ":" ++ sliced fields 120)

/-- The loop over the steps. -/
def preflightSteps (allowedOrigins : List String) : Nat → List Json → Except String Unit
  | _, [] => .ok ()
  | i, step :: steps => do
      preflightStep env allowedOrigins i step
      preflightSteps allowedOrigins (i + 1) steps

/-- The browser flow of a job. -/
def preflightFlow (allowedOrigins : List String) : Option Json → Except String Unit
  | none => .ok ()
  | some flow => do
      throwUnless (decide ((flow.elemsAt "steps").length ≤ 100))
        "browser_flow_steps_exceeds_hard_cap"
      preflightSteps env allowedOrigins 0 (normalizeBrowserFlowSteps env flow)

/-- `Number(value ?? fallback)`, if it is finite. -/
def numberAt (j : Json) (key : String) (fallback : ℚ) : Option ℚ :=
  match j.present key with
  | some v => env.finiteNumber v
  | none => some fallback

/-- The inputs of a clip. -/
def preflightClip (job : PreflightJob) (allowedOrigins : List String) : Except String Unit := do
  let inputSpec := job.taskDescriptor.member "input_spec"
  let vodUrl := inputSpec.stringAt "vod_url"
  throwUnless (!env.ffmpegUnhealthy) "ffmpeg_unavailable"
  throwUnless (decide (trimmed vodUrl ≠ "")) "missing_vod_url"
  checkUrl env.toWorkerEnv vodUrl allowedOrigins "vod_url"
  throwUnless ((numberAt env inputSpec "start_sec" 0).any fun n => decide (0 ≤ n))
    "invalid_start_sec"
  throwUnless ((numberAt env inputSpec "duration_sec" 10).any fun n =>
    decide (0 < n ∧ n ≤ min 600 env.ffmpegMaxDurationSec)) "invalid_duration_sec"

/-- A clip is wanted of the job. -/
def wantsFfmpeg (job : PreflightJob) : Bool :=
  decide ("ffmpeg" ∈ parseCapabilityTags job) ||
    ((job.taskDescriptor.member "output_spec").elemsAt "required_artifacts").any fun r =>
      r.isObject && decide (r.textAt "kind" "" = "video")

/-- `preflightJobOrThrow`. -/
def preflightJobOrThrow (job : PreflightJob) (allowedOrigins : List String) :
    Except String Unit := do
  let type := job.taskDescriptor.stringAt "type"
  let startUrl := getStartUrlFromJob job
  throwUnless (decide (type = "") || typeAllowedByWorkerPolicy env type)
    ("task_type_blocked:" ++ type)
  throwUnless (decide (startUrl ≠ "")) "missing_start_url"
  checkUrl env.toWorkerEnv startUrl allowedOrigins "start_url"
  preflightFlow env allowedOrigins (getBrowserFlowSpec job.taskDescriptor)
  checkIf (wantsFfmpeg job) (preflightClip env job allowedOrigins)
  let score := noLoginPreflightScore env job allowedOrigins
  throwUnless (!env.noLogin || decide (score < 8))
    ("no_login_blocked_preflight(score=" ++ toString score ++ ")")

end Preflight

end OpenUnion
