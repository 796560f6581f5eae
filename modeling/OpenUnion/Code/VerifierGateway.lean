import OpenUnion.Code.Preflight
import OpenUnion.Code.RepoPolicy
import OpenUnion.Code.Scanner
import OpenUnion.Text.Utf8

/-!
# The verifier gateway

`POST /run` judges a submission by the descriptor of its job: the origin of the final URL, the
artifacts the descriptor requires, the content of some of them, and at last a browser run.
`missingRequiredArtifacts` counts the artifacts of each requirement; for the content there are
three loops over the requirements, one for videos, one for timelines and one for structured
JSON, and each looks at the first artifact it takes for a requirement.

`JSON.parse`, `new URL`, `Number`, the downloads and the browser are parameters. An artifact
keeps its bytes, while each download may fail in its own way. The scorecard, the evidence and
the metadata of the answer are left out.
-/

namespace OpenUnion.Gateway

/-- How a download goes, up to its bytes. -/
inductive Transfer where
  | threw (name message : String)
  | response (ok : Bool) (status : ℕ) (contentLength : Option String)

/-- The settings of the gateway, and the functions it rests on. -/
structure GatewayEnv where
  /-- `JSON.parse`, unless it throws. -/
  parseJson : String → Option Json
  /-- `new URL`, unless it throws. -/
  parseUrl : String → Option RouteUrl
  origin_ne_empty : ∀ url u, parseUrl url = some u → u.origin ≠ ""
  /-- `Number(text)`. -/
  number : String → JsNumber
  /-- `Number(value)`, if it is finite. -/
  finiteNumber : Json → Option ℚ
  maxArtifactBytes : JsNumber
  /-- The bytes of an artifact. -/
  contents : String → Storage.Bytes
  /-- How the download with a number goes. -/
  transfer : ℕ → Transfer
  /-- The error of the browser harness at a URL, if it fails. -/
  harness : String → List String → Option String

/-- What `POST /run` reads of its body. -/
structure RunBody where
  taskDescriptor : Option Json
  allowedOrigins : List String
  finalUrl : Option Json
  reproSteps : Option Json
  expected : Option Json
  observed : Option Json
  artifactIndex : Option Json

inductive Verdict where
  | pass
  | fail
  | inconclusive
  deriving DecidableEq

/-- A verdict with its reason. -/
structure Answer where
  verdict : Verdict
  reason : String
  deriving DecidableEq

/-- `asObject`. -/
def asObject : Option Json → Option Json
  | some (.obj fields) => some (.obj fields)
  | _ => none

/-- The elements of a value that is an array. -/
def arrayOf : Option Json → List Json
  | some (.arr elems) => elems
  | _ => []

/-- `getTaskDescriptor`. -/
def getTaskDescriptor (body : RunBody) : Option Json := asObject body.taskDescriptor

/-- `getCapabilityTags`. -/
def getCapabilityTags (td : Option Json) : List String :=
  (arrayOf (td.bind (·.get? "capability_tags"))).filterMap fun
    | .str tag => some tag
    | _ => none

/-- `output_spec.required_artifacts`, if it is an array. -/
def requiredArtifacts (td : Option Json) : List Json :=
  arrayOf ((asObject (td.bind (·.get? "output_spec"))).bind (·.get? "required_artifacts"))

section Requirements

/-- A label is the one asked for and starts as asked; an empty text asks for nothing. -/
def labelFits (label labelPrefix : Option String) (lbl : String) : Bool :=
  label.all (fun l => l == "" || lbl == l) && labelPrefix.all (startsWith lbl)

/-- An artifact has a kind, and its label fits. -/
def artifactMatches (kind : String) (label labelPrefix : Option String) (a : Json) : Bool :=
  a.isObject && a.textAt "kind" "" == kind && labelFits label labelPrefix (a.textAt "label" "")

/-- An artifact is of the kind and the label that a requirement asks for. -/
def answers (r a : Json) : Bool :=
  artifactMatches (r.textAt "kind" "") (r.string? "label") (r.string? "label_prefix") a

variable (env : GatewayEnv)

/-- How many artifacts a requirement asks for. -/
def requiredCount (r : Json) : ℚ :=
  match (r.get? "count").bind env.finiteNumber with
  | some n => max 1 n
  | none => 1

/-- How a requirement reads among the missing ones. -/
def missingText (kind : String) (label labelPrefix : Option String) : String :=
  match label.filter (· ≠ ""), labelPrefix.filter (· ≠ "") with
  | some l, _ => kind ++ ":" ++ l
  | none, some p => kind ++ ":" ++ p ++ "*"
  | none, none => kind

/-- `missingRequiredArtifacts`. -/
def missingRequiredArtifacts (td : Option Json) (artifacts : List Json) : List String :=
  (requiredArtifacts td).filterMap fun item =>
    match (asObject (some item)).bind fun r => (r.string? "kind").filter (· ≠ "") with
    | none => none
    | some kind =>
        let labelPrefix := item.string? "label_prefix"
        let label := item.string? "label"
        let hits := artifacts.filter (artifactMatches kind label labelPrefix)
        if (hits.length : ℚ) < requiredCount env item then some (missingText kind label labelPrefix)
        else none

end Requirements

section Downloads

variable (env : GatewayEnv)

/-- `/^\/api\/artifacts\/([^/]+)\/download$/` on a path. -/
def artifactIdOfPath (path : String) : Option String :=
  match (path.toList.splitOn '/').map String.ofList with
  | ["", "api", "artifacts", artifactId, "download"] =>
      if artifactId = "" then none else some artifactId
  | _ => none

/-- `extractArtifactIdFromUrl`. -/
def extractArtifactIdFromUrl (url : String) : Option String :=
  match env.parseUrl url with
  | some u => artifactIdOfPath u.pathname
  | none => artifactIdOfPath url

/-- `n > VERIFIER_MAX_ARTIFACT_BYTES`. -/
def tooLarge (n : ℚ) : Bool :=
  match env.maxArtifactBytes with
  | .nan => false
  | .infinite negative => negative
  | .finite limit => decide (limit < n)

/-- The length in the header is a number that is too large. -/
def lengthTooLarge (contentLength : Option String) : Bool :=
  match (contentLength.filter (· ≠ "")).map env.number with
  | some (.finite n) => tooLarge env n
  | _ => false

/-- `downloadArtifactBytes`, the download with the number `n`. -/
def downloadArtifactBytes (n : ℕ) (artifactId : String) : Except String Storage.Bytes :=
  match env.transfer n with
  | .threw name message =>
      .error (if includes name "Abort" then "artifact_download_timeout" else message)
  | .response ok status contentLength =>
      if !ok then .error ("artifact_download_failed:" ++ toString status)
      else if lengthTooLarge env contentLength then .error "artifact_too_large"
      else if tooLarge env (env.contents artifactId).length then .error "artifact_too_large"
      else .ok (env.contents artifactId)

end Downloads

section Contents

variable (env : GatewayEnv)

/-- `sniffMp4`; `ascii` drops the highest bit of a byte. -/
def sniffMp4 (bytes : Storage.Bytes) : Bool :=
  decide (12 ≤ bytes.length) &&
    ((bytes.drop 4).take 4).map (fun b => b &&& 0x7f) == [0x66, 0x74, 0x79, 0x70]

/-- `parseJsonBytes`, unless it throws. -/
def parseJsonBytes (bytes : Storage.Bytes) : Option Json :=
  env.parseJson (String.ofList (Text.decode bytes))

/-- The error of the first element that has one. -/
def firstError {α : Type} (check : α → Option String) : List α → Option String
  | [] => none
  | x :: xs => (check x).or (firstError check xs)

/-- `ensureJsonArray`. -/
def ensureJsonArray (parsed : Json) (key : String) (minItems : ℕ) (itemKeys : List String) :
    Option String :=
  match parsed.get? key with
  | some (.arr arr) =>
      if arr.length < minItems then some ("json_" ++ key ++ "_too_small")
      else if itemKeys = [] then none
      else firstError (fun item =>
        if !item.isObject then some ("json_" ++ key ++ "_item_not_object")
        else firstError (fun k =>
          if item.textAt k "" = "" then some ("json_" ++ key ++ "_item_missing_" ++ k) else none)
          itemKeys) arr
  | _ => some ("json_missing_" ++ key)

/-- A clip has bounds, and ends after it starts. -/
def clipBoundsOk (c : Json) : Bool :=
  match (c.get? "start_sec").bind env.finiteNumber, (c.get? "end_sec").bind env.finiteNumber with
  | some start, some stop => decide (0 ≤ start ∧ start < stop)
  | _, _ => false

/-- What is wrong with the bytes of a video. -/
def videoError (bytes : Storage.Bytes) : Option String :=
  if sniffMp4 bytes then none else some "video_artifact_invalid_mp4"

/-- What is wrong with the bytes of a timeline. -/
def timelineError (bytes : Storage.Bytes) : Option String :=
  match parseJsonBytes env bytes with
  | none => some "timeline_artifact_invalid_json"
  | some parsed =>
      let clips := parsed.elemsAt "clips"
      if clips.length < 1 then some "timeline_artifact_missing_clips"
      else if clips.all (clipBoundsOk env) then none
      else some "timeline_artifact_invalid_clip_bounds"

/-- What is wrong with the value of an ingest. -/
def ingestError (parsed : Json) : Option String :=
  if parsed.textAt "schema" "" ≠ "github_ingest.v1" then some "ingest_artifact_invalid_schema"
  else
    let fetched := match (parsed.get? "fetched_events").filter fun v => !v.isNull with
      | none => some 0
      | some v => env.finiteNumber v
    if !fetched.any (fun n => decide (1 ≤ n)) then some "ingest_artifact_missing_events"
    else match asObject (parsed.get? "ingest") with
      | none => some "ingest_artifact_missing_ingest"
      | some ingest =>
          match ingest.get? "ok" with
          | some (.bool true) => none
          | _ => some "ingest_artifact_ingest_not_ok"

/-- What is wrong with the bytes of structured JSON, by the prefix of its requirement. -/
def structuredError (labelPrefix : String) (bytes : Storage.Bytes) : Option String :=
  match parseJsonBytes env bytes with
  | none => some (labelPrefix ++ "_artifact_invalid_json")
  | some parsed =>
      if labelPrefix = "results" then
        (ensureJsonArray parsed "items" 1 ["url"]).map ("results_artifact_" ++ ·)
      else if labelPrefix = "deals" then
        (ensureJsonArray parsed "deals" 1 ["url"]).map ("deals_artifact_" ++ ·)
      else if labelPrefix = "rows" then
        (ensureJsonArray parsed "rows" 1 ["title", "url"]).map ("rows_artifact_" ++ ·)
      else if labelPrefix = "repos" then
        (ensureJsonArray parsed "repos" 1 ["name", "url", "license"]).map ("repos_artifact_" ++ ·)
      else if labelPrefix = "references" then
        (ensureJsonArray parsed "references" 1 ["id", "url"]).map ("references_artifact_" ++ ·)
      else if labelPrefix = "ingest" then ingestError env parsed
      else none

/-- A loop over the requirements: which it is for, which artifacts it takes for one, what it
calls them, and what is wrong with the bytes of one. -/
structure ContentLoop where
  isFor : Json → Bool
  takes : Json → Json → Bool
  noun : Json → String
  contentError : Json → Storage.Bytes → Option String

/-- The loop for videos. -/
def videoLoop : ContentLoop where
  isFor r := (asObject (some r)).any fun o => o.string? "kind" == some "video"
  takes r := artifactMatches "video" (r.string? "label") (r.string? "label_prefix")
  noun _ := "video"
  contentError _ := videoError

/-- The loop for timelines. -/
def timelineLoop : ContentLoop where
  isFor r := (asObject (some r)).any fun o =>
    o.textAt "kind" "" == "other" && startsWith (o.stringAt "label_prefix") "timeline"
  takes r := artifactMatches "other" (r.string? "label") (r.string? "label_prefix")
  noun _ := "timeline"
  contentError _ := timelineError env

/-- The loop for structured JSON, which does not look at `label`. -/
def jsonOtherLoop : ContentLoop where
  isFor r := (asObject (some r)).any fun o =>
    o.textAt "kind" "" == "other" &&
      ["results", "deals", "rows", "repos", "references", "ingest"].contains
        (o.stringAt "label_prefix")
  takes r := artifactMatches "other" none (r.string? "label_prefix")
  noun r := r.stringAt "label_prefix"
  contentError r := structuredError env (r.stringAt "label_prefix")

/-- The loops, in their order. -/
def contentLoops : List ContentLoop := [videoLoop, timelineLoop env, jsonOtherLoop env]

/-- What a loop answers at a requirement, whose download has the number `n`. -/
def ContentLoop.refusal (loop : ContentLoop) (artifacts : List Json) (n : ℕ) (r : Json) :
    Option Answer :=
  match artifacts.find? (loop.takes r) with
  | none => none
  | some a =>
      match extractArtifactIdFromUrl env (a.textAt "url" "") with
      | none => some ⟨.fail, loop.noun r ++ "_artifact_missing_internal_id"⟩
      | some artifactId =>
          match downloadArtifactBytes env n artifactId with
          | .error error => some ⟨.inconclusive, error⟩
          | .ok bytes => (loop.contentError r bytes).map (⟨.fail, ·⟩)

/-- What a loop answers at the first requirement it refuses. -/
def ContentLoop.run (loop : ContentLoop) (artifacts : List Json) : ℕ → List Json → Option Answer
  | _, [] => none
  | n, r :: rs => (loop.refusal env artifacts n r).or (loop.run artifacts (n + 1) rs)

/-- The loops one after the other, over all requirements. -/
def runLoops (artifacts req : List Json) : ℕ → List ContentLoop → Option Answer
  | _, [] => none
  | n, loop :: loops =>
      let reqs := req.filter loop.isFor
      (loop.run env artifacts n reqs).or (runLoops artifacts req (n + reqs.length) loops)

/-- `validateDescriptorBoundArtifacts`, unless it is content. -/
def validateDescriptorBoundArtifacts (td : Option Json) (artifacts : List Json) : Option Answer :=
  runLoops env artifacts (requiredArtifacts td) 0 (contentLoops env)

end Contents

section Run

variable (env : GatewayEnv) (body : RunBody)

/-- `finalUrl`, if it is a string. -/
def finalUrlText : Option String :=
  match body.finalUrl with
  | some (.str url) => some url
  | _ => none

/-- The origin of `finalUrl`, if it has one. -/
def finalOrigin : Option String := ((finalUrlText body).bind env.parseUrl).map RouteUrl.origin

/-- A string of at least five characters. -/
def isFilled : Option Json → Bool
  | some (.str s) => decide (5 ≤ Storage.utf16Length s)
  | _ => false

/-- The manifest and the artifacts look complete. -/
def looksComplete : Bool :=
  isFilled body.observed && isFilled body.expected && !(arrayOf body.reproSteps).isEmpty &&
    !(arrayOf body.artifactIndex).isEmpty

/-- The answer of a submission that nothing speaks against. -/
def manifestAnswer : Answer :=
  if looksComplete body then ⟨.pass, "manifest + artifacts look complete"⟩
  else ⟨.inconclusive, "insufficient evidence to deterministically verify"⟩

/-- The browser may be used for the task. -/
def usesBrowser : Bool :=
  let tags := getCapabilityTags (getTaskDescriptor body)
  (getTaskDescriptor body).isNone || tags == [] || tags.contains "browser"

/-- `POST /run`. -/
def postRun : Answer :=
  let td := getTaskDescriptor body
  let artifacts := arrayOf body.artifactIndex
  if (finalOrigin env body).any fun o =>
      o != "" && body.allowedOrigins != [] && !body.allowedOrigins.contains o then
    ⟨.fail, "finalUrl origin not allowed"⟩
  else
    let missing := missingRequiredArtifacts env td artifacts
    if missing != [] then
      ⟨.fail, "missing_required_artifacts:" ++ String.intercalate "," missing⟩
    else match validateDescriptorBoundArtifacts env td artifacts with
      | some answer => answer
      | none =>
          match (finalUrlText body).filter fun _ => usesBrowser body with
          | none => manifestAnswer body
          | some url =>
              match env.harness url body.allowedOrigins with
              | some error => ⟨.inconclusive, "playwright_failed:" ++ error⟩
              | none => manifestAnswer body

end Run

end OpenUnion.Gateway
