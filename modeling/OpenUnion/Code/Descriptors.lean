import OpenUnion.Code.Json
import Mathlib.Algebra.Order.Ring.Rat

/-!
# Task descriptors of bounties and apps

The requests that store a descriptor: `POST /api/bounties`, which fills in the start URL and
the selectors of the marketplace app from the templates of an origin, and the creation and
the patch of an org app.

`Catalog` is what the routes read of the database, and a route returns the descriptor it
stores.  A descriptor that has passed the schema is a `Descriptor`; the schema library itself
and `new URL` are parameters.
-/

namespace OpenUnion

/-- What `taskDescriptorSchema` returns; `schema_version` is always `v1`. -/
structure Descriptor where
  type : String
  capabilityTags : List String
  inputSpec : List (String × Json)
  outputSpec : List (String × Json)
  freshnessSlaSec : Option Nat
  siteProfile : Option (List (String × Json))

/-- The members of a descriptor, in the order the schema prints them. -/
def Descriptor.members (d : Descriptor) : List (String × Json) :=
  [("schema_version", .str "v1"), ("type", .str d.type),
    ("capability_tags", .arr (d.capabilityTags.map .str)), ("input_spec", .obj d.inputSpec),
    ("output_spec", .obj d.outputSpec)] ++
  (match d.freshnessSlaSec with
    | some n => [("freshness_sla_sec", .num (toString n))]
    | none => []) ++
  (match d.siteProfile with
    | some fields => [("site_profile", .obj fields)]
    | none => [])

/-- The stored value. -/
def Descriptor.toJson (d : Descriptor) : Json := .obj d.members

/-- A URL, as far as the route reads it. -/
structure RouteUrl where
  protocol : String
  username : String
  password : String
  origin : String
  pathname : String

/-- The settings of the server, and the functions it rests on. -/
structure RouteEnv where
  maxBytes : Nat
  maxDepth : Nat
  taskDescriptorEnabled : Bool
  browserFlowValidationGate : Bool
  browserFlowAllowValueEnv : Bool
  production : Bool
  minPayoutCents : ℚ
  minPayoutText : String
  /-- `taskDescriptorSchema.safeParse`, or the message of its error. -/
  safeParse : Json → Except String Descriptor
  /-- `new URL`, unless it throws. -/
  parseUrl : String → Option RouteUrl
  encodeURIComponent : String → String
  toLowerCase : String → String
  /-- A text of small letters and underscores is in lower case already. -/
  toLowerCase_lower : ∀ s : String, (s.toList.all fun c => c.isLower || c == '_') = true →
    toLowerCase s = s
  /-- `Number(value)`, if it is finite. -/
  finiteNumber : Json → Option ℚ

/-- `apps`, with the supported origins merged into the public ones. -/
structure CatalogApp where
  ownerOrgId : String
  disabled : Bool
  publicAllowedOrigins : List String

/-- `marketplace_origin_templates`. -/
structure MarketplaceTemplate where
  origin : String
  enabled : Bool
  searchUrlTemplate : Option String
  waitSelector : Option String
  selectorsJson : Json

/-- What the routes read of the database. -/
structure Catalog where
  appByTaskType : String → Option CatalogApp
  originAllowed : String → String → Bool
  /-- The host of a URL, if it is blocked. -/
  blockedHost : String → Option String
  /-- In the order of their origins. -/
  templates : List MarketplaceTemplate

/-- An error answer. -/
structure ApiError where
  status : Nat
  code : String
  message : String
  deriving DecidableEq

/-- The answer of a route. -/
abbrev Answer := Except ApiError

/-- Answer with an error unless `ok`. -/
def replyUnless (ok : Bool) (status : Nat) (code message : String) : Answer Unit :=
  if ok then .ok () else .error ⟨status, code, message⟩

section Checks

variable (env : RouteEnv)

/-- A key that `hasSensitiveKeys` refuses. -/
def isSensitiveKey (key : String) : Bool :=
  ["token", "secret", "password"].any (includes (env.toLowerCase key))

mutual

/-- `hasSensitiveKeys`: also of a value that is nested too deep. -/
def hasSensitiveKeys : Json → Nat → Bool
  | .arr elems, depth => decide (env.maxDepth < depth) || elemsSensitive elems (depth + 1)
  | .obj fields, depth => decide (env.maxDepth < depth) || fieldsSensitive fields (depth + 1)
  | .null, depth | .bool _, depth | .num _, depth | .str _, depth => decide (env.maxDepth < depth)

def elemsSensitive : List Json → Nat → Bool
  | [], _ => false
  | j :: js, depth => hasSensitiveKeys j depth || elemsSensitive js depth

def fieldsSensitive : List (String × Json) → Nat → Bool
  | [], _ => false
  | (k, v) :: rest, depth =>
      isSensitiveKey env k || hasSensitiveKeys v depth || fieldsSensitive rest depth

end

/-- The checks of a parsed descriptor; `what` names it in the messages. -/
def checkDescriptor (what : String) (d : Descriptor) : Answer Unit := do
  replyUnless (decide (d.toJson.byteLength ≤ env.maxBytes)) 400 "task_descriptor_too_large"
    (what ++ " exceeds " ++ toString env.maxBytes ++ " bytes")
  replyUnless (!hasSensitiveKeys env d.toJson 0) 400 "task_descriptor_sensitive"
    (what ++ " contains sensitive keys")

/-- Parse a descriptor of a request. -/
def parseDescriptor (raw : Json) : Answer Descriptor := do
  replyUnless env.taskDescriptorEnabled 409 "feature_disabled" "task_descriptor is disabled"
  match env.safeParse raw with
  | .error message => .error ⟨400, "invalid_task_descriptor", message⟩
  | .ok d => .ok d

/-- `normalizeOrigin`. -/
def normalizeOrigin (input : String) : Except String String :=
  match env.parseUrl input with
  | none => .error "Invalid URL"
  | some u =>
      if u.username ≠ "" ∨ u.password ≠ "" then .error "invalid_origin"
      else if u.protocol ≠ "http:" ∧ u.protocol ≠ "https:" then .error "invalid_origin"
      else if env.production ∧ u.protocol ≠ "https:" then .error "https_required"
      else .ok u.origin

/-- An error nothing catches. -/
def orInternal {α : Type} : Except String α → Answer α
  | .ok a => .ok a
  | .error message => .error ⟨500, "internal", message⟩

end Checks

section BrowserFlowGate

variable (env : RouteEnv)

/-- The value of a member, unless it is missing or null. -/
def Json.present (j : Json) (key : String) : Option Json := (j.get? key).filter fun v => !v.isNull

/-- What the gate finds wrong with a step. -/
def browserFlowStepError (step : Json) : Option String :=
  let op := env.toLowerCase (trimmed (step.textAt "op" (step.textAt "action" "")))
  let envName := trimmed (step.textAt "value_env" "")
  let lower := env.toLowerCase envName
  let isObject := match step with
    | .obj _ | .arr _ => true
    | _ => false
  if !isObject then some "not_object"
  else if op = "" then some "missing_op"
  else if op ∉ ["goto", "navigate", "wait", "click", "fill", "type", "press", "screenshot",
      "extract"] then some ("op_not_allowed:" ++ op)
  else if (step.get? "fn").isSome then some "fn_forbidden"
  else if envName ≠ "" ∧ !env.browserFlowAllowValueEnv then some "value_env_forbidden"
  else if envName ≠ "" ∧ ["token", "secret", "password", "key"].any (includes lower) then
    some "value_env_sensitive"
  else if envName ≠ "" ∧ ¬ (envName.toList.length ≤ 100 ∧ envName.toList.all fun c =>
      decide ('A' ≤ c ∧ c ≤ 'Z') || c.isDigit || c == '_') then some "value_env_invalid_name"
  else if op = "extract" ∧ trimmed (step.textAt "key" "") = "" then some "extract_missing_key"
  else
    let attr := trimmed (step.stringAt "attribute")
    if op = "extract" ∧ attr ≠ "" ∧ ¬ (attr.toList.length ≤ 80 ∧ attr.toList.all fun c =>
        c.isAlphanum || c == '_' || c == ':' || c == '-') then some "extract_invalid_attribute"
    else none

/-- The first step with an error. -/
def browserFlowStepsError : Nat → List Json → Option String
  | _, [] => none
  | i, step :: steps =>
      match browserFlowStepError env step with
      | some e => some ("browser_flow_step_" ++ toString i ++ "_" ++ e)
      | none => browserFlowStepsError (i + 1) steps

/-- `validateTaskDescriptorBrowserFlow`. -/
def validateTaskDescriptorBrowserFlow (d : Descriptor) : Option String :=
  let sp := Json.obj (d.siteProfile.getD [])
  match (sp.present "browser_flow").or (sp.present "browserFlow") with
  | none => none
  | some bf =>
      match bf.get? "steps" with
      | some (.arr steps) =>
          if 100 < steps.length then some "browser_flow_steps_exceeds_hard_cap"
          else browserFlowStepsError env 0 steps
      | _ => none

end BrowserFlowGate

section Marketplace

variable (env : RouteEnv) (cat : Catalog)

/-- `text.replaceAll(pattern, by)`; `skip` characters of a match are still to pass. -/
def replaceAll (pattern by' : List Char) : Nat → List Char → List Char
  | _, [] => []
  | skip + 1, _ :: cs => replaceAll pattern by' skip cs
  | 0, c :: cs =>
      if pattern <+: c :: cs then by' ++ replaceAll pattern by' (pattern.length - 1) cs
      else c :: replaceAll pattern by' 0 cs

/-- The enabled template of an origin. -/
def Catalog.template (origin : String) : Option MarketplaceTemplate :=
  cat.templates.find? fun t => decide (t.origin = origin) && t.enabled

/-- The search URL template: that of the preferred origin, or the first one. -/
def searchUrlTemplate : Answer String := do
  let preferred ← orInternal (normalizeOrigin env "https://www.ebay.com")
  let tpl := (cat.template preferred).or (cat.templates.find? MarketplaceTemplate.enabled)
  return trimmed ((tpl.bind MarketplaceTemplate.searchUrlTemplate).getD "")

/-- The sites of an input specification. -/
def sitesList (inputSpec : Json) : List String :=
  let lines := fun (s : String) =>
    (((s.toList.splitOn '\n').map String.ofList).map trimmed).filter (· ≠ "")
  match inputSpec.get? "sites" with
  | some (.arr elems) =>
      (elems.map fun j => trimmed (if j.isNull then "" else j.toText)).filter (· ≠ "")
  | some (.str s) => lines s
  | _ => []

/-- The start URL of a marketplace descriptor, and the URL to fill in when it has none but a
query. -/
def marketplaceStartUrl (d : Descriptor) : Answer (String × Option String) := do
  let inputSpec := Json.obj d.inputSpec
  let query := trimmed (inputSpec.stringAt "query")
  let explicitUrl := trimmed (inputSpec.stringAt "url")
  let startUrl := if explicitUrl ≠ "" then explicitUrl else (sitesList inputSpec).head?.getD ""
  if startUrl = "" ∧ query ≠ "" then
    let tpl ← searchUrlTemplate env cat
    if tpl = "" then return ("", none)
    else
      let url := String.ofList (replaceAll "\x7bquery\x7d".toList
        (env.encodeURIComponent query).toList 0 tpl.toList)
      return (url, some url)
  else return (startUrl, none)

/-- Fill in the start URL. -/
def Descriptor.withUrl (d : Descriptor) : Option String → Descriptor
  | some url => { d with inputSpec := Json.setMember d.inputSpec "url" (.str url) }
  | none => d

/-- The selectors the buyer has given. -/
def Descriptor.selectorsProvided (d : Descriptor) : Bool :=
  let sp := Json.obj (d.siteProfile.getD [])
  ["selectors", "price_selector", "stock_selector", "title_selector"].any fun k =>
    (sp.get? k).any Json.truthy

/-- A template has selectors. -/
def MarketplaceTemplate.hasSelectors (t : MarketplaceTemplate) : Bool :=
  match t.selectorsJson with
  | .obj fields => !fields.isEmpty
  | .arr elems => !elems.isEmpty
  | _ => false

/-- The selectors to fill in for a start URL, with the selector to wait for. -/
def marketplaceSelectors (d : Descriptor) (startUrl : String)
    (allowed publicOrigins : List String) : Answer (Option (Json × String)) :=
  if startUrl = "" then return none
  else
    match env.parseUrl startUrl with
    | none => .error ⟨400, "invalid", "invalid_marketplace_start_url"⟩
    | some u => do
        let startOrigin ← orInternal (normalizeOrigin env u.origin)
        replyUnless (decide (startOrigin ∈ allowed)) 400 "invalid"
          "marketplace_start_url_origin_not_allowed"
        if d.selectorsProvided then return none
        else
          let tmpl := (cat.template startOrigin).filter MarketplaceTemplate.hasSelectors
          replyUnless (decide (startOrigin ∉ publicOrigins) || tmpl.isSome) 400 "invalid"
            "missing_marketplace_template_for_supported_origin"
          return tmpl.map fun t => (t.selectorsJson, t.waitSelector.getD "")

/-- Fill in the selectors. -/
def Descriptor.withSelectors (d : Descriptor) : Option (Json × String) → Descriptor
  | some (selectors, waitSelector) =>
      let fields := Json.setMember (d.siteProfile.getD []) "selectors" selectors
      { d with siteProfile := some (if waitSelector = "" then fields
        else Json.setMember fields "marketplace_wait_selector" (.str waitSelector)) }
  | none => d

/-- The descriptor of a marketplace bounty. -/
def enrichMarketplace (d : Descriptor) (allowed publicOrigins : List String) :
    Answer Descriptor := do
  let (startUrl, url) ← marketplaceStartUrl env cat d
  let selectors ← marketplaceSelectors env cat (d.withUrl url) startUrl allowed publicOrigins
  return (d.withUrl url).withSelectors selectors

/-- The checks of a clips bounty. -/
def checkClips (d : Descriptor) (allowed publicOrigins : List String) : Answer Unit := do
  let vodUrl := (Json.obj d.inputSpec).stringAt "vod_url"
  replyUnless (decide (trimmed vodUrl ≠ "")) 400 "invalid" "missing_vod_url"
  match env.parseUrl vodUrl with
  | none => .error ⟨400, "invalid", "invalid_vod_url"⟩
  | some u =>
      replyUnless (decide (u.protocol = "http:" ∨ u.protocol = "https:")) 400 "invalid"
        "invalid_vod_url_protocol"
      let vodOrigin ← orInternal (normalizeOrigin env u.origin)
      replyUnless (decide (vodOrigin ∈ allowed)) 400 "invalid" "vod_url_origin_not_allowed"
      replyUnless (decide (vodOrigin ∉ publicOrigins) ||
          decide (".mp4".toList <:+ (env.toLowerCase u.pathname).toList)) 400 "invalid"
        "vod_url_must_be_direct_mp4_for_supported_origins"

end Marketplace

section Routes

variable (env : RouteEnv) (cat : Catalog)

/-- The descriptor of a bounty, parsed and checked. -/
def bountyDescriptor (body : Json) : Answer (Option Descriptor) :=
  match (body.present "taskDescriptor").or (body.get? "task_descriptor") with
  | none => return none
  | some raw => do
      let d ← parseDescriptor env raw
      checkDescriptor env "task_descriptor" d
      match if env.browserFlowValidationGate then validateTaskDescriptorBrowserFlow env d
          else none with
      | some e => .error ⟨400, "invalid_task_descriptor", "browser_flow_invalid:" ++ e⟩
      | none => return some d

/-- The app of a descriptor's type, that the organisation may use. -/
def appForType (orgId : String) : Option Descriptor → Answer (Option CatalogApp)
  | none => return none
  | some d =>
      if d.type = "" then return none
      else
        match cat.appByTaskType d.type with
        | none => .error ⟨400, "app_not_registered",
            "taskDescriptor.type is not registered; create an app first"⟩
        | some app => do
            replyUnless (!app.disabled) 409 "app_disabled" "app is disabled"
            replyUnless (decide (app.ownerOrgId = orgId ∨ app.ownerOrgId = "org_system")) 403
              "forbidden" "task type belongs to another org"
            return some app

/-- The public origins of a system app; invalid ones are ignored. -/
def publicOriginsOf : Option CatalogApp → List String
  | some app =>
      if app.ownerOrgId = "org_system" then
        app.publicAllowedOrigins.filterMap fun o => (normalizeOrigin env o).toOption
      else []
  | none => []

/-- The origins of the body. -/
def buyerOriginsOf (raw : List Json) : Answer (List String) :=
  raw.mapM fun o =>
    match normalizeOrigin env o.toText with
    | .ok origin => .ok origin
    | .error _ => .error ⟨400, "invalid", "invalid_allowed_origin:" ++ o.toText⟩

/-- The origins of a body, before they are normalised. -/
def allowedOriginsInput (body : Json) : Answer (List Json) :=
  match (body.present "allowedOrigins").or (body.get? "allowed_origins") with
  | none => return []
  | some (.arr elems) => return elems
  | some _ => .error ⟨400, "invalid", "allowedOrigins must be an array"⟩

/-- A bounty that has passed the checks of its descriptor and its origins. -/
structure AdmittedBounty where
  descriptor : Option Descriptor
  app : Option CatalogApp
  publicOrigins : List String
  allowedOrigins : List String

/-- The checks of `POST /api/bounties` before it looks at system apps. -/
def admitBounty (orgId : String) (body : Json) : Answer AdmittedBounty := do
  replyUnless ((body.get? "title").any Json.truthy && (body.get? "description").any Json.truthy) 400
    "invalid" "title, description required"
  let raw ← allowedOriginsInput body
  let d ← bountyDescriptor env body
  let app ← appForType cat orgId d
  let publicOrigins := publicOriginsOf env app
  let buyerOrigins ← buyerOriginsOf env raw
  replyUnless ((buyerOrigins.filter (· ∉ publicOrigins)).all (cat.originAllowed orgId)) 400
    "origin_not_verified" "allowedOrigins must be verified"
  let allowedOrigins := (buyerOrigins ++ publicOrigins).eraseDups
  replyUnless (!allowedOrigins.isEmpty) 400 "invalid"
    "allowedOrigins required (or use a system app with public origins)"
  return ⟨d, app, publicOrigins, allowedOrigins⟩

/-- What the route does for the tasks of system apps. -/
def AdmittedBounty.enrich (a : AdmittedBounty) : Answer (Option Descriptor) :=
  match a.descriptor, a.app with
  | some d, some app =>
      if app.ownerOrgId = "org_system" then do
        if d.type = "clips_highlights" then checkClips env d a.allowedOrigins a.publicOrigins
        if d.type = "marketplace_drops" then
          some <$> enrichMarketplace env cat d a.allowedOrigins a.publicOrigins
        else return some d
      else return some d
  | d, _ => return d

/-- `assertUrlNotBlocked` of each origin. -/
def assertNotBlocked (origins : List String) : Except String Unit :=
  match origins.findSome? cat.blockedHost with
  | some host => .error ("blocked_domain:" ++ host)
  | none => .ok ()

/-- The answer to what `assertUrlNotBlocked` and `createBounty` throw. -/
def orRefused {α : Type} : Except String α → Answer α
  | .ok a => .ok a
  | .error message =>
      if startsWith message "blocked_domain:" then .error ⟨403, "blocked_domain", message⟩
      else .error ⟨400, "invalid", message⟩

/-- `createBounty`, of which the descriptor is kept: what it stores, unless that is null. -/
def createBounty (allowedOrigins : List String) (d : Option Descriptor) :
    Except String (Option Json) := do
  let origins ← allowedOrigins.mapM (normalizeOrigin env)
  assertNotBlocked cat origins
  return d.map Descriptor.toJson

/-- `POST /api/bounties`. -/
def createBountyRoute (orgId : String) (body : Json) : Answer (Option Json) := do
  let admitted ← admitBounty env cat orgId body
  let d ← admitted.enrich env cat
  orRefused (assertNotBlocked cat admitted.allowedOrigins)
  let payoutCents := env.finiteNumber
    (((body.present "payoutCents").or (body.present "payout_cents")).getD (.num "1000"))
  replyUnless (payoutCents.any (0 < ·)) 400 "invalid" "payoutCents must be > 0"
  replyUnless (!(decide (0 < env.minPayoutCents) && payoutCents.any (· < env.minPayoutCents))) 400
    "min_payout" ("payoutCents must be >= " ++ env.minPayoutText)
  orRefused (createBounty env cat admitted.allowedOrigins d)

/-- `POST /api/org/apps`, with the default descriptor of the body. -/
def createAppRoute (taskType : String) (body : Json) : Answer Json :=
  match body.present "defaultDescriptor" with
  | none => return .obj []
  | some raw => do
      let d ← parseDescriptor env raw
      replyUnless (decide (d.type = trimmed taskType)) 400 "invalid"
        "defaultDescriptor.type must match taskType"
      checkDescriptor env "defaultDescriptor" d
      return d.toJson

/-- The default descriptor of a patch. -/
def patchedDescriptor (body : Json) : Answer (Option Json) :=
  match body.get? "defaultDescriptor" with
  | none => return none
  | some raw => do
      let d ← parseDescriptor env raw
      checkDescriptor env "defaultDescriptor" d
      let taskType := trimmed (body.textAt "taskType" "")
      replyUnless (decide (taskType = "" ∨ d.type = taskType)) 400 "invalid"
        "defaultDescriptor.type must match taskType when both are provided"
      return some d.toJson

/-- `PATCH /api/org/apps/:appId`: the default descriptor to store, if the body has one.  `found`
tells that the organisation has the app. -/
def patchAppRoute (found : Bool) (body : Json) : Answer (Option Json) := do
  let patched ← patchedDescriptor env body
  replyUnless found 404 "not_found" "app not found"
  return patched

/-- A request that may store a descriptor. -/
inductive DescriptorRequest where
  | createBounty (orgId : String) (body : Json)
  | createApp (body : Json)
  | patchApp (found : Bool) (body : Json)

/-- The descriptor that a request stores. -/
def DescriptorRequest.persisted : DescriptorRequest → Option Json
  | .createBounty orgId body => (createBountyRoute env cat orgId body).toOption.join
  | .createApp body => (createAppRoute env (body.textAt "taskType" "") body).toOption
  | .patchApp found body => (patchAppRoute env found body).toOption.join

end Routes

end OpenUnion
