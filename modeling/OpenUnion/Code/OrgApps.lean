import OpenUnion.Code.Descriptors

/-!
# The apps of organisations

`POST /api/org/apps` and `PATCH /api/org/apps/:appId`.  Each of them checks its body and then
executes one statement on `apps`, whose ids, slugs and task types are unique.  A patch says which
columns it changes.

The bodies have passed their schemas, the id of a new app comes with the request, and the columns
with the times of a row, the origins of an app and the audit log are left out.
-/

namespace OpenUnion

/-- A row of `apps`. -/
structure AppRow where
  id : String
  ownerOrgId : String
  slug : String
  taskType : String
  name : String
  description : Option String
  dashboardUrl : Option String
  isPublic : Bool
  status : String
  defaultDescriptor : Json
  uiSchema : Json

/-- The columns a patch changes. -/
structure AppPatch where
  slug : Option String
  taskType : Option String
  name : Option String
  description : Option (Option String)
  dashboardUrl : Option (Option String)
  isPublic : Option Bool
  status : Option String
  defaultDescriptor : Option Json
  uiSchema : Option Json

/-- The row after a patch. -/
def AppRow.patched (row : AppRow) (p : AppPatch) : AppRow where
  id := row.id
  ownerOrgId := row.ownerOrgId
  slug := p.slug.getD row.slug
  taskType := p.taskType.getD row.taskType
  name := p.name.getD row.name
  description := p.description.getD row.description
  dashboardUrl := p.dashboardUrl.getD row.dashboardUrl
  isPublic := p.isPublic.getD row.isPublic
  status := p.status.getD row.status
  defaultDescriptor := p.defaultDescriptor.getD row.defaultDescriptor
  uiSchema := p.uiSchema.getD row.uiSchema

/-- The settings and functions of the routes of apps. -/
structure AppsEnv extends RouteEnv where
  uiSchemaMaxBytes : ℕ
  /-- `new URL(text).toString()` of a URL. -/
  href : String → String

section Checks

variable (env : AppsEnv)

/-- An organisation's role that may change its apps; an API key has none. -/
def checkAppRole (role : String) : Answer Unit :=
  replyUnless (decide (role = "" ∨ role = "owner" ∨ role = "admin")) 403 "forbidden"
    "requires owner/admin"

/-- The dashboard URL to store; a blank one is none. -/
def normalizeDashboardUrl (value : Option Json) : Answer (Option String) :=
  let raw := trimmed (((value.filter fun v => !v.isNull).map Json.toText).getD "")
  if raw = "" then return none
  else if startsWith raw "/" then return some raw
  else match env.parseUrl raw with
    | none => .error ⟨400, "invalid", "dashboardUrl must be a valid URL or /path"⟩
    | some u => do
        replyUnless (decide (u.protocol = "http:" ∨ u.protocol = "https:")) 400 "invalid"
          "dashboardUrl must be http(s) or /path"
        return some (env.href raw)

/-- The checks of a UI schema. -/
def checkUiSchema (uiSchema : Json) : Answer Unit := do
  replyUnless (decide (uiSchema.byteLength ≤ env.uiSchemaMaxBytes)) 400 "ui_schema_too_large"
    ("uiSchema exceeds " ++ toString env.uiSchemaMaxBytes ++ " bytes")
  replyUnless (!hasSensitiveKeys env.toRouteEnv uiSchema 0) 400 "ui_schema_sensitive"
    "uiSchema contains sensitive keys"

/-- The row that `POST /api/org/apps` inserts. -/
def admitApp (orgId role id : String) (body : Json) : Answer AppRow := do
  checkAppRole role
  let taskType := body.textAt "taskType" ""
  let dashboardUrl ← normalizeDashboardUrl env (body.get? "dashboardUrl")
  let defaultDescriptor ← createAppRoute env.toRouteEnv taskType body
  let uiSchema := (body.present "uiSchema").getD (.obj [])
  if (body.present "uiSchema").isSome then checkUiSchema env uiSchema
  return {
    id := id
    ownerOrgId := orgId
    slug := trimmed (body.textAt "slug" "")
    taskType := trimmed taskType
    name := trimmed (body.textAt "name" "")
    description := (body.present "description").map Json.toText
    dashboardUrl := dashboardUrl
    isPublic := ((body.get? "public").map Json.truthy).getD true
    status := "active"
    defaultDescriptor := defaultDescriptor
    uiSchema := uiSchema }

/-- The dashboard URL of a patch. -/
def patchedDashboardUrl (body : Json) : Answer (Option (Option String)) :=
  match body.get? "dashboardUrl" with
  | none => return none
  | some value => return some (← normalizeDashboardUrl env (some value))

/-- The UI schema of a patch. -/
def patchedUiSchema (body : Json) : Answer (Option Json) :=
  match body.get? "uiSchema" with
  | none => return none
  | some uiSchema => do
      checkUiSchema env uiSchema
      return some uiSchema

/-- The changes that `PATCH /api/org/apps/:appId` makes. -/
def admitPatch (role : String) (body : Json) : Answer AppPatch := do
  checkAppRole role
  let dashboardUrl ← patchedDashboardUrl env body
  let defaultDescriptor ← patchedDescriptor env.toRouteEnv body
  let uiSchema ← patchedUiSchema env body
  return {
    slug := (body.get? "slug").map fun v => trimmed v.toText
    taskType := (body.get? "taskType").map fun v => trimmed v.toText
    name := (body.get? "name").map fun v => trimmed v.toText
    description := (body.get? "description").map fun v => if v.isNull then none else some v.toText
    dashboardUrl := dashboardUrl
    isPublic := (body.get? "public").map Json.truthy
    status := (body.get? "status").map Json.toText
    defaultDescriptor := defaultDescriptor
    uiSchema := uiSchema }

end Checks

/-- `apps`. -/
abbrev Apps := List AppRow

/-- The error of a unique index. -/
def appConflict : ApiError := ⟨409, "conflict", "app slug or taskType already exists"⟩

/-- `createOrgApp`. -/
def createOrgApp (apps : Apps) (row : AppRow) : Answer Apps :=
  if apps.any fun r => decide (r.id = row.id ∨ r.slug = row.slug ∨ r.taskType = row.taskType) then
    .error appConflict
  else .ok (apps ++ [row])

/-- The row is the app of the organisation. -/
def AppRow.isOf (row : AppRow) (orgId appId : String) : Bool :=
  decide (row.id = appId ∧ row.ownerOrgId = orgId)

/-- `updateOrgApp`. -/
def updateOrgApp (apps : Apps) (orgId appId : String) (p : AppPatch) : Answer Apps :=
  match apps.find? fun row => row.isOf orgId appId with
  | none => .error ⟨404, "not_found", "app not found"⟩
  | some row =>
      if apps.any fun r => decide (r.id ≠ row.id ∧
          (r.slug = (row.patched p).slug ∨ r.taskType = (row.patched p).taskType)) then
        .error appConflict
      else .ok (apps.map fun r => if r.isOf orgId appId then r.patched p else r)

/-- A request of an organisation. -/
inductive AppRequest where
  | create (orgId role id : String) (body : Json)
  | update (orgId role appId : String) (body : Json)

section Runs

variable (env : AppsEnv)

/-- What a request does to the rows, if the database executes its statement. -/
def AppRequest.answer (apps : Apps) : AppRequest → Answer Apps
  | .create orgId role id body => do createOrgApp apps (← admitApp env orgId role id body)
  | .update orgId role appId body => do updateOrgApp apps orgId appId (← admitPatch env role body)

/-- The rows after a request; a request that is refused, and one whose statement the database
does not execute, leaves them as they are. -/
def appStep (apps : Apps) (request : AppRequest × Bool) : Apps :=
  if request.2 then (request.1.answer env apps).toOption.getD apps else apps

/-- The rows after the statements of many requests, in the order they are executed. -/
def appRun (apps : Apps) (requests : List (AppRequest × Bool)) : Apps :=
  requests.foldl (appStep env) apps

end Runs

end OpenUnion
