import OpenUnion.JsonText.Doubles
import OpenUnion.Text.Substitute

/-!
# Pages of registry apps

`renderRegistryAppPage` puts the configuration of a public app, as JSON text, into the script
element `appConfig` of the page template.

The record of an app holds what the page reads of it.  Its strings are code units; the template
and the page are texts.
-/

namespace OpenUnion

open JsonText Text

/-- `<script id="appConfig" type="application/json">`. -/
def openTag : List Char := "<script id=\"appConfig\" type=\"application/json\">".toList

/-- `</script>`. -/
def closeTag : List Char := "</script>".toList

/-- The element that the page replaces. -/
def appConfigElement : List Char := openTag ++ ("\x7b\x7d".toList ++ closeTag)

/-- `public/apps/app_page.html`: the element stands in it, and behind it another script. -/
structure AppTemplate where
  text : List Char
  before : List Char
  behind : List Char
  split : splitFirst appConfigElement text = some (before, behind)
  doctype : "<!doctype html>\n".toList <+: before
  script : closeTag <:+: behind

/-- What `getPublicAppBySlug` returns, as far as the page reads it; the numbers of the descriptor
are doubles, and the members of its objects are in the order of properties. -/
structure PublicApp where
  name : List UInt16
  description : Option (List UInt16)
  taskType : List UInt16
  defaultDescriptor : Value (Option ℚ)
  legal : defaultDescriptor.Legal doubles

/-- A property of a value, unless it is undefined. -/
def property {ν : Type} (v : Value ν) (key : String) : Option (Value ν) :=
  match v with
  | .obj members => (members.find? fun m => m.1 = unitsOf key.toList).map Prod.snd
  | _ => none

/-- `value ?? {}`. -/
def orEmpty {ν : Type} : Option (Value ν) → Value ν
  | none | some .null => .obj []
  | some v => v

/-- `Array.isArray(d.capability_tags) ? d.capability_tags : []`. -/
def capabilityTags {ν : Type} (d : Value ν) : Value ν :=
  match property d "capability_tags" with
  | some (.arr elems) => .arr elems
  | _ => .arr []

/-- `defaultFreshnessSlaSec`; `JSON.stringify` leaves it out where it is undefined. -/
def freshnessSlaSec {ν : Type} (d : Value ν) : List (List UInt16 × Value ν) :=
  match property d "freshness_sla_sec" with
  | some (.num x) => [(unitsOf "defaultFreshnessSlaSec".toList, .num x)]
  | _ => []

/-- The properties of `cfg`. -/
def PublicApp.members (app : PublicApp) : List (List UInt16 × Value (Option ℚ)) :=
  let d := orEmpty (some app.defaultDescriptor)
  [(unitsOf "title".toList, .str app.name),
    (unitsOf "titlePrefix".toList, .str app.name),
    (unitsOf "description".toList, .str (app.description.getD [])),
    (unitsOf "taskType".toList, .str app.taskType),
    (unitsOf "defaultCaps".toList, capabilityTags d)] ++
  (freshnessSlaSec d ++
  [(unitsOf "defaultInputSpec".toList, orEmpty (property d "input_spec")),
    (unitsOf "defaultOutputSpec".toList, orEmpty (property d "output_spec"))])

/-- `cfg`. -/
def PublicApp.config (app : PublicApp) : Value (Option ℚ) := .obj app.members

/-- The answer of the route. -/
inductive PageReply where
  /-- With status 404. -/
  | notFound (text : List Char)
  | html (text : List Char)

/-- `renderRegistryAppPage`, from the record of the app on. -/
def renderRegistryAppPage (template : AppTemplate) : Option PublicApp → PageReply
  | none => .notFound "not found".toList
  | some rec =>
      .html (replaceFirst template.text appConfigElement
        (openTag ++ (rec.config.stringify doubles ++ closeTag)))

end OpenUnion
