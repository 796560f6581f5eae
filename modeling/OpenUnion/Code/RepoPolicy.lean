import Mathlib.Data.Rat.Floor
import OpenUnion.Code.Json

/-!
# The policy gate of the repository search

`decideRepoPolicy` blocks a repository for being archived, for its stars or for its license.
The settings are texts of the environment, read anew at each decision; a request may bring its
own allowlist and minimum of stars.

`toUpperCase` and `Number` of a text are parameters; a set is the list of its elements.
-/

namespace OpenUnion

/-- A number, as `Number` returns it. -/
inductive JsNumber where
  | nan
  | infinite (negative : Bool)
  | finite (q : ℚ)

/-- The environment of the policy. -/
structure IntelEnv where
  /-- `INTEL_LICENSE_ALLOWLIST`. -/
  licenseAllowlist : Option String
  /-- `INTEL_LICENSE_DENYLIST`. -/
  licenseDenylist : Option String
  /-- `INTEL_MIN_STARS_DEFAULT`. -/
  minStarsDefault : Option String
  toUpperCase : String → String
  /-- `Number(text)`. -/
  number : String → JsNumber

inductive IntelPolicyMode where
  | suggest
  | autoApply
  deriving DecidableEq

/-- The minimum of stars in a request. -/
inductive RequestMinStars where
  | absent
  | null
  | number (n : JsNumber)

/-- The input of `decideRepoPolicy`. -/
structure RepoPolicyInput where
  mode : IntelPolicyMode
  licenseSpdx : Option String
  archived : Bool
  stars : ℕ
  /-- The allowlist of the request, if it has one. -/
  requestLicenseAllow : Option (List String)
  requestMinStars : RequestMinStars

/-- A decision: allowed, or blocked with a code and a message. -/
inductive IntelPolicyDecision where
  | allowed
  | blocked (code message : String)
  deriving DecidableEq

/-- `Number(requestMinStars)`. -/
def RequestMinStars.toNumber : RequestMinStars → JsNumber
  | .absent => .nan
  | .null => .finite 0
  | .number n => n

/-- `Math.max(0, Math.floor(n))` of a finite number. -/
def JsNumber.wholeStars : JsNumber → Option ℕ
  | .finite q => some ⌊q⌋.toNat
  | _ => none

section Policy

variable (env : IntelEnv) (input : RepoPolicyInput)

/-- The texts that are not blank, trimmed and in upper case. -/
def upperEntries (texts : List String) : List String :=
  ((texts.map trimmed).filter (· ≠ "")).map env.toUpperCase

/-- `parseCsvUpper`. -/
def parseCsvUpper (v : Option String) : List String :=
  upperEntries env (((trimmed (v.getD "")).toList.splitOn ',').map String.ofList)

/-- `normalizeLicenseId`. -/
def normalizeLicenseId (raw : Option String) : Option String :=
  let s := trimmed (raw.getD "")
  if s = "" then none else some (env.toUpperCase s)

/-- `Number(process.env.INTEL_MIN_STARS_DEFAULT ?? 0)`. -/
def envMinStarsRaw : JsNumber :=
  match env.minStarsDefault with
  | some text => env.number text
  | none => .finite 0

/-- The minimum of stars that counts. -/
def minStars : ℕ :=
  (input.requestMinStars.toNumber.wholeStars).getD ((envMinStarsRaw env).wholeStars.getD 0)

/-- The allowlist that counts, unless there is none. -/
def effectiveAllow : Option (List String) :=
  let requestAllow := upperEntries env (input.requestLicenseAllow.getD [])
  let envAllow := parseCsvUpper env env.licenseAllowlist
  if requestAllow ≠ [] then some requestAllow
  else if envAllow ≠ [] then some envAllow
  else none

/-- The license checks of a mode. -/
def decideLicense (license : Option String) : IntelPolicyDecision :=
  match input.mode, license, effectiveAllow env input with
  | .autoApply, none, _ =>
      .blocked "policy_blocked_license" "license unknown (auto-apply requires explicit license)"
  | .suggest, none, some _ =>
      .blocked "policy_blocked_license" "license unknown (allowlist enforced)"
  | .suggest, none, none => .allowed
  | _, some l, some allow =>
      if l ∈ allow then .allowed
      else .blocked "policy_blocked_license" ("license not allowlisted: " ++ l)
  | _, some _, none => .allowed

/-- `decideRepoPolicy`. -/
def decideRepoPolicy : IntelPolicyDecision :=
  let license := normalizeLicenseId env input.licenseSpdx
  let minStars := minStars env input
  if input.archived then .blocked "policy_blocked_security" "repo is archived"
  else if 0 < minStars ∧ input.stars < minStars then
    .blocked "policy_blocked_quality" ("repo stars below minStars=" ++ toString minStars)
  else
    match license.filter fun l => decide (l ∈ parseCsvUpper env env.licenseDenylist) with
    | some l => .blocked "policy_blocked_license" ("license denied: " ++ l)
    | none => decideLicense env input license

end Policy

end OpenUnion
