import OpenUnion.Code.Json
import OpenUnion.Text.Like

/-!
# Blocked domains

An admin blocks a domain; `normalizeBlockedDomainInput` turns the text of the request into the
host name that is stored.  `assertUrlNotBlocked` looks the host name of a URL up with a `LIKE`
pattern made of the stored text.

`new URL` and `toLowerCase` are parameters.
-/

namespace OpenUnion

open Text

/-- What the checks rest on. -/
structure HostEnv where
  /-- `new URL(s).hostname`; `none` where `new URL` throws. -/
  hostname : String → Option String
  toLowerCase : String → String

/-- `s.slice(n)`. -/
def slicedFrom (s : String) (n : Nat) : String := String.ofList (s.toList.drop n)

/-- `s.replace(/\.$/, '')`. -/
def withoutRootDot (s : String) : String :=
  if s.toList.getLast? = some '.' then String.ofList s.toList.dropLast else s

/-- The host name that a blocked domain is stored as, with what precedes it taken off. -/
def bareDomain (s : String) : String :=
  let s := if startsWith s "*." then slicedFrom s 2 else s
  let s := if startsWith s "." then slicedFrom s 1 else s
  withoutRootDot s

/-- `normalizeBlockedDomainInput`. -/
def normalizeBlockedDomainInput (env : HostEnv) (input : String) : Except String String :=
  let s := env.toLowerCase (trimmed input)
  if s = "" then .error "invalid_blocked_domain"
  else
    match env.hostname (if includes s "://" then s else "https://" ++ s) with
    | none => .error "invalid_blocked_domain"
    | some host =>
        let domain := bareDomain (env.toLowerCase host)
        if domain = "" ∨ 200 < domain.length then .error "invalid_blocked_domain"
        else .ok domain

/-- `hostnameFromUrl`; `none` where it throws. -/
def hostnameFromUrl (env : HostEnv) (input : String) : Option String :=
  (env.hostname input).map env.toLowerCase

/-- The condition of the query for one row. -/
def matchesDomain (domain host : String) : Bool :=
  decide (host = domain) || like ("%." ++ domain).toList host.toList

/-- `isHostnameBlocked`, over the stored domains. -/
def isHostnameBlocked (env : HostEnv) (domains : List String) (hostname : String) : Bool :=
  let host := env.toLowerCase (trimmed hostname)
  if host = "" then false else domains.any fun domain => matchesDomain domain host

/-- `assertUrlNotBlocked`, over the stored domains. -/
def assertUrlNotBlocked (env : HostEnv) (domains : List String) (inputUrl : String) :
    Except String Unit :=
  match hostnameFromUrl env inputUrl with
  | none => .ok ()
  | some host =>
      if isHostnameBlocked env domains host then .error ("blocked_domain:" ++ host) else .ok ()

end OpenUnion
