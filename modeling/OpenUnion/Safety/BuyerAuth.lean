import Mathlib.Data.List.Nodup
import OpenUnion.Code.BuyerAuth

/-!
# A valid API key and the cookies of other applications

The fallback to the API key is reached only if `parseCookies` has returned, and it returns only if
it can decode the value of every pair of the header, whatever application has set it.

* `setCookies_isSome_iff`: `parseCookies` returns if every value is decoded.
* `setCookies_lookup`: a name has the value of its last pair.
* `getApiKey_eq`: a key that is stored and not revoked is found by its token.
* `key_authenticates_iff`: a valid key authenticates a request without a live session just if
  every value of its cookies is properly escaped.
-/

namespace OpenUnion

open Text

/-- The value of the last pair of a name, as it stands in the header. -/
def lastValue (name : String) : List (String × String) → Option String
  | [] => none
  | (k, raw) :: pairs => (lastValue name pairs).or (if k = name then some raw else none)

variable {env : AuthEnv} {req : BuyerRequest} {key : ApiKeyRow} {token : String}

section Statement

variable (env req key token)

/-- The header carries a live session: the last `pw_sess` is signed, and its session is neither
revoked nor expired. -/
def CarriesLiveSession : Prop :=
  ∃ raw value, lastValue "pw_sess" (cookiePairs req.cookie) = some raw ∧
    decodeURIComponent raw = some value ∧ (liveSession env (some value)).isSome

/-- A stored key that is not revoked, with its token. -/
structure IsKeyOf : Prop where
  stored : key ∈ env.apiKeys
  unrevoked : key.revokedAt = none
  keyPrefix : key.keyPrefix = String.ofList (token.toList.take 12)
  keyHash : key.keyHash = env.hmacSha256Hex token ∨ key.keyHash = env.sha256 token

/-- The token is sent as bearer token; a token neither begins nor ends with white space. -/
structure SentAsBearer : Prop where
  header : req.authorization = some ("Bearer " ++ token)
  nonempty : token ≠ ""
  plain : trimmed token = token

/-- The call of `rateLimit` for the name `k` is admitted. -/
def Admitted (k : String) (ratePerMin : ℚ) : Prop :=
  (env.buckets k).admits ⟨k, ratePerMin, env.clock k⟩ = true

/-- The key is within its limits. -/
structure WithinLimits : Prop where
  overall : Admitted env ("buyer:" ++ key.id ++ ":global") 120
  route : Admitted env ("buyer:" ++ key.id ++ ":route:" ++ req.routeKey) 60

/-- `authenticateBuyer` completes with the organisation of the key, and sends nothing. -/
def Authenticates : Prop :=
  ∃ who, authenticateBuyer env req = .ok ⟨who, none⟩ ∧ who.orgId = some key.orgId

end Statement

/-! ## Cookies -/

variable {out cookies : String → Option String} {pairs : List (String × String)} {name : String}

/-- `parseCookies` returns if every value is decoded. -/
theorem setCookies_isSome_iff :
    (setCookies out pairs).isSome ↔ ∀ p ∈ pairs, (decodeURIComponent p.2).isSome := by
  induction pairs generalizing out with
  | nil => simp [setCookies]
  | cons p pairs ih =>
      obtain ⟨k, raw⟩ := p
      rw [setCookies, List.forall_mem_cons]
      cases hraw : decodeURIComponent raw with
      | none => simp
      | some v =>
          rw [Option.bind_some, ih]
          simp

/-- A name has the value of its last pair. -/
theorem setCookies_lookup (hname : name ≠ "__proto__") (h : setCookies out pairs = some cookies) :
    cookies name = match lastValue name pairs with
      | some raw => decodeURIComponent raw
      | none => out name := by
  induction pairs generalizing out with
  | nil =>
      obtain rfl : out = cookies := by simpa [setCookies] using h
      rfl
  | cons p pairs ih =>
      obtain ⟨k, raw⟩ := p
      rw [setCookies, Option.bind_eq_some_iff] at h
      obtain ⟨v, hv, hrest⟩ := h
      rw [ih hrest, lastValue]
      cases hlast : lastValue name pairs with
      | some raw' => rfl
      | none =>
          by_cases hk : k = name
          · rw [if_pos hk, Option.none_or, if_neg (hk ▸ hname), hk, Function.update_self]
            exact hv.symm
          · rw [if_neg hk, Option.none_or]
            split_ifs
            · rfl
            · exact Function.update_of_ne (Ne.symm hk) _ _

/-! ## Sessions and keys -/

/-- Without a live session in the header there is none to go on with. -/
theorem liveSession_eq_none (h : ¬ CarriesLiveSession env req)
    (hcookies : parseCookies req.cookie = some cookies) :
    liveSession env (cookies "pw_sess") = none := by
  have hlookup := setCookies_lookup (by decide : "pw_sess" ≠ "__proto__") hcookies
  cases hlast : lastValue "pw_sess" (cookiePairs req.cookie) with
  | none =>
      rw [hlast] at hlookup
      rw [hlookup]
      rfl
  | some raw =>
      have hvalue : cookies "pw_sess" = decodeURIComponent raw := by
        rw [hlookup, hlast]
      rw [hvalue]
      cases hraw : decodeURIComponent raw with
      | none => rfl
      | some value =>
          by_contra hlive
          exact h ⟨raw, value, hlast, hraw, Option.isSome_iff_ne_none.mpr hlive⟩

/-- A key that is stored and not revoked is found by its token: prefixes are unique. -/
theorem getApiKey_eq (hunique : (env.apiKeys.map (·.keyPrefix)).Nodup)
    (hkey : IsKeyOf env key token) : getApiKey env token = some key := by
  have hfound : (getApiKey env token).isSome := by
    refine List.find?_isSome.mpr ⟨key, hkey.stored, ?_⟩
    simp [hkey.keyPrefix, hkey.keyHash, hkey.unrevoked]
  obtain ⟨row, hrow⟩ := Option.isSome_iff_exists.mp hfound
  have hmem : row ∈ env.apiKeys := List.mem_of_find?_eq_some hrow
  have hprefix : row.keyPrefix = key.keyPrefix := by
    have htest := List.find?_some hrow
    simp only [Bool.and_eq_true, decide_eq_true_eq] at htest
    exact htest.1.1.trans hkey.keyPrefix.symm
  have hinj := (List.nodup_map_iff_inj_on (hunique.of_map _)).mp hunique
  rw [hrow, hinj row hmem key hkey.stored hprefix]

/-- The token of the header. -/
theorem bearerToken_eq (hsent : SentAsBearer req token) :
    bearerToken req.authorization = some token := by
  have hchars : ("Bearer " ++ token).toList = "Bearer ".toList ++ token.toList :=
    String.toList_append
  rw [hsent.header, bearerToken, Option.bind_some, hchars, if_pos (by simp)]
  have hdrop : ("Bearer ".toList ++ token.toList).drop 7 = token.toList := List.drop_left' rfl
  rw [hdrop, String.ofList_toList, hsent.plain]

/-- An admitted call lets the request through. -/
theorem withinLimit_of_admitted {k : String} {ratePerMin : ℚ} (h : Admitted env k ratePerMin) :
    withinLimit env k ratePerMin = .ok true := by
  rw [withinLimit, rateLimit_eq, h]

theorem checkLimits_of_admitted {who : BuyerIdentity} {owner routeKey : String}
    {globalRate routeRate : ℚ} {next : Except String AuthResult}
    (hglobal : Admitted env (owner ++ ":global") globalRate)
    (hroute : Admitted env (owner ++ ":route:" ++ routeKey) routeRate) :
    checkLimits env who owner routeKey globalRate routeRate next = next := by
  rw [checkLimits, withinLimit_of_admitted hglobal, withinLimit_of_admitted hroute]
  rfl

/-- The fallback succeeds for a valid key. -/
theorem authenticateKey_eq (hunique : (env.apiKeys.map (·.keyPrefix)).Nodup)
    (hkey : IsKeyOf env key token) (hsent : SentAsBearer req token)
    (hlimits : WithinLimits env req key) :
    authenticateKey env req =
      .ok ⟨⟨some key.orgId, none, none, none, none, some key.id⟩, none⟩ := by
  rw [authenticateKey, bearerToken_eq hsent]
  split
  · rename_i heq
    cases heq
  · rename_i heq
    exact absurd (Option.some.inj heq) hsent.nonempty
  · rename_i heq
    obtain rfl := Option.some.inj heq
    rw [getApiKey_eq hunique hkey]
    exact checkLimits_of_admitted hlimits.overall hlimits.route

/-! ## The request -/

/-- A valid key authenticates a request without a live session just if every value of the cookies
is properly escaped. -/
theorem key_authenticates_iff (hunique : (env.apiKeys.map (·.keyPrefix)).Nodup)
    (hsession : ¬ CarriesLiveSession env req) (hkey : IsKeyOf env key token)
    (hsent : SentAsBearer req token) (hlimits : WithinLimits env req key) :
    Authenticates env req key ↔ ∀ p ∈ cookiePairs req.cookie, Escaped p.2.toList := by
  have hdecoded : (parseCookies req.cookie).isSome ↔
      ∀ p ∈ cookiePairs req.cookie, Escaped p.2.toList := by
    rw [parseCookies, setCookies_isSome_iff]
    exact forall₂_congr fun p _ => decodeURIComponent_isSome_iff p.2
  rw [← hdecoded]
  cases hcookies : parseCookies req.cookie with
  | none =>
      constructor
      · intro ⟨who, hwho, _⟩
        rw [authenticateBuyer, hcookies] at hwho
        cases hwho
      · intro h
        cases h
  | some cookies =>
      have hkey := authenticateKey_eq hunique hkey hsent hlimits
      have hall : Authenticates env req key := by
        refine ⟨⟨some key.orgId, none, none, none, none, some key.id⟩, ?_, rfl⟩
        rw [authenticateBuyer, hcookies]
        simp only [liveSession_eq_none hsession hcookies]
        exact hkey
      exact iff_of_true hall rfl

/-- A key as `createOrgApiKey` makes it. -/
def storedKey : ApiKeyRow where
  id := "k1"
  orgId := "org1"
  keyPrefix := "pw_bu_V1StGX"
  keyHash := "8d2437c4dae04e589dd91758d50ff6cae143e22c106f17faae9544b626eae50d"
  revokedAt := none

/-- One key, no session, and no calls so far. -/
def oneKey : AuthEnv where
  signSessionId _ := ""
  csrfToken _ := ""
  hmacSha256Hex _ := "8d2437c4dae04e589dd91758d50ff6cae143e22c106f17faae9544b626eae50d"
  sha256 _ := "5d136e7d6f70bc2bffe47823def9bf84200409a2920aee5db64023108fa6db82"
  toUpperCase s := s
  sessions _ := none
  apiKeys := [storedKey]
  now := 0
  buckets _ := fun _ => none
  clock _ := 0

/-- A request with the token of the key and a header of cookies. -/
def withCookie (cookie : String) : BuyerRequest where
  cookie := some cookie
  authorization := some ("Bearer " ++ "pw_bu_V1StGXR8_Z5jdHi6")
  csrfHeader := none
  method := "GET"
  routeUrl := some "/api/org"
  url := "/api/org"

theorem withCookie_sent (cookie : String) :
    SentAsBearer (withCookie cookie) "pw_bu_V1StGXR8_Z5jdHi6" :=
  ⟨rfl, by decide, by decide⟩

theorem storedKey_isKeyOf : IsKeyOf oneKey storedKey "pw_bu_V1StGXR8_Z5jdHi6" :=
  ⟨List.mem_singleton_self _, rfl, by decide, .inl rfl⟩

theorem withCookie_within (cookie : String) :
    WithinLimits oneKey (withCookie cookie) storedKey := by
  have hfull : ∀ k r, 1 ≤ r → Admitted oneKey k r := by
    intro k r hr
    simp [Admitted, Buckets.admits, Buckets.locked, Bucket.refill, oneKey, hr]
  exact ⟨hfull _ _ (by norm_num), hfull _ _ (by norm_num)⟩

/-- No session is stored, so that no header carries one. -/
theorem oneKey_no_session (cookie : String) :
    ¬ CarriesLiveSession oneKey (withCookie cookie) := by
  rintro ⟨raw, value, -, -, hlive⟩
  simp [liveSession, getSession, oneKey] at hlive
  split at hlive <;> simp at hlive

/-- A stale session and an escaped value of another application do no harm. -/
theorem key_authenticates_beside_cookies :
    Authenticates oneKey (withCookie "theme=dark%20mode; pw_sess=stale") storedKey := by
  have hpairs : cookiePairs (withCookie "theme=dark%20mode; pw_sess=stale").cookie =
      [("theme", "dark%20mode"), ("pw_sess", "stale")] := by decide
  refine (key_authenticates_iff (by decide) (oneKey_no_session _) storedKey_isKeyOf
    (withCookie_sent _) (withCookie_within _)).mpr ?_
  rw [hpairs]
  intro p hp
  rw [← decodeURIComponent_isSome_iff]
  revert p
  decide

/-- A percent sign in the cookie of another application keeps the key from being looked at. -/
theorem percent_cookie_throws : SentAsBearer (withCookie "x=%") "pw_bu_V1StGXR8_Z5jdHi6" ∧
    IsKeyOf oneKey storedKey "pw_bu_V1StGXR8_Z5jdHi6" ∧
    WithinLimits oneKey (withCookie "x=%") storedKey ∧
    ¬ CarriesLiveSession oneKey (withCookie "x=%") ∧
    authenticateBuyer oneKey (withCookie "x=%") = .error "URIError: URI malformed" := by
  have hcookies : parseCookies (withCookie "x=%").cookie = none := by
    have hpairs : cookiePairs (withCookie "x=%").cookie = [("x", "%")] := by decide
    rw [parseCookies, hpairs]
    rfl
  refine ⟨withCookie_sent _, storedKey_isKeyOf, withCookie_within _, oneKey_no_session _, ?_⟩
  rw [authenticateBuyer, hcookies]

end OpenUnion
