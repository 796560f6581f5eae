import OpenUnion.Code.RpcCall

/-!
# Retries of JSON-RPC calls

`position` says which request comes after which: the next attempt at the same URL when the error
is retryable and attempts are left, otherwise the first attempt at the next URL. `rpcCall` makes
the requests that have a position and ends with the outcome of the last one.

The outcome of a request resolves also when the body has neither an error nor a result, with
`undefined`.

* `outcome_ok_iff`: what an attempt resolves with.
* `tryUrl_runs`, `tryUrls_runs`: the requests for one URL, and for the URLs that are left.
* `rpcCall_correct_iff`: when a call is a correct retry loop.
-/

namespace OpenUnion

variable (env : RpcEnv) (replies : ℕ → RpcReply) (maxRetries : ℕ) (urls : List String)

/-- The URL and the attempt of a request; none when the call ends before it. -/
def position (targets : ℕ) : ℕ → Option (ℕ × ℕ)
  | 0 => if 0 < targets then some (0, 0) else none
  | i + 1 =>
      match position targets i, rpcOutcome env (replies i) with
      | some (u, a), .error err =>
          if a < maxRetries ∧ isRetryableRpcError env err = true then some (u, a + 1)
          else if u + 1 < targets then some (u + 1, 0)
          else none
      | _, _ => none

/-- The result of a well-formed success. -/
def success : RpcReply → Option Json
  | .failed _ _ => none
  | .answered status text =>
      if httpOk status then
        match env.parse text with
        | some (.obj fields) =>
            if bodyError (.obj fields) = none then fields.lookup "result" else none
        | _ => none
      else none

/-- HTTP says ok, but the body has neither an error nor a result. -/
def Malformed (reply : RpcReply) : Prop :=
  ∃ status text, reply = .answered status text ∧ httpOk status ∧
    bodyError (rpcBody env text) = none ∧ (rpcBody env text).get? "result" = none

/-- What is asked of a call. -/
structure CorrectRetries : Prop where
  bounded : (rpcCall env replies maxRetries urls).1.length ≤ urls.length * (maxRetries + 1)
  /-- Each request goes to the URL of its position, and there are no others. -/
  ordered : ∀ i, (rpcCall env replies maxRetries urls).1[i]? =
    (position env replies maxRetries urls.length i).bind fun p => urls[p.1]?
  resolves : ∀ v, (rpcCall env replies maxRetries urls).2 = .ok v ↔
    ∃ i < (rpcCall env replies maxRetries urls).1.length,
      ∃ w, success env (replies i) = some w ∧ v = some w
  rejects : ∀ err, (rpcCall env replies maxRetries urls).2 = .error err →
    ∃ i, (rpcCall env replies maxRetries urls).1.length = i + 1 ∧
      rpcOutcome env (replies i) = .error err

variable {env replies maxRetries urls}

/-! ## Outcomes -/

theorem success_iff {reply : RpcReply} {w : Json} : success env reply = some w ↔
    ∃ status text, reply = .answered status text ∧ httpOk status ∧
      bodyError (rpcBody env text) = none ∧ (rpcBody env text).get? "result" = some w := by
  cases reply with
  | failed name message => simp [success]
  | answered status text =>
      by_cases hok : httpOk status
      · by_cases hempty : text = ""
        · subst hempty
          simp [success, env.parse_empty, rpcBody, Json.get?]
        · cases hparse : env.parse text with
          | none => simp [success, hparse, rpcBody, hempty, Json.get?]
          | some json =>
              cases json <;> simp [success, hok, hparse, rpcBody, hempty, Json.get?, bodyError]
      · simp [success, hok]

theorem outcome_ok {reply : RpcReply} {v : Option Json} : rpcOutcome env reply = .ok v ↔
    ∃ status text, reply = .answered status text ∧ httpOk status ∧
      bodyError (rpcBody env text) = none ∧ (rpcBody env text).get? "result" = v := by
  cases reply with
  | failed name message => simp [rpcOutcome]
  | answered status text =>
      by_cases hok : httpOk status
      · cases herror : bodyError (rpcBody env text) with
        | none => simp [rpcOutcome, hok, herror]
        | some err => simp [rpcOutcome, hok, herror]
      · simp [rpcOutcome, hok]

/-- An attempt resolves with the result of a success, or with `undefined`. -/
theorem outcome_ok_iff {reply : RpcReply} {v : Option Json} : rpcOutcome env reply = .ok v ↔
    (∃ w, success env reply = some w ∧ v = some w) ∨ (Malformed env reply ∧ v = none) := by
  rw [outcome_ok]
  constructor
  · rintro ⟨status, text, hreply, hok, herror, hv⟩
    cases v with
    | none => exact Or.inr ⟨⟨status, text, hreply, hok, herror, hv⟩, rfl⟩
    | some w => exact Or.inl ⟨w, success_iff.mpr ⟨status, text, hreply, hok, herror, hv⟩, rfl⟩
  · rintro (⟨w, hw, rfl⟩ | ⟨hmalformed, rfl⟩)
    · exact success_iff.mp hw
    · exact hmalformed

/-! ## Positions -/

/-- A position is one of the attempts, and it bounds the requests before it. -/
theorem position_bounds {targets i u a : ℕ}
    (h : position env replies maxRetries targets i = some (u, a)) :
    u < targets ∧ a ≤ maxRetries ∧ i ≤ u * (maxRetries + 1) + a := by
  induction i generalizing u a with
  | zero =>
      simp only [position, Option.ite_none_right_eq_some, Option.some.injEq, Prod.mk.injEq] at h
      obtain ⟨htargets, rfl, rfl⟩ := h
      exact ⟨htargets, Nat.zero_le _, Nat.zero_le _⟩
  | succ i ih =>
      rw [position] at h
      split at h
      next u' a' err hposition _ =>
        obtain ⟨hu, ha, hi⟩ := ih hposition
        split_ifs at h with hagain hnext
        · obtain ⟨rfl, rfl⟩ : u' = u ∧ a' + 1 = a := by simpa using h
          exact ⟨hu, hagain.1, by omega⟩
        · obtain ⟨rfl, rfl⟩ : u' + 1 = u ∧ 0 = a := by simpa using h
          refine ⟨hnext, Nat.zero_le _, ?_⟩
          have hmul : (u' + 1) * (maxRetries + 1) = u' * (maxRetries + 1) + (maxRetries + 1) :=
            Nat.succ_mul _ _
          omega
      next => cases h

/-- A request that has a successor failed. -/
theorem failed_of_position_succ {targets i : ℕ} {p : ℕ × ℕ}
    (h : position env replies maxRetries targets (i + 1) = some p) :
    (∃ q, position env replies maxRetries targets i = some q) ∧
      ∃ err, rpcOutcome env (replies i) = .error err := by
  rw [position] at h
  split at h
  next u a err hposition houtcome => exact ⟨⟨_, hposition⟩, err, houtcome⟩
  next => cases h

/-- There are no gaps. -/
theorem position_none_of_le {targets i j : ℕ} (hij : i ≤ j)
    (h : position env replies maxRetries targets i = none) :
    position env replies maxRetries targets j = none := by
  induction hij with
  | refl => exact h
  | @step j _ ih =>
      rw [Option.eq_none_iff_forall_ne_some] at ih ⊢
      intro p hp
      obtain ⟨⟨q, hq⟩, -⟩ := failed_of_position_succ hp
      exact ih q hq

/-! ## Runs -/

variable (env replies maxRetries urls) in
/-- The requests of `sent` are those with the first positions. -/
def Sent (sent : List String) : Prop :=
  ∀ i < sent.length, ∃ p, position env replies maxRetries urls.length i = some p ∧
    sent[i]? = urls[p.1]?

theorem Sent.append {sent : List String} {url : String} {u a : ℕ}
    (h : Sent env replies maxRetries urls sent) (hurl : urls[u]? = some url)
    (hposition : position env replies maxRetries urls.length sent.length = some (u, a)) :
    Sent env replies maxRetries urls (sent ++ [url]) := by
  intro i hi
  rw [List.length_append, List.length_singleton] at hi
  rcases Nat.lt_succ_iff_lt_or_eq.mp hi with hlt | rfl
  · obtain ⟨p, hp, hsame⟩ := h i hlt
    exact ⟨p, hp, by rw [List.getElem?_append_left hlt, hsame]⟩
  · exact ⟨(u, a), hposition, by simp [hurl]⟩

variable (env replies maxRetries urls) in
/-- How a part of the call ends: at the request `i`, with its outcome. -/
structure EndsAt (run : List String × Except RpcError (Option Json)) (i : ℕ) : Prop where
  sent : Sent env replies maxRetries urls run.1
  last : run.1.length = i + 1
  outcome : run.2 = rpcOutcome env (replies i)

/-- The request that is made now is the last one. -/
theorem EndsAt.now {sent : List String} {url : String} {u a : ℕ}
    {out : Except RpcError (Option Json)} (h : Sent env replies maxRetries urls sent)
    (hurl : urls[u]? = some url)
    (hposition : position env replies maxRetries urls.length sent.length = some (u, a))
    (hout : rpcOutcome env (replies sent.length) = out) :
    EndsAt env replies maxRetries urls (sent ++ [url], out) sent.length where
  sent := h.append hurl hposition
  last := by simp
  outcome := hout.symm

theorem tryUrl_ok {url : String} {left : ℕ} {sent : List String} {v : Option Json}
    (h : rpcOutcome env (replies sent.length) = .ok v) :
    tryUrl env replies url left sent = (sent ++ [url], .ok v) := by
  cases left <;> simp [tryUrl, h]

theorem tryUrl_last {url : String} {sent : List String} {err : RpcError}
    (h : rpcOutcome env (replies sent.length) = .error err) :
    tryUrl env replies url 0 sent = (sent ++ [url], .error err) := by
  simp [tryUrl, h]

theorem tryUrl_again {url : String} {left : ℕ} {sent : List String} {err : RpcError}
    (h : rpcOutcome env (replies sent.length) = .error err) :
    tryUrl env replies url (left + 1) sent =
      if isRetryableRpcError env err then tryUrl env replies url left (sent ++ [url])
      else (sent ++ [url], .error err) := by
  simp [tryUrl, h]

/-- The attempts at one URL end with a result or behind the last one. -/
theorem tryUrl_runs {url : String} {u : ℕ} (hurl : urls[u]? = some url) : ∀ (left : ℕ)
    {sent : List String} {a : ℕ}, a + left = maxRetries → Sent env replies maxRetries urls sent →
    position env replies maxRetries urls.length sent.length = some (u, a) →
    ∃ i, EndsAt env replies maxRetries urls (tryUrl env replies url left sent) i ∧
      ∀ err, rpcOutcome env (replies i) = .error err →
        position env replies maxRetries urls.length (i + 1) =
          if u + 1 < urls.length then some (u + 1, 0) else none := by
  intro left
  induction left with
  | zero =>
      intro sent a ha hsent hposition
      cases houtcome : rpcOutcome env (replies sent.length) with
      | ok v =>
          rw [tryUrl_ok houtcome]
          refine ⟨sent.length, EndsAt.now hsent hurl hposition houtcome, fun err herr => ?_⟩
          rw [houtcome] at herr
          cases herr
      | error err =>
          rw [tryUrl_last houtcome]
          refine ⟨sent.length, EndsAt.now hsent hurl hposition houtcome, fun _ _ => ?_⟩
          have hlast : ¬ a < maxRetries := by omega
          simp [position, hposition, houtcome, hlast]
  | succ left ih =>
      intro sent a ha hsent hposition
      cases houtcome : rpcOutcome env (replies sent.length) with
      | ok v =>
          rw [tryUrl_ok houtcome]
          refine ⟨sent.length, EndsAt.now hsent hurl hposition houtcome, fun err herr => ?_⟩
          rw [houtcome] at herr
          cases herr
      | error err =>
          rw [tryUrl_again houtcome]
          have hlt : a < maxRetries := by omega
          by_cases hretry : isRetryableRpcError env err = true
          · have hnext : position env replies maxRetries urls.length (sent ++ [url]).length =
                some (u, a + 1) := by
              simp [position, hposition, houtcome, hlt, hretry]
            rw [if_pos hretry]
            exact ih (by omega) (hsent.append hurl hposition) hnext
          · rw [if_neg hretry]
            refine ⟨sent.length, EndsAt.now hsent hurl hposition houtcome, fun _ _ => ?_⟩
            simp [position, hposition, houtcome, hretry]

/-- The URLs that are left: the call ends with the outcome of a request that has no successor. -/
theorem tryUrls_runs : ∀ (rest : List String) {before : List String} {sent : List String}
    {lastErr : Option RpcError}, urls = before ++ rest → rest ≠ [] →
    Sent env replies maxRetries urls sent →
    position env replies maxRetries urls.length sent.length = some (before.length, 0) →
    ∃ i, EndsAt env replies maxRetries urls
        (tryUrls env replies maxRetries rest sent lastErr) i ∧
      position env replies maxRetries urls.length (i + 1) = none := by
  intro rest
  induction rest with
  | nil =>
      intro before sent lastErr _ hne
      exact absurd rfl hne
  | cons url rest ih =>
      intro before sent lastErr hsplit _ hsent hposition
      have hurl : urls[before.length]? = some url := by simp [hsplit]
      obtain ⟨i, hends, hmoves⟩ := tryUrl_runs hurl maxRetries (Nat.zero_add _) hsent hposition
      rw [tryUrls]
      generalize tryUrl env replies url maxRetries sent = run at hends ⊢
      obtain ⟨sent', out⟩ := run
      have hout : out = rpcOutcome env (replies i) := hends.outcome
      cases out with
      | ok v =>
          refine ⟨i, hends, ?_⟩
          rw [position, ← hout]
          split
          next h => cases h
          next => rfl
      | error err =>
          have hnext := hmoves err hout.symm
          cases rest with
          | nil =>
              have hend : ¬ before.length + 1 < urls.length := by simp [hsplit]
              rw [if_neg hend] at hnext
              exact ⟨i, hends, hnext⟩
          | cons url' rest =>
              have hmore : before.length + 1 < urls.length := by simp [hsplit]
              have hlast : sent'.length = i + 1 := hends.last
              rw [if_pos hmore, ← hlast] at hnext
              have hsplit' : urls = (before ++ [url]) ++ url' :: rest := by simp [hsplit]
              exact ih hsplit' (List.cons_ne_nil _ _) hends.sent (by simpa using hnext)

/-- A call ends with the outcome of its last request. -/
theorem rpcCall_runs (hurls : urls ≠ []) :
    ∃ i, EndsAt env replies maxRetries urls (rpcCall env replies maxRetries urls) i ∧
      position env replies maxRetries urls.length (i + 1) = none := by
  have hstart : position env replies maxRetries urls.length ([] : List String).length =
      some (([] : List String).length, 0) := by
    simp [position, List.length_pos_iff.mpr hurls]
  have hnothing : Sent env replies maxRetries urls [] := fun i hi => absurd hi (Nat.not_lt_zero i)
  exact tryUrls_runs urls rfl hurls hnothing hstart

/-- A call is a correct retry loop just when no request that has a position gets a malformed
reply. -/
theorem rpcCall_correct_iff (env : RpcEnv) (replies : ℕ → RpcReply) (maxRetries : ℕ)
    (urls : List String) (hurls : urls ≠ []) :
    CorrectRetries env replies maxRetries urls ↔
      ∀ i p, position env replies maxRetries urls.length i = some p →
        ¬ Malformed env (replies i) := by
  have hruns : ∃ i, EndsAt env replies maxRetries urls (rpcCall env replies maxRetries urls) i ∧
      position env replies maxRetries urls.length (i + 1) = none := rpcCall_runs hurls
  obtain ⟨last, hends, hnone⟩ := hruns
  have hwithin : ∀ i p, position env replies maxRetries urls.length i = some p → i ≤ last := by
    intro i p hp
    by_contra hlt
    rw [position_none_of_le (by omega) hnone] at hp
    cases hp
  -- every request but the last one failed
  have hfailed : ∀ i < last, ∃ err, rpcOutcome env (replies i) = .error err := by
    intro i hi
    obtain ⟨p, hp, -⟩ := hends.sent (i + 1) (by rw [hends.last]; omega)
    exact (failed_of_position_succ hp).2
  constructor
  · intro h i p hp hmalformed
    have hout : rpcOutcome env (replies i) = .ok none :=
      outcome_ok_iff.mpr (Or.inr ⟨hmalformed, rfl⟩)
    have hi : i = last := by
      by_contra hne
      obtain ⟨err, herr⟩ := hfailed i (by have := hwithin i p hp; omega)
      rw [hout] at herr
      cases herr
    subst hi
    obtain ⟨j, -, w, -, hw⟩ := (h.resolves none).mp (hends.outcome.trans hout)
    cases hw
  · intro h
    refine ⟨?_, fun i => ?_, fun v => ?_, fun err herr => ?_⟩
    · obtain ⟨⟨u, a⟩, hp, -⟩ := hends.sent last (by rw [hends.last]; omega)
      obtain ⟨hu, ha, hi⟩ := position_bounds hp
      have hmul : (u + 1) * (maxRetries + 1) ≤ urls.length * (maxRetries + 1) :=
        Nat.mul_le_mul_right _ hu
      rw [Nat.succ_mul] at hmul
      rw [hends.last]
      omega
    · by_cases hi : i < last + 1
      · obtain ⟨p, hp, hsame⟩ := hends.sent i (by rw [hends.last]; omega)
        rw [hp, Option.bind_some, hsame]
      · rw [position_none_of_le (not_lt.mp hi) hnone, Option.bind_none, List.getElem?_eq_none]
        rw [hends.last]
        omega
    · rw [hends.outcome]
      constructor
      · intro hv
        obtain ⟨p, hp, -⟩ := hends.sent last (by rw [hends.last]; omega)
        rcases outcome_ok_iff.mp hv with ⟨w, hw, rfl⟩ | ⟨hmalformed, -⟩
        · exact ⟨last, by rw [hends.last]; omega, w, hw, rfl⟩
        · exact absurd hmalformed (h last p hp)
      · rintro ⟨i, hi, w, hw, rfl⟩
        have hout : rpcOutcome env (replies i) = .ok (some w) :=
          outcome_ok_iff.mpr (Or.inl ⟨w, hw, rfl⟩)
        have hlast : i = last := by
          by_contra hne
          rw [hends.last] at hi
          obtain ⟨err, herr⟩ := hfailed i (by omega)
          rw [hout] at herr
          cases herr
        rw [← hlast, hout]
    · exact ⟨last, hends.last, hends.outcome.symm.trans herr⟩

/-- The body of a success. -/
def successBody : String := "\x7b\"jsonrpc\":\"2.0\",\"id\":1,\"result\":\"0x1\"\x7d"

/-- An environment that knows that body. -/
def plainRpcEnv : RpcEnv where
  parse text :=
    if text = successBody then
      some (.obj [("jsonrpc", .str "2.0"), ("id", .num "1"), ("result", .str "0x1")])
    else none
  parse_empty := by decide
  toLowerCase s := String.ofList (s.toList.map Char.toLower)

/-- Too many requests at first, then a success. -/
def limitedReplies (i : ℕ) : RpcReply :=
  if i = 0 then .answered 429 "rate limited" else .answered 200 successBody

theorem rpcCall_correct_limited :
    CorrectRetries plainRpcEnv limitedReplies 2 ["https://rpc.example"] := by
  refine (rpcCall_correct_iff _ _ _ _ (by decide)).mpr ?_
  rintro i p - ⟨status, text, hreply, hok, -, hresult⟩
  unfold limitedReplies at hreply
  split_ifs at hreply with hi
  · obtain ⟨rfl, rfl⟩ : 429 = status ∧ "rate limited" = text := by simpa using hreply
    exact absurd hok (by decide)
  · obtain ⟨rfl, rfl⟩ : 200 = status ∧ successBody = text := by simpa using hreply
    exact absurd hresult (by decide)

/-- An empty body that HTTP calls ok resolves with `undefined`. -/
theorem empty_body_resolves :
    rpcCall plainRpcEnv (fun _ => .answered 200 "") 2 ["https://rpc.example"] =
        (["https://rpc.example"], .ok none) ∧
      ¬ CorrectRetries plainRpcEnv (fun _ => .answered 200 "") 2 ["https://rpc.example"] := by
  have hrun : rpcCall plainRpcEnv (fun _ => .answered 200 "") 2 ["https://rpc.example"] =
      (["https://rpc.example"], .ok none) := rfl
  refine ⟨hrun, fun h => ?_⟩
  obtain ⟨i, -, w, -, hw⟩ := (h.resolves none).mp (congrArg Prod.snd hrun)
  cases hw

end OpenUnion
