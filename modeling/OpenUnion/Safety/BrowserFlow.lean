import OpenUnion.Code.BrowserFlow
import OpenUnion.Interleave.Dialogue

/-!
# The browser flow stays on confirmed pages

After every command that may have moved the page the worker asks for the location and
checks its origin before it does anything else on the page.  Policy errors stop the flow,
whatever it says about errors; errors of the commands do not.

* `flow_fail_closed`: as long as the commands that may move the page succeed and the page
  tells its location, nothing is done on a page that has not been confirmed since it may last
  have moved.
* `missing_location_ignored`: a flow in which the page tells no location, and is clicked on.
-/

namespace OpenUnion

open Interleave

/-- The commands that may move the page. -/
def OpenClaw.moves : OpenClaw → Bool
  | .openUrl _ | .navigate _ _ | .wait _ _ | .click _ _ | .press _ _ => true
  | _ => false

/-- The page a command acts on; asking for its location and closing it is no action. -/
def OpenClaw.actsOn : OpenClaw → Option String
  | .navigate _ t | .wait _ t | .click _ t | .typeText _ _ t | .press _ t => some t
  | .snapshot _ t | .screenshot _ t | .evaluate _ _ t => some t
  | .createProfile _ | .start | .openUrl _ | .evaluateLocation _ | .close _ => none

/-- An exchange of the flow. -/
abbrev FlowExchange := Exchange FlowStmt FlowStmt.Val

/-- The command of a statement. -/
def FlowStmt.command? : FlowStmt → Option OpenClaw
  | .openclaw command => some command
  | _ => none

/-- The location a page has answered; empty if it has not. -/
def located (env : WorkerEnv) : Except (String × String) String → String
  | .ok stdout =>
      match parseJsonFromStdout env stdout with
      | .ok j => j.stringAt "result"
      | .error _ => ""
  | .error _ => ""

/-- The origin of a location is allowed. -/
def isAllowedLocation (env : WorkerEnv) (allowedOrigins : List String) (href : String) : Bool :=
  (urlOriginStrict env href).toOption.any fun origin =>
    originAllowedByWorkerPolicy env origin && decide (origin ∈ allowedOrigins)

/-- The page an exchange confirms: it has answered with an allowed location. -/
def confirmed (env : WorkerEnv) (allowedOrigins : List String) : FlowExchange → Option String
  | ⟨.openclaw (.evaluateLocation t), r⟩ =>
      if located env r ≠ "" ∧ isAllowedLocation env allowedOrigins (located env r) = true then some t
      else none
  | _ => none

/-- Between an exchange that may move the page and a later one that acts on it, the page has
been confirmed. -/
def FailClosed (env : WorkerEnv) (allowedOrigins : List String) (d : List FlowExchange) : Prop :=
  ∀ before x between y after t, d = before ++ x :: between ++ y :: after →
    x.1.command?.any OpenClaw.moves = true → y.1.command?.bind OpenClaw.actsOn = some t →
      ∃ z ∈ between, confirmed env allowedOrigins z = some t

/-- A command has succeeded. -/
def succeeded : Except (String × String) String → Bool
  | .ok _ => true
  | .error _ => false

/-- The commands that move a page succeed, and a page asked for its location answers with a
URL. -/
def Conclusive (env : WorkerEnv) : FlowExchange → Prop
  | ⟨.openclaw (.navigate _ _), r⟩ | ⟨.openclaw (.wait _ _), r⟩
  | ⟨.openclaw (.click _ _), r⟩ | ⟨.openclaw (.press _ _), r⟩ => succeeded r = true
  | ⟨.openclaw (.evaluateLocation _), r⟩ =>
      located env r ≠ "" ∧ (env.parseUrl (located env r)).isSome = true
  | _ => True

instance (env : WorkerEnv) : DecidablePred (Conclusive env) := fun x => by
  unfold Conclusive
  split <;> infer_instance

/-- The page that has been confirmed since it may last have moved. -/
def pageWatch (env : WorkerEnv) (allowedOrigins : List String) :
    Watch FlowStmt FlowStmt.Val (Option String) where
  may m s := ∀ t, s.command?.bind OpenClaw.actsOn = some t → m = some t
  after m x :=
    if x.1.command?.any OpenClaw.moves then none
    else (confirmed env allowedOrigins x).or m

section Watching

variable {env : WorkerEnv} {allowed : List String} {m : Option String} {t : String}

/-- A confirmed page has been confirmed by one of the exchanges, or before them. -/
theorem confirmed_of_run {xs : List FlowExchange}
    (h : (pageWatch env allowed).run m xs = some t) :
    m = some t ∨ ∃ z ∈ xs, confirmed env allowed z = some t := by
  induction xs generalizing m with
  | nil => exact Or.inl h
  | cons x xs ih =>
      obtain hafter | ⟨z, hz, hconfirmed⟩ := ih h
      · change (if x.1.command?.any OpenClaw.moves then none
          else (confirmed env allowed x).or m) = some t at hafter
        split_ifs at hafter
        rcases Option.or_eq_some_iff.mp hafter with hx | ⟨-, hm⟩
        · exact Or.inr ⟨x, List.mem_cons_self, hx⟩
        · exact Or.inl hm
      · exact Or.inr ⟨z, List.mem_cons_of_mem _ hz, hconfirmed⟩

/-- A dialogue that passes the watch is fail-closed. -/
theorem failClosed_of_passes {d : List FlowExchange} (h : (pageWatch env allowed).Passes m d) :
    FailClosed env allowed d := by
  rintro before x between y after t rfl hmoves hacts
  have hpasses : (pageWatch env allowed).Passes m ((before ++ [x]) ++ (between ++ y :: after)) := by
    simpa using h
  have hrun : (pageWatch env allowed).run m (before ++ [x]) = none := by
    rw [Watch.run_append]
    change (if x.1.command?.any OpenClaw.moves then none else _) = none
    rw [hmoves, if_pos rfl]
  have hrest := (Watch.passes_append.mp hpasses).2
  rw [hrun] at hrest
  obtain hnone | hconfirmed := confirmed_of_run (hrest.may t hacts)
  · exact absurd hnone (by simp)
  · exact hconfirmed

end Watching

section Policy

variable {env : WorkerEnv} {allowed : List String} {what href message : String}

/-- The errors of the origin check stop the flow, but for a text that is no URL. -/
theorem isFatal_of_assertUrlAllowed (hurl : (env.parseUrl href).isSome = true)
    (h : assertUrlAllowed env href allowed what = .error message) : isFatal message = true := by
  obtain ⟨u, hu⟩ := Option.isSome_iff_exists.mp hurl
  unfold assertUrlAllowed urlOriginStrict at h
  rw [hu] at h
  dsimp only at h
  split at h
  · rename_i hstrict
    split_ifs at hstrict
    all_goals
      obtain rfl := Except.error.inj h
      obtain rfl := Except.error.inj hstrict
      decide
  · split_ifs at h
    all_goals
      obtain rfl := Except.error.inj h
      simp [isFatal, startsWith]

/-- A location that passes the check has an allowed origin. -/
theorem isAllowedLocation_of_assertUrlAllowed {origin : String} (hstrict : env.strict = true)
    (h : assertUrlAllowed env href allowed what = .ok origin) :
    isAllowedLocation env allowed href = true := by
  unfold assertUrlAllowed at h
  cases horigin : urlOriginStrict env href with
  | error e => simp [horigin] at h
  | ok o =>
      simp only [horigin] at h
      split_ifs at h with hpolicy hmissing hforeign
      have hmem : o ∈ allowed := by
        by_contra hmem
        exact hforeign ⟨hstrict, hmem⟩
      simpa [isAllowedLocation, horigin, Except.toOption, hmem] using hpolicy

theorem isFatal_of_refuseLogin (h : refuseLogin env href = .error message) :
    isFatal message = true := by
  unfold refuseLogin at h
  split_ifs at h
  obtain rfl := Except.error.inj h
  simp [isFatal, startsWith]

end Policy

section Rules

variable {env : WorkerEnv} {allowed : List String} {m : Option String} {t what : String}
variable {α : Type} {ok : α → Option String → Prop} {thrown : String → Option String → Prop}

/-- A program of the flow, under the watch and with conclusive replies. -/
abbrev Flow.Minds {α : Type} (env : WorkerEnv) (allowed : List String)
    (ok : α → Option String → Prop) (thrown : String → Option String → Prop) (p : Flow α)
    (m : Option String) : Prop :=
  Prog.Minds (pageWatch env allowed) (Conclusive env) ok thrown p m

theorem minds_orMessage {r : Except String α} (hok : ∀ a, r = .ok a → ok a m)
    (hthrown : ∀ message, r = .error message → thrown message m) :
    Flow.Minds env allowed ok thrown (orMessage r) m := by
  cases r with
  | ok a => exact hok a rfl
  | error message => exact hthrown message rfl

/-- Only an answer to the question for a location confirms a page. -/
theorem confirmed_eq_none {x : FlowExchange} (h : ∀ u, x.1 ≠ .openclaw (.evaluateLocation u)) :
    confirmed env allowed x = none := by
  obtain ⟨s, r⟩ := x
  cases s with
  | openclaw command =>
      cases command with
      | evaluateLocation u => exact absurd rfl (h u)
      | _ => rfl
  | _ => rfl

/-- An exchange that neither moves a page nor confirms one. -/
theorem pageWatch_after {x : FlowExchange} (hmoves : x.1.command?.any OpenClaw.moves = false)
    (h : ∀ u, x.1 ≠ .openclaw (.evaluateLocation u)) : (pageWatch env allowed).after m x = m := by
  change (if x.1.command?.any OpenClaw.moves then none else (confirmed env allowed x).or m) = m
  rw [hmoves, confirmed_eq_none h]
  rfl

/-- Asking for the location of a page does not move it. -/
theorem pageWatch_located {u : String} {r : Except (String × String) String} :
    (pageWatch env allowed).after m ⟨.openclaw (.evaluateLocation u), r⟩ =
      (confirmed env allowed ⟨.openclaw (.evaluateLocation u), r⟩).or m := rfl

/-- A statement that is no command leaves the page as it is. -/
theorem minds_quiet {s : FlowStmt} {ok : s.Val → Option String → Prop} (hs : s.command? = none)
    (hok : ∀ r, ok r m) : Flow.Minds env allowed ok thrown (doFlow s) m := by
  refine minds_perform (fun t ht => ?_) fun r _ => ?_
  · rw [hs] at ht
    exact absurd ht (by simp)
  · rw [pageWatch_after (by rw [hs]; rfl)]
    · exact hok r
    · rintro u rfl
      exact absurd hs (by simp [FlowStmt.command?])

/-- The reply of a command, whatever it is. -/
theorem minds_runOpenClaw {command : OpenClaw} {ok : String → Option String → Prop}
    (hacts : ∀ u, command.actsOn = some u → m = some u)
    (hok : ∀ stdout, Conclusive env ⟨.openclaw command, .ok stdout⟩ →
      ok stdout ((pageWatch env allowed).after m ⟨.openclaw command, .ok stdout⟩))
    (hthrown : ∀ failure message, Conclusive env ⟨.openclaw command, .error failure⟩ →
      thrown message ((pageWatch env allowed).after m ⟨.openclaw command, .error failure⟩)) :
    Flow.Minds env allowed ok thrown (runOpenClaw command) m := by
  refine ⟨hacts, fun r hr => ?_⟩
  cases r with
  | ok stdout => exact hok stdout hr
  | error failure => exact hthrown failure _ hr

/-- A command that neither moves a page nor asks for its location, on a confirmed page. -/
theorem minds_use {command : OpenClaw} (hmoves : command.moves = false)
    (hlocation : ∀ u, command ≠ .evaluateLocation u)
    (hacts : ∀ u, command.actsOn = some u → m = some u) :
    Flow.Minds env allowed (fun _ m' => m' = m) (fun _ m' => m' = m) (runOpenClaw command) m := by
  have hafter : ∀ r, (pageWatch env allowed).after m ⟨.openclaw command, r⟩ = m := fun r =>
    pageWatch_after hmoves fun u hu => hlocation u (FlowStmt.openclaw.inj hu)
  exact minds_runOpenClaw hacts (fun _ _ => hafter _) fun _ _ _ => hafter _

/-- A command that moves a confirmed page succeeds. -/
theorem minds_move {command : OpenClaw} (hacts : ∀ u, command.actsOn = some u → m = some u)
    (hsucceeds : ∀ failure, ¬ Conclusive env ⟨.openclaw command, .error failure⟩) :
    Flow.Minds env allowed (fun _ _ => True) thrown (runOpenClaw command) m :=
  minds_runOpenClaw hacts (fun _ _ => trivial) fun failure _ h => absurd h (hsucceeds failure)

/-- What the location of a page means for the watch. -/
def Located (env : WorkerEnv) (allowed : List String) (t href : String) (m : Option String) :
    Prop :=
  href ≠ "" ∧ (env.parseUrl href).isSome = true ∧
    (isAllowedLocation env allowed href = true → m = some t)

/-- A page that is asked for its location tells it. -/
theorem minds_locate :
    Flow.Minds env allowed (Located env allowed t) (fun message _ => isFatal message = true)
      (getCurrentPageUrl env t) m := by
  have hask : Flow.Minds env allowed
      (fun stdout m' => Located env allowed t (located env (.ok stdout)) m')
      (fun message _ => isFatal message = true) (runOpenClaw (.evaluateLocation t)) m := by
    refine minds_runOpenClaw (fun u hu => absurd hu (by simp [OpenClaw.actsOn])) ?_ ?_
    · intro stdout h
      refine ⟨h.1, h.2, fun hallowed => ?_⟩
      have hconfirmed :
          confirmed env allowed ⟨.openclaw (.evaluateLocation t), .ok stdout⟩ = some t :=
        if_pos ⟨h.1, hallowed⟩
      rw [pageWatch_located, hconfirmed]
      rfl
    · intro failure message h
      exact absurd rfl h.1
  refine Prog.Minds.bind hask fun stdout m' h => ?_
  have hparse : Flow.Minds env allowed
      (fun j m'' => Located env allowed t (j.stringAt "result") m'')
      (fun message _ => isFatal message = true)
      (orMessage (parseJsonFromStdout env stdout)) m' := by
    refine minds_orMessage ?_ ?_
    · intro j hj
      simpa [located, hj] using h
    · intro message hmessage
      exact absurd h.1 (by simp [located, hmessage])
  exact Prog.Minds.bind hparse fun j m'' h => h

/-- The page policy confirms the page, or stops the flow. -/
theorem minds_enforcePagePolicy (hstrict : env.strict = true) :
    Flow.Minds env allowed (fun _ m' => m' = some t) (fun message _ => isFatal message = true)
      (enforcePagePolicy env t allowed what) m := by
  refine Prog.Minds.bind minds_locate fun href m' h => ?_
  obtain ⟨hhref, hurl, hconfirmed⟩ := h
  rw [if_neg hhref]
  have hassert : Flow.Minds env allowed (fun _ m'' => m'' = some t)
      (fun message _ => isFatal message = true)
      (orMessage (assertUrlAllowed env href allowed what)) m' :=
    minds_orMessage
      (fun origin horigin => hconfirmed (isAllowedLocation_of_assertUrlAllowed hstrict horigin))
      fun message hmessage => isFatal_of_assertUrlAllowed hurl hmessage
  refine Prog.Minds.bind hassert fun origin m'' hm => ?_
  have hlogin : Flow.Minds env allowed (fun _ m => m = some t)
      (fun message _ => isFatal message = true) (orMessage (refuseLogin env href)) m'' :=
    minds_orMessage (fun _ _ => hm) fun message hmessage => isFatal_of_refuseLogin hmessage
  exact Prog.Minds.bind hlogin fun _ _ hm => hm

end Rules

section Steps

variable {c : FlowContext} {i : Nat} {op : String} {step : FlowStep} {st : FlowState}

/-- A step leaves the flow on a confirmed page, and so does an error it goes on after. -/
@[irreducible] def FlowContext.Steady {α : Type} (c : FlowContext) (p : Flow α) : Prop :=
  Flow.Minds c.env c.allowedOrigins (fun _ m => m = some c.targetId)
    (fun message m => isFatal message = true ∨ m = some c.targetId) p (some c.targetId)

theorem FlowContext.Steady.bind {α β : Type} {p : Flow α} {f : α → Flow β} (h : c.Steady p)
    (hf : ∀ a, c.Steady (f a)) : c.Steady (p >>= f) := by
  unfold FlowContext.Steady at *
  refine Prog.Minds.bind h fun a m hm => ?_
  subst hm
  exact hf a

theorem steady_pure {α : Type} (a : α) : c.Steady (pure a : Flow α) := by
  unfold FlowContext.Steady
  exact rfl

theorem steady_throw {α : Type} (message : String) : c.Steady (throw message : Flow α) := by
  unfold FlowContext.Steady
  exact Or.inr rfl

theorem steady_ite {α : Type} {P : Prop} {_ : Decidable P} {p q : Flow α} (hp : c.Steady p)
    (hq : c.Steady q) : c.Steady (if P then p else q) := by
  by_cases hP : P
  · rwa [if_pos hP]
  · rwa [if_neg hP]

theorem steady_orMessage {α : Type} (r : Except String α) : c.Steady (orMessage r) := by
  unfold FlowContext.Steady
  exact minds_orMessage (fun _ _ => rfl) fun _ _ => Or.inr rfl

theorem steady_quiet {s : FlowStmt} (hs : s.command? = none) : c.Steady (doFlow s) := by
  unfold FlowContext.Steady
  exact minds_quiet hs fun _ => rfl

theorem steady_use {command : OpenClaw} (hmoves : command.moves = false)
    (hlocation : ∀ u, command ≠ .evaluateLocation u)
    (hacts : command.actsOn = some c.targetId) : c.Steady (runOpenClaw command) := by
  unfold FlowContext.Steady
  exact Prog.Minds.mono (minds_use hmoves hlocation fun _ hu => hacts.symm.trans hu)
    (fun _ _ h => h) fun _ _ h => Or.inr h

theorem minds_enforce (hstrict : c.env.strict = true) {what : String} {m : Option String} :
    Flow.Minds c.env c.allowedOrigins (fun _ m => m = some c.targetId)
      (fun message _ => isFatal message = true) (c.enforce what) m :=
  Prog.Minds.bind (minds_enforcePagePolicy hstrict) fun _ _ hm => hm

/-- A command that moves the page, and the policy after it. -/
theorem steady_move (hstrict : c.env.strict = true) {command : OpenClaw} {what : String}
    (hacts : command.actsOn = some c.targetId)
    (hsucceeds : ∀ failure, ¬ Conclusive c.env ⟨.openclaw command, .error failure⟩) :
    c.Steady (runOpenClaw command >>= fun _ => c.enforce what) := by
  unfold FlowContext.Steady
  exact Prog.Minds.bind (minds_move (fun _ hu => hacts.symm.trans hu) hsucceeds) fun _ _ _ =>
    Prog.Minds.mono (minds_enforce hstrict) (fun _ _ hm => hm) fun _ _ h => Or.inl h

theorem steady_checkDeadline {deadlineMs : Option Nat} : c.Steady (checkDeadline deadlineMs) := by
  unfold checkDeadline
  exact FlowContext.Steady.bind (steady_quiet rfl) fun now => steady_ite (steady_throw _) (steady_pure _)

theorem steady_stepRef : c.Steady (stepRef c.env c.targetId step) := by
  unfold stepRef
  refine FlowContext.Steady.bind ?_ fun ref => ?_
  · unfold refFor
    refine steady_ite (steady_pure _) ?_
    unfold resolveRefViaSnapshot
    · refine FlowContext.Steady.bind (steady_use rfl (fun _ h => OpenClaw.noConfusion h) rfl)
        fun stdout => ?_
      refine FlowContext.Steady.bind (steady_orMessage _) fun j => ?_
      refine FlowContext.Steady.bind (steady_quiet rfl) fun text => ?_
      exact FlowContext.Steady.bind (steady_orMessage _) fun text => steady_pure _
  · cases given ref with
    | some ref => exact steady_pure _
    | none => exact steady_throw _

theorem steady_storeScreenshot {outPath filename label : String} :
    c.Steady (storeScreenshot outPath filename label) := by
  unfold storeScreenshot
  refine steady_ite (steady_throw _) ?_
  refine FlowContext.Steady.bind (steady_quiet rfl) fun read => ?_
  refine FlowContext.Steady.bind (steady_orMessage _) fun bytes => ?_
  cases detectPngOrJpeg bytes with
  | none => exact steady_throw _
  | some found => exact FlowContext.Steady.bind (steady_quiet rfl) fun _ => steady_orMessage _

theorem steady_takeScreenshot {fullPage : Bool} {filename label : String} :
    c.Steady (takeScreenshot c.env fullPage c.targetId filename label) := by
  unfold takeScreenshot
  exact FlowContext.Steady.bind (steady_use rfl (fun _ h => OpenClaw.noConfusion h) rfl) fun _ =>
    steady_storeScreenshot

theorem steady_navigateStep (hstrict : c.env.strict = true) :
    c.Steady (c.navigateStep i op step) := by
  unfold FlowContext.navigateStep
  refine FlowContext.Steady.bind (steady_orMessage _) fun _ => ?_
  refine FlowContext.Steady.bind (steady_quiet rfl) fun _ => ?_
  exact steady_move hstrict rfl fun _ h => Bool.noConfusion h

theorem steady_waitStep (hstrict : c.env.strict = true) : c.Steady (c.waitStep i step) := by
  unfold FlowContext.waitStep
  refine FlowContext.Steady.bind (steady_orMessage _) fun what => ?_
  refine FlowContext.Steady.bind (steady_quiet rfl) fun _ => ?_
  exact steady_move hstrict rfl fun _ h => Bool.noConfusion h

theorem steady_clickStep (hstrict : c.env.strict = true) : c.Steady (c.clickStep i step) := by
  unfold FlowContext.clickStep
  refine FlowContext.Steady.bind steady_stepRef fun ref => ?_
  refine FlowContext.Steady.bind (steady_quiet rfl) fun _ => ?_
  exact steady_move hstrict rfl fun _ h => Bool.noConfusion h

theorem steady_typeStep : c.Steady (c.typeStep i op step) := by
  unfold FlowContext.typeStep
  refine FlowContext.Steady.bind steady_stepRef fun ref => ?_
  refine FlowContext.Steady.bind (steady_orMessage _) fun val => ?_
  refine FlowContext.Steady.bind (steady_quiet rfl) fun _ => ?_
  exact FlowContext.Steady.bind (steady_use rfl (fun _ h => OpenClaw.noConfusion h) rfl)
    fun _ => steady_pure _

theorem steady_pressStep (hstrict : c.env.strict = true) : c.Steady (c.pressStep i step) := by
  unfold FlowContext.pressStep
  refine FlowContext.Steady.bind (steady_quiet rfl) fun _ => ?_
  exact steady_move hstrict rfl fun _ h => Bool.noConfusion h

theorem steady_screenshotStep : c.Steady (c.screenshotStep i step) := by
  unfold FlowContext.screenshotStep
  exact FlowContext.Steady.bind (steady_quiet rfl) fun _ => steady_takeScreenshot

theorem steady_extractStep : c.Steady (c.extractStep i step) := by
  unfold FlowContext.extractStep
  refine FlowContext.Steady.bind steady_stepRef fun ref => ?_
  refine steady_ite (steady_throw _) ?_
  · refine FlowContext.Steady.bind (steady_orMessage _) fun fn => ?_
    refine FlowContext.Steady.bind (steady_quiet rfl) fun _ => ?_
    refine FlowContext.Steady.bind (steady_use rfl (fun _ h => OpenClaw.noConfusion h) rfl)
      fun stdout => ?_
    exact FlowContext.Steady.bind (steady_orMessage _) fun j => steady_pure _

/-- Every operation leaves the flow on a confirmed page. -/
theorem steady_runStep (hstrict : c.env.strict = true) : c.Steady (c.runStep i op step st) := by
  unfold FlowContext.runStep
  refine FlowContext.Steady.bind steady_checkDeadline fun _ => ?_
  refine steady_ite (FlowContext.Steady.bind (steady_navigateStep hstrict) fun _ => steady_pure _) ?_
  refine steady_ite (FlowContext.Steady.bind (steady_waitStep hstrict) fun _ => steady_pure _) ?_
  refine steady_ite (FlowContext.Steady.bind (steady_clickStep hstrict) fun _ => steady_pure _) ?_
  refine steady_ite (FlowContext.Steady.bind steady_typeStep fun _ => steady_pure _) ?_
  refine steady_ite (FlowContext.Steady.bind (steady_pressStep hstrict) fun _ => steady_pure _) ?_
  refine steady_ite (FlowContext.Steady.bind steady_screenshotStep fun _ => steady_pure _) ?_
  refine steady_ite (FlowContext.Steady.bind steady_extractStep fun _ => steady_pure _) ?_
  exact FlowContext.Steady.bind (steady_quiet rfl) fun _ => steady_pure _

end Steps

section Flows

variable {c : FlowContext} {env : WorkerEnv} {allowed : List String} {m : Option String}

/-- The handler of a step goes on only on a confirmed page. -/
theorem minds_stepError {i : Nat} {op message : String}
    (h : isFatal message = true ∨ m = some c.targetId) :
    Flow.Minds c.env c.allowedOrigins (fun _ m => m = some c.targetId) (fun _ _ => True)
      (stepError i op message) m := by
  unfold stepError
  have hlog : Flow.Minds c.env c.allowedOrigins (fun _ m' => m' = m) (fun _ _ => True)
      (pushLog ("step " ++ toString i ++ ": ERROR op=" ++ op ++ " err=" ++ sliced message 500)) m :=
    minds_quiet rfl fun _ => rfl
  refine Prog.Minds.bind hlog fun _ m' hm => ?_
  by_cases hfatal : isFatal message = true
  · rw [if_pos hfatal]
    exact trivial
  · rw [if_neg hfatal]
    exact hm.trans (h.resolve_left hfatal)

/-- One step with its handler. -/
theorem minds_step (hstrict : c.env.strict = true) {i : Nat} {op : String} {step : FlowStep}
    {st : FlowState} :
    Flow.Minds c.env c.allowedOrigins (fun _ m => m = some c.targetId) (fun _ _ => True)
      (((c.runStep i op step st).bind fun st' => .ret (some st')).orElse (stepError i op))
      (some c.targetId) := by
  have hstep : Flow.Minds c.env c.allowedOrigins (fun _ m => m = some c.targetId)
      (fun message m => isFatal message = true ∨ m = some c.targetId)
      (c.runStep i op step st) (some c.targetId) := by
    have h : c.Steady (c.runStep i op step st) := steady_runStep hstrict
    unfold FlowContext.Steady at h
    exact h
  exact Prog.Minds.orElse (Prog.Minds.bind hstep fun _ _ hm => hm) fun _ _ h => minds_stepError h

/-- The loop ends on a confirmed page. -/
theorem minds_flowSteps (hstrict : c.env.strict = true) {continueOnError : Bool}
    {steps : List FlowStep} {i : Nat} {st : FlowState} :
    Flow.Minds c.env c.allowedOrigins (fun _ m => m = some c.targetId) (fun _ _ => True)
      (flowSteps c continueOnError i steps st) (some c.targetId) := by
  induction steps generalizing i st with
  | nil => exact rfl
  | cons step steps ih =>
      rw [flowSteps]
      by_cases hop : c.env.toLowerCase (trimmed step.op) = ""
      · rw [if_pos hop]
        exact ih
      · rw [if_neg hop]
        refine Prog.Minds.bind (minds_step hstrict) fun o m hm => ?_
        subst hm
        cases o with
        | some st' => exact ih
        | none =>
            cases continueOnError with
            | true => exact ih
            | false => exact rfl

/-- Nothing is asked of the end of a program. -/
abbrev Careful {α : Type} (env : WorkerEnv) (allowed : List String) (p : Flow α)
    (m : Option String) : Prop :=
  Flow.Minds env allowed (fun _ _ => True) (fun _ _ => True) p m

theorem careful_bind {α β : Type} {p : Flow α} {f : α → Flow β} (h : Careful env allowed p m)
    (hf : ∀ a m, Careful env allowed (f a) m) : Careful env allowed (p >>= f) m :=
  Prog.Minds.bind h fun a m _ => hf a m

theorem careful_ite {α : Type} {P : Prop} {_ : Decidable P} {p q : Flow α}
    (hp : Careful env allowed p m) (hq : Careful env allowed q m) :
    Careful env allowed (if P then p else q) m := by
  by_cases hP : P
  · rwa [if_pos hP]
  · rwa [if_neg hP]

theorem FlowContext.Steady.careful {α : Type} {p : Flow α} (h : c.Steady p) :
    Careful c.env c.allowedOrigins p (some c.targetId) := by
  unfold FlowContext.Steady at h
  exact Prog.Minds.mono h (fun _ _ _ => trivial) fun _ _ _ => trivial

/-- The final screenshot. -/
def FlowContext.finish (c : FlowContext) (st : FlowState) : Flow FlowState :=
  checkDeadline c.deadlineMs >>= fun _ =>
    takeScreenshot c.env true c.targetId "screenshot" "universal_screenshot" >>= fun stored =>
      pure { st with artifacts := st.artifacts ++ [stored] }

theorem steady_finish {st : FlowState} : c.Steady (c.finish st) := by
  unfold FlowContext.finish
  exact FlowContext.Steady.bind steady_checkDeadline fun _ =>
    FlowContext.Steady.bind steady_takeScreenshot fun _ => steady_pure _

/-- The steps of a flow and its final screenshot, from any page. -/
theorem careful_flowBody (hstrict : c.env.strict = true) {flow : BrowserFlow} :
    Careful c.env c.allowedOrigins (c.flowBody flow) m := by
  have henforce : Flow.Minds c.env c.allowedOrigins (fun _ m => m = some c.targetId)
      (fun _ _ => True) (c.enforce "after_open") m :=
    Prog.Minds.mono (minds_enforce hstrict) (fun _ _ hm => hm) fun _ _ _ => trivial
  refine Prog.Minds.bind henforce fun _ m' hm => ?_
  subst hm
  refine Prog.Minds.bind (minds_flowSteps hstrict) fun st m' hm => ?_
  subst hm
  by_cases hdone : (st.artifacts.any fun a =>
      decide (a.kind = "screenshot" ∧ a.label = "universal_screenshot")) = true
  · rw [if_pos hdone]
    exact trivial
  · rw [if_neg hdone]
    exact steady_finish.careful

/-- Closing the page is always in order. -/
theorem careful_withClose {α : Type} {t : String} {body : Flow α}
    (h : Careful env allowed body m) : Careful env allowed (withClose t body) m := by
  have hbody : Careful env allowed
      ((body.bind fun a => .ret (Except.ok a)).orElse fun message => .ret (.error message)) m :=
    Prog.Minds.orElse (Prog.Minds.bind h fun _ _ _ => trivial) fun _ _ _ => trivial
  refine Prog.Minds.bind hbody fun r m' _ => ?_
  refine ⟨fun u hu => absurd hu (by simp [FlowStmt.command?, OpenClaw.actsOn]), fun _ _ => ?_⟩
  exact minds_orMessage (fun _ _ => trivial) fun _ _ => trivial

/-- A statement that acts on no page. -/
theorem careful_doFlow {s : FlowStmt} (hs : s.command?.bind OpenClaw.actsOn = none) :
    Careful env allowed (doFlow s) m :=
  minds_perform (fun t ht => absurd (hs.symm.trans ht) (by simp)) fun _ _ => trivial

theorem careful_orMessage {α : Type} (r : Except String α) : Careful env allowed (orMessage r) m :=
  minds_orMessage (fun _ _ => trivial) fun _ _ => trivial

/-- A command that acts on no page. -/
theorem careful_runOpenClaw {command : OpenClaw} (h : command.actsOn = none) :
    Careful env allowed (runOpenClaw command) m :=
  minds_runOpenClaw (fun _ hu => absurd (h.symm.trans hu) (by simp)) (fun _ _ => trivial)
    fun _ _ _ => trivial

theorem careful_checkDeadline {deadlineMs : Option Nat} :
    Careful env allowed (checkDeadline deadlineMs) m := by
  unfold checkDeadline
  exact careful_bind (careful_doFlow rfl) fun now _ => careful_ite trivial trivial

theorem careful_ensureReady : Careful env allowed (ensureOpenClawBrowserReady env) m := by
  unfold ensureOpenClawBrowserReady
  refine careful_ite trivial ?_
  refine careful_bind (careful_doFlow rfl) fun _ m => ?_
  refine careful_bind ?_ fun _ _ => trivial
  exact Prog.Minds.orElse (careful_runOpenClaw rfl) fun _ _ _ => trivial

/-- The flow, once the page is open. -/
def openedFlow (env : WorkerEnv) (input : FlowInput) (startUrl targetId : String) :
    Flow FlowState :=
  if targetId = "" then throw "openclaw_browser_open_missing_target_id"
  else
    withClose targetId
      (FlowContext.flowBody ⟨env, startUrl, input.origins env, input.deadlineMs, targetId⟩
        input.flow) >>= fun st =>
      doFlow (.uploadLog st.extracted) >>= fun r => orMessage r >>= fun stored =>
        pure { st with artifacts := st.artifacts ++ [stored] }

theorem careful_openedFlow (hstrict : env.strict = true) {input : FlowInput}
    {startUrl targetId : String} :
    Careful env (input.origins env) (openedFlow env input startUrl targetId) m := by
  unfold openedFlow
  refine careful_ite trivial ?_
  let c : FlowContext := ⟨env, startUrl, input.origins env, input.deadlineMs, targetId⟩
  have hbody : Careful env (input.origins env) (withClose targetId (c.flowBody input.flow)) m :=
    careful_withClose (careful_flowBody (c := c) hstrict)
  refine careful_bind hbody fun st m => ?_
  refine careful_bind (careful_doFlow rfl) fun r m => ?_
  exact careful_bind (careful_orMessage r) fun stored _ => trivial

/-- The whole module. -/
theorem careful_module (hstrict : env.strict = true) {input : FlowInput} :
    Careful env (input.origins env) (runOpenClawBrowserFlowModule env input) m := by
  unfold runOpenClawBrowserFlowModule
  refine careful_ite trivial ?_
  refine careful_bind careful_ensureReady fun _ m => ?_
  refine careful_bind careful_checkDeadline fun _ m => ?_
  refine careful_bind (careful_orMessage _) fun _ m => ?_
  refine careful_bind (careful_doFlow rfl) fun _ m => ?_
  refine careful_bind (careful_runOpenClaw rfl) fun stdout m => ?_
  refine careful_bind (careful_orMessage _) fun j m => ?_
  exact careful_openedFlow hstrict

/-- The exchanges of a run of the module with a partner. -/
def flowDialogue (env : WorkerEnv) (input : FlowInput) (partner : Partner FlowStmt FlowStmt.Val) :
    List FlowExchange :=
  ((runOpenClawBrowserFlowModule env input).converse partner []).1

/-- **The browser flow is fail-closed.**  Whatever the flow, the allowed origins and the
replies: as long as the commands that move the page succeed and the page tells its location
when asked, no command acts on a page that has not been confirmed since it may have moved. -/
theorem flow_fail_closed (env : WorkerEnv) (input : FlowInput)
    (partner : Partner FlowStmt FlowStmt.Val) (hstrict : env.strict = true)
    (hconclusive : ∀ x ∈ flowDialogue env input partner, Conclusive env x) :
    FailClosed env (input.origins env) (flowDialogue env input partner) :=
  failClosed_of_passes ((careful_module (m := none) hstrict).converse [] hconclusive).1

/-- An element between two positions. -/
theorem FailClosed.between {d : List FlowExchange} (h : FailClosed env allowed d) {i k : Nat}
    {x y : FlowExchange} {t : String} (hx : d[i]? = some x) (hy : d[i + 1 + k]? = some y)
    (hmoves : x.1.command?.any OpenClaw.moves = true)
    (hacts : y.1.command?.bind OpenClaw.actsOn = some t) :
    ∃ z ∈ (d.drop (i + 1)).take k, confirmed env allowed z = some t := by
  obtain ⟨hi, rfl⟩ := List.getElem?_eq_some_iff.mp hx
  obtain ⟨hk, rfl⟩ := List.getElem?_eq_some_iff.mp hy
  have hrest : d.drop (i + 1) =
      (d.drop (i + 1)).take k ++ d[i + 1 + k] :: d.drop (i + 1 + k + 1) := by
    have hdrop : (d.drop (i + 1)).drop k = d.drop (i + 1 + k) := List.drop_drop
    rw [← List.drop_eq_getElem_cons hk, ← hdrop, List.take_append_drop]
  have hsplit : d = d.take i ++ d[i] :: (d.drop (i + 1)).take k ++
      d[i + 1 + k] :: d.drop (i + 1 + k + 1) := by
    rw [List.append_assoc, List.cons_append, ← hrest, ← List.drop_eq_getElem_cons hi,
      List.take_append_drop]
  exact h (d.take i) d[i] ((d.drop (i + 1)).take k) d[i + 1 + k] (d.drop (i + 1 + k + 1)) t hsplit
    hmoves hacts

/-- A worker that knows one URL, and a page of it. -/
def demoEnv : WorkerEnv where
  strict := true
  noLogin := true
  denyOrigins := []
  allowOrigins := []
  extraAllowedOrigins := []
  valueEnvAllowlist := []
  processEnv _ := none
  browserProfile := "proofwork"
  browserReady := true
  snapshotPath := "/tmp/snapshot.role.txt"
  parseJson text :=
    if text = "\x7b\"targetId\":\"t1\"\x7d" then .ok (.obj [("targetId", .str "t1")])
    else if text = "\x7b\"result\":\"https://a.example/\"\x7d" then
      .ok (.obj [("result", .str "https://a.example/")])
    else if text = "\x7b\x7d" then .ok (.obj [])
    else .error "Unexpected token"
  parseUrl text :=
    if text = "https://a.example/" then some ⟨"https:", "", "", "https://a.example"⟩ else none
  toLowerCase s := String.ofList (s.toList.map Char.toLower)
  mediaPath _ := none

/-- A flow of one click. -/
def clickOnce : FlowInput where
  job := ⟨none, "https://a.example/", []⟩
  flow :=
    { steps := [⟨"click", none, none, none, none, some "e1", none, none, none, none, none, none,
        none, none, none, false⟩]
      maxSteps := none
      continueOnError := true }
  allowedOrigins := some ["https://a.example"]
  deadlineMs := none

/-- A browser whose page answers `location` with the text given, and takes no screenshots. -/
def answering (location : String) : Partner FlowStmt FlowStmt.Val
  | _, .now => 0
  | _, .openclaw (.openUrl _) => .ok "\x7b\"targetId\":\"t1\"\x7d"
  | _, .openclaw (.evaluateLocation _) => .ok location
  | _, .openclaw (.screenshot _ _) => .error ("1", "")
  | _, .openclaw _ => .ok ""
  | _, .readText _ => .error "ENOENT"
  | _, .readBytes _ => .error "ENOENT"
  | _, .log _ => ()
  | _, .uploadArtifact _ _ kind label _ => .ok ⟨kind, label⟩
  | _, .uploadLog _ => .ok ⟨"log", "browser_flow"⟩

theorem flow_fail_closed_click :
    FailClosed demoEnv (clickOnce.origins demoEnv)
      (flowDialogue demoEnv clickOnce (answering "\x7b\"result\":\"https://a.example/\"\x7d")) :=
  flow_fail_closed demoEnv clickOnce _ rfl (by decide)

/-- A page that does not tell its location is clicked on all the same. -/
theorem missing_location_ignored :
    demoEnv.strict = true ∧
      ¬ FailClosed demoEnv (clickOnce.origins demoEnv)
        (flowDialogue demoEnv clickOnce (answering "\x7b\x7d")) := by
  refine ⟨rfl, fun h => ?_⟩
  have hcheck :
      ((flowDialogue demoEnv clickOnce (answering "\x7b\x7d"))[2]?.any fun x =>
        x.1.command?.any OpenClaw.moves) = true ∧
      ((flowDialogue demoEnv clickOnce (answering "\x7b\x7d"))[2 + 1 + 3]?.any fun y =>
        decide (y.1.command?.bind OpenClaw.actsOn = some "t1")) = true ∧
      (((flowDialogue demoEnv clickOnce (answering "\x7b\x7d")).drop (2 + 1)).take 3).all fun z =>
        decide (confirmed demoEnv (clickOnce.origins demoEnv) z ≠ some "t1") := by
    decide
  obtain ⟨hmoves, hacts, hnone⟩ := hcheck
  obtain ⟨x, hx, hmoves⟩ := (Option.any_eq_true _ _).mp hmoves
  obtain ⟨y, hy, hacts⟩ := (Option.any_eq_true _ _).mp hacts
  obtain ⟨z, hz, hconfirmed⟩ := h.between hx hy hmoves (of_decide_eq_true hacts)
  exact of_decide_eq_true (List.all_eq_true.mp hnone z hz) hconfirmed

end Flows

end OpenUnion
