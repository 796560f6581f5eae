import OpenUnion.Code.Preflight
import OpenUnion.Safety.BrowserFlow
import OpenUnion.Safety.Descriptors

/-!
# Server and worker agree on browser flows

The grammar of browser flows is written three times: in the gate of the server, in the
preflight of the worker and in the module that runs the steps.  A refusal is structural if it
is about the form of a step and not about a URL, a login or a page.

* `worker_agrees`: of a flow the gate has accepted the worker takes the first steps, as many
  as `max_steps` says or 50; each of them that fits is carried out, and the worker refuses
  nothing for structural reasons if all of them fit.
* `long_flow_cut`: of an accepted flow with 51 steps the last one is never run.

A step fits unless it falls between the grammars: an `extract` step of kind `attribute` whose
attribute is missing, too long or starts with a digit, or a `value_env` of white space.
-/

namespace OpenUnion

open Interleave

/-- The messages that refuse a step for its form. -/
def isStructural (message : String) : Bool :=
  decide (message ∈ ["browser_flow_steps_exceeds_hard_cap", "extract_fn_forbidden",
    "invalid_extract_attribute"]) || startsWith message "value_env_not_allowed:"

/-- The server's gate is on, and accepts the descriptor; `value_env` is disallowed. -/
structure GateAccepts (server : RouteEnv) (d : Descriptor) : Prop where
  gate : server.browserFlowValidationGate = true
  valueEnv : server.browserFlowAllowValueEnv = false
  accepted : validateTaskDescriptorBrowserFlow server d = none

/-- The built-in functions of the worker are those of the server. -/
structure PreflightEnv.Matches (env : PreflightEnv) (server : RouteEnv) : Prop where
  lower : env.toLowerCase = server.toLowerCase
  number : env.finiteNumber = server.finiteNumber

/-- What is thrown is no structural refusal. -/
def Plain {α : Type} (r : Except String α) : Prop :=
  ∀ message, r = .error message → isStructural message = false

/-- What `JSON.parse` says of a text that is not JSON is none of the worker's own messages. -/
def WorkerEnv.PlainErrors (env : WorkerEnv) : Prop := ∀ text, Plain (env.parseJson text)

/-- What a failed reply says is none of the worker's own messages. -/
def PlainReply : FlowExchange → Prop
  | ⟨.readText _, r⟩ => Plain r
  | ⟨.readBytes _, r⟩ => Plain r
  | ⟨.uploadArtifact _ _ _ _ _, r⟩ => Plain r
  | ⟨.uploadLog _, r⟩ => Plain r
  | _ => True

/-- A run throws no structural refusal, whoever gives the replies, as long as they are plain. -/
def Flow.NeverStructural {α : Type} (p : Flow α) : Prop :=
  ∀ partner said, (∀ x ∈ (p.converse partner said).1, PlainReply x) →
    Plain (p.converse partner said).2

/-- The operations that `runOpenClawBrowserFlowModule` dispatches on. -/
def dispatchedOps : List String :=
  ["goto", "navigate", "wait", "click", "fill", "type", "press", "screenshot", "extract"]

/-- Step `i` is dispatched, and not thrown out for its form. -/
structure FlowContext.CarriesOut (c : FlowContext) (i : Nat) (step : FlowStep) : Prop where
  op : c.env.toLowerCase (trimmed step.op) ∈ dispatchedOps
  runs : ∀ st, (c.runStep i (c.env.toLowerCase (trimmed step.op)) step st).NeverStructural

/-- Preflight and module take the steps of a flow that are `counted`, as far as they fit. -/
structure WorkerAgrees (server : RouteEnv) (d : Descriptor)
    (counted : PreflightEnv → Json → List Json) (fits : PreflightEnv → Json → Prop) : Prop where
  /-- The preflight refuses no descriptor whose steps fit for structural reasons. -/
  preflight : ∀ (env : PreflightEnv) job allowedOrigins, env.Matches server →
    job.taskDescriptor = d.toJson →
    (∀ flow, getBrowserFlowSpec d.toJson = some flow → ∀ step ∈ counted env flow, fits env step) →
    Plain (preflightJobOrThrow env job allowedOrigins)
  /-- The module takes the steps, and carries out those that fit. -/
  dispatch : ∀ (env : PreflightEnv) flow (c : FlowContext) i step, env.Matches server → env.PlainErrors →
    getBrowserFlowSpec d.toJson = some flow → c.env = env.toWorkerEnv →
    (counted env flow)[i]? = some step → fits env step →
    (browserFlow env flow).taken[i]? = some (flowStep env step) ∧
      c.CarriesOut i (flowStep env step)
  /-- A run of the module with steps that fit throws no structural error. -/
  runs : ∀ (env : PreflightEnv) flow input, env.Matches server → env.PlainErrors →
    getBrowserFlowSpec d.toJson = some flow → input.flow = browserFlow env flow →
    (∀ step ∈ counted env flow, fits env step) →
    (runOpenClawBrowserFlowModule env.toWorkerEnv input).NeverStructural

/-- The name of an attribute of 61 characters at most that starts with a letter or `_`. -/
def Nameable (attr : String) : Prop :=
  ∃ c cs, attr.toList = c :: cs ∧ (c.isAlpha || c == '_') = true ∧ cs.length ≤ 60

/-- The step does not fall between the grammars of server and worker. -/
structure StepFits (env : PreflightEnv) (step : Json) : Prop where
  attributeName : stepOp env step = "extract" →
    env.toLowerCase (trimmed (step.textAt "kind" "text")) = "attribute" →
    Nameable (trimmed (step.stringAt "attribute"))
  valueEnv : stepOp env step = "fill" ∨ stepOp env step = "type" →
    trimmed (step.stringAt "value_env") = "" → step.stringAt "value_env" = ""

section Gate

variable {server : RouteEnv} {d : Descriptor} {step : Json}

/-- What the gate has seen of a step it accepts. -/
structure StepAccepted (server : RouteEnv) (step : Json) : Prop where
  op : server.toLowerCase (trimmed (stepOpText step)) ∈ dispatchedOps
  fn : step.get? "fn" = none
  valueEnv : trimmed (step.textAt "value_env" "") = ""
  attributeName : server.toLowerCase (trimmed (stepOpText step)) = "extract" →
    (trimmed (step.stringAt "attribute")).toList.all fun c =>
      c.isAlphanum || c == '_' || c == ':' || c == '-'

/-- The steps of a flow the gate accepts, one by one. -/
theorem stepAccepted (hvalue : server.browserFlowAllowValueEnv = false)
    (h : browserFlowStepError server step = none) : StepAccepted server step := by
  unfold browserFlowStepError at h
  dsimp only at h
  split_ifs at h with hobject hmissing hop hfn henv hsensitive hname hkey hattr
  have hblank : trimmed (step.textAt "value_env" "") = "" := by
    by_contra hne
    exact henv ⟨hne, by simp [hvalue]⟩
  refine ⟨?_, ?_, hblank, ?_⟩
  · exact hop
  · exact Option.not_isSome_iff_eq_none.mp hfn
  · intro hextract
    by_contra hall
    refine hattr ⟨hextract, ?_, fun hsize => hall hsize.2⟩
    intro hempty
    rw [hempty] at hall
    exact hall rfl

theorem stepsAccepted (hvalue : server.browserFlowAllowValueEnv = false) {i : Nat}
    {steps : List Json} (h : browserFlowStepsError server i steps = none) :
    ∀ step ∈ steps, StepAccepted server step := by
  induction steps generalizing i with
  | nil => exact fun step hstep => absurd hstep List.not_mem_nil
  | cons step steps ih =>
      unfold browserFlowStepsError at h
      cases herror : browserFlowStepError server step with
      | some e => simp [herror] at h
      | none =>
          simp only [herror] at h
          intro s hs
          rcases List.mem_cons.mp hs with rfl | hs
          · exact stepAccepted hvalue herror
          · exact ih h s hs

/-- The worker finds the flow where the gate looks for it. -/
theorem getBrowserFlowSpec_toJson {flow : Json} (h : getBrowserFlowSpec d.toJson = some flow) :
    ((Json.obj (d.siteProfile.getD [])).present "browser_flow").or
      ((Json.obj (d.siteProfile.getD [])).present "browserFlow") = some flow := by
  have hmember : d.toJson.member "site_profile" = (d.siteProfile.map .obj).getD .null := by
    unfold Descriptor.toJson Descriptor.members Json.member
    cases d.freshnessSlaSec <;> cases d.siteProfile <;> rfl
  unfold getBrowserFlowSpec at h
  rw [hmember] at h
  cases hprofile : d.siteProfile with
  | none =>
      rw [hprofile] at h
      exact absurd h (by simp [Json.isObject])
  | some fields =>
      rw [hprofile] at h
      simp only [Json.isObject] at h
      exact (Option.filter_eq_some_iff.mp h).1

/-- The steps of an accepted flow. -/
theorem GateAccepts.steps (h : GateAccepts server d) {flow : Json}
    (hflow : getBrowserFlowSpec d.toJson = some flow) :
    (flow.elemsAt "steps").length ≤ 100 ∧
      ∀ step ∈ flow.elemsAt "steps", StepAccepted server step := by
  have haccepted := h.accepted
  unfold validateTaskDescriptorBrowserFlow at haccepted
  dsimp only at haccepted
  rw [getBrowserFlowSpec_toJson hflow] at haccepted
  dsimp only at haccepted
  have hnone : flow.elemsAt "steps" = [] → (flow.elemsAt "steps").length ≤ 100 ∧
      ∀ step ∈ flow.elemsAt "steps", StepAccepted server step := by
    intro hnil
    rw [hnil]
    exact ⟨Nat.zero_le _, fun step hstep => absurd hstep List.not_mem_nil⟩
  cases hsteps : flow.get? "steps" with
  | none => exact hnone (by simp [Json.elemsAt, hsteps])
  | some v =>
      cases v with
      | arr steps =>
          have helems : flow.elemsAt "steps" = steps := by simp [Json.elemsAt, hsteps]
          simp only [hsteps] at haccepted
          split_ifs at haccepted with hlong
          rw [helems]
          exact ⟨Nat.le_of_not_lt hlong, stepsAccepted h.valueEnv haccepted⟩
      | _ => exact hnone (by simp [Json.elemsAt, hsteps])

/-- A bounty that is created with the gate on has a descriptor the gate accepts. -/
theorem gateAccepts_of_bountyDescriptor {body : Json}
    (hgate : server.browserFlowValidationGate = true)
    (hvalue : server.browserFlowAllowValueEnv = false)
    (h : bountyDescriptor server body = .ok (some d)) : GateAccepts server d := by
  refine ⟨hgate, hvalue, ?_⟩
  unfold bountyDescriptor at h
  split at h
  · exact absurd h (by simp [pure, Except.pure])
  · rename_i raw hraw
    cases hparse : parseDescriptor server raw with
    | error e => simp [hparse, bind, Except.bind] at h
    | ok d' =>
        cases hcheck : checkDescriptor server "task_descriptor" d' with
        | error e => simp [hparse, hcheck, bind, Except.bind] at h
        | ok u =>
            simp only [hparse, hcheck, bind, Except.bind, hgate, if_true] at h
            split at h
            · exact absurd h (by simp)
            · rename_i hnone
              obtain rfl : d' = d := by simpa [pure, Except.pure] using h
              exact hnone

end Gate

section Messages

variable {message p s : String}

/-- The message starts like none of the structural refusals. -/
def opensOtherwise (message : String) : Bool :=
  message.toList.head?.any fun c => decide (c ∉ ['b', 'e', 'i', 'v'])

theorem opensOtherwise_append (h : opensOtherwise p = true) : opensOtherwise (p ++ s) = true := by
  unfold opensOtherwise at h ⊢
  rw [String.toList_append]
  cases hp : p.toList with
  | nil => simp [hp] at h
  | cons c cs => simpa [hp] using h

theorem isStructural_of_opensOtherwise (h : opensOtherwise message = true) :
    isStructural message = false := by
  by_contra hs
  have hs : isStructural message = true := by simpa using hs
  simp only [isStructural, startsWith, Bool.or_eq_true, decide_eq_true_eq, List.mem_cons,
    List.not_mem_nil, or_false] at hs
  rcases hs with (rfl | rfl | rfl) | ⟨rest, hrest⟩
  · exact absurd h (by decide)
  · exact absurd h (by decide)
  · exact absurd h (by decide)
  · unfold opensOtherwise at h
    rw [← hrest] at h
    simp at h

/-- A message that opens otherwise, whatever follows. -/
theorem isStructural_append (h : opensOtherwise p = true) : isStructural (p ++ s) = false :=
  isStructural_of_opensOtherwise (opensOtherwise_append h)

end Messages

section Refusals

variable {α β : Type} {r : Except String α} {message : String} {env : WorkerEnv}

theorem plain_ok (a : α) : Plain (.ok a : Except String α) := fun _ h => absurd h (by simp)

theorem plain_error (h : isStructural message = false) :
    Plain (.error message : Except String α) := by
  intro m hm
  obtain rfl := Except.error.inj hm
  exact h

theorem Plain.bind {f : α → Except String β} (h : Plain r) (hf : ∀ a, Plain (f a)) :
    Plain (r >>= f) := by
  cases r with
  | ok a => exact hf a
  | error m =>
      intro m' hm
      obtain rfl := Except.error.inj hm
      exact h m rfl

theorem plain_throwUnless {ok : Bool} (h : ok = false → isStructural message = false) :
    Plain (throwUnless ok message) := by
  cases ok with
  | true => exact plain_ok ()
  | false => exact plain_error (h rfl)

theorem plain_ite {P : Prop} {_ : Decidable P} {r' : Except String α} (h : P → Plain r)
    (h' : ¬ P → Plain r') : Plain (if P then r else r') := by
  split_ifs with hP
  · exact h hP
  · exact h' hP

theorem plain_checkIf {P : Prop} {_ : Decidable P} {check : Except String Unit}
    (h : P → Plain check) : Plain (checkIf P check) :=
  plain_ite h fun _ => plain_ok ()

theorem plain_urlOriginStrict {url : String} : Plain (urlOriginStrict env url) := by
  unfold urlOriginStrict
  split
  · exact plain_error (by decide)
  · exact plain_ite (fun _ => plain_error (by decide)) fun _ =>
      plain_ite (fun _ => plain_error (by decide)) fun _ => plain_ok _

theorem plain_assertUrlAllowed {url what : String} {allowed : List String} :
    Plain (assertUrlAllowed env url allowed what) := by
  unfold assertUrlAllowed
  cases horigin : urlOriginStrict env url with
  | error m =>
      intro m' hm
      obtain rfl := Except.error.inj hm
      exact plain_urlOriginStrict m horigin
  | ok origin =>
      refine plain_ite (fun _ => plain_error ?_) fun _ =>
        plain_ite (fun _ => plain_error ?_) fun _ =>
          plain_ite (fun _ => plain_error ?_) fun _ => plain_ok _
      · exact isStructural_append (opensOtherwise_append (opensOtherwise_append (by decide)))
      · exact isStructural_append (by decide)
      · exact isStructural_append (opensOtherwise_append (opensOtherwise_append (by decide)))

theorem plain_refuseLogin {url : String} : Plain (refuseLogin env url) :=
  plain_ite (fun _ => plain_error (isStructural_append (by decide))) fun _ => plain_ok _

/-- A URL is refused for its origin or for a login. -/
theorem plain_checkUrl {url what : String} {allowed : List String} :
    Plain (checkUrl env url allowed what) := by
  have hassert : Plain (if env.strict then
      (assertUrlAllowed env url allowed what).map fun _ => () else .ok ()) := by
    refine plain_ite (fun _ m hm => ?_) fun _ => plain_ok _
    cases h : assertUrlAllowed env url allowed what with
    | ok origin => simp [h, Except.map] at hm
    | error m' =>
        obtain rfl : m' = m := by simpa [h, Except.map] using hm
        exact plain_assertUrlAllowed m' h
  unfold checkUrl
  split
  · rename_i m hm
    intro m' hm'
    obtain rfl := Except.error.inj hm'
    exact hassert m hm
  · exact plain_refuseLogin

/-- What standard output holds is JSON or is not. -/
theorem plain_parseJsonFromStdout (henv : env.PlainErrors) {stdout : String} :
    Plain (parseJsonFromStdout env stdout) := by
  unfold parseJsonFromStdout
  refine plain_ite (fun _ => plain_ok _) fun _ => ?_
  split
  · exact plain_ok _
  · dsimp only
    split
    · exact plain_ite (fun _ => henv _) fun _ => plain_error (by decide)
    · exact plain_error (by decide)

end Refusals

/-- A watch to which every statement is in order. -/
def anyStatement : Watch FlowStmt FlowStmt.Val Unit where
  may _ _ := True
  after m _ := m

/-- With plain replies the program throws no structural refusal. -/
@[irreducible] def Flow.Civil {α : Type} (p : Flow α) : Prop :=
  Prog.Minds anyStatement PlainReply (fun _ _ => True)
    (fun message _ => isStructural message = false) p ()

section Rules

variable {α β : Type} {p : Flow α}

theorem Flow.Civil.neverStructural (h : Flow.Civil p) : p.NeverStructural := by
  intro partner said hplain message hthrown
  unfold Flow.Civil at h
  have hend := (h.converse said hplain).2
  rw [hthrown] at hend
  exact hend

theorem Flow.Civil.bind {f : α → Flow β} (h : Flow.Civil p) (hf : ∀ a, Flow.Civil (f a)) :
    Flow.Civil (p >>= f) := by
  unfold Flow.Civil at *
  exact Prog.Minds.bind h fun a _ _ => hf a

/-- A handler, of what is no structural refusal. -/
theorem Flow.Civil.orElse {handler : String → Flow α} (h : Flow.Civil p)
    (hhandler : ∀ message, isStructural message = false → Flow.Civil (handler message)) :
    Flow.Civil (p.orElse handler) := by
  unfold Flow.Civil at *
  exact Prog.Minds.orElse h fun message _ hmessage => hhandler message hmessage

theorem civil_pure (a : α) : Flow.Civil (pure a) := by
  unfold Flow.Civil
  exact trivial

theorem civil_throw {message : String} (h : isStructural message = false) :
    Flow.Civil (throw message : Flow α) := by
  unfold Flow.Civil
  exact h

theorem civil_ite {P : Prop} {_ : Decidable P} {q : Flow α} (hp : P → Flow.Civil p)
    (hq : ¬ P → Flow.Civil q) : Flow.Civil (if P then p else q) := by
  split_ifs with hP
  · exact hp hP
  · exact hq hP

theorem civil_orMessage {r : Except String α} (h : Plain r) : Flow.Civil (orMessage r) := by
  unfold Flow.Civil
  cases r with
  | ok a => exact trivial
  | error message => exact h message rfl

/-- A statement, and what is done with its reply. -/
theorem civil_ask {s : FlowStmt} {f : s.Val → Flow β}
    (hf : ∀ r, PlainReply ⟨s, r⟩ → Flow.Civil (f r)) : Flow.Civil (doFlow s >>= f) := by
  unfold Flow.Civil at *
  exact ⟨trivial, hf⟩

theorem civil_doFlow {s : FlowStmt} : Flow.Civil (doFlow s) := by
  unfold Flow.Civil
  exact ⟨trivial, fun _ _ => trivial⟩

theorem civil_runOpenClaw {command : OpenClaw} : Flow.Civil (runOpenClaw command) := by
  unfold runOpenClaw
  refine civil_ask fun r _ => ?_
  cases r with
  | ok stdout => exact civil_pure stdout
  | error failure =>
      exact civil_throw
        (isStructural_append (opensOtherwise_append (opensOtherwise_append (by decide))))

theorem civil_checkDeadline {deadlineMs : Option Nat} :
    Flow.Civil (checkDeadline deadlineMs) := by
  unfold checkDeadline
  exact civil_ask fun _ _ => civil_ite
    (fun _ => civil_throw (by decide)) fun _ => civil_pure ()

/-- The handler of a step throws what it has caught, if anything. -/
theorem civil_stepError {i : Nat} {op message : String} (h : isStructural message = false) :
    Flow.Civil (stepError i op message) := by
  unfold stepError
  refine Flow.Civil.bind civil_doFlow fun _ => ?_
  exact civil_ite (fun _ => civil_throw h) fun _ => civil_pure none

end Rules

/-- The step falls under none of the refusals of the module. -/
structure FlowStep.Sound (env : WorkerEnv) (op : String) (step : FlowStep) : Prop where
  valueEnv : op = "fill" ∨ op = "type" → given step.valueEnv = none
  fn : op = "extract" → trimmed (step.fn.getD "") = ""
  kind : op = "extract" → Plain (extractFn env step)

section Module

variable {c : FlowContext} {i : Nat} {op : String} {step : FlowStep} {st : FlowState}
variable (henv : c.env.PlainErrors)
include henv

theorem civil_enforce {what : String} : Flow.Civil (c.enforce what) := by
  have hask : Flow.Civil (getCurrentPageUrl c.env c.targetId) := by
    unfold getCurrentPageUrl
    refine Flow.Civil.bind civil_runOpenClaw fun stdout => ?_
    exact Flow.Civil.bind (civil_orMessage (plain_parseJsonFromStdout henv)) fun j => civil_pure _
  have hpolicy : Flow.Civil (enforcePagePolicy c.env c.targetId c.allowedOrigins what) := by
    unfold enforcePagePolicy
    refine Flow.Civil.bind hask fun href => civil_ite (fun _ => civil_pure href) fun _ => ?_
    refine Flow.Civil.bind (civil_orMessage plain_assertUrlAllowed) fun _ => ?_
    exact Flow.Civil.bind (civil_orMessage plain_refuseLogin) fun _ => civil_pure href
  unfold FlowContext.enforce
  exact Flow.Civil.bind hpolicy fun _ => civil_pure ()

theorem civil_stepRef : Flow.Civil (stepRef c.env c.targetId step) := by
  have hresolve : ∀ m, Flow.Civil (resolveRefViaSnapshot c.env c.targetId m) := by
    intro m
    unfold resolveRefViaSnapshot
    refine Flow.Civil.bind civil_runOpenClaw fun stdout => ?_
    refine Flow.Civil.bind (civil_orMessage (plain_parseJsonFromStdout henv)) fun j => ?_
    refine civil_ask fun r hr => ?_
    exact Flow.Civil.bind (civil_orMessage hr) fun text => civil_pure _
  have hrefFor : Flow.Civil (refFor c.env c.targetId step) := by
    unfold refFor
    exact civil_ite (fun _ => civil_pure _) fun _ => hresolve _
  unfold stepRef
  refine Flow.Civil.bind hrefFor fun ref => ?_
  cases given ref with
  | some ref => exact civil_pure ref
  | none => exact civil_throw (by decide)

omit henv in
theorem civil_takeScreenshot {fullPage : Bool} {filename label : String} :
    Flow.Civil (takeScreenshot c.env fullPage c.targetId filename label) := by
  unfold takeScreenshot storeScreenshot
  refine Flow.Civil.bind civil_runOpenClaw fun stdout => ?_
  refine civil_ite (fun _ => civil_throw (by decide)) fun _ => ?_
  refine civil_ask fun r hr => Flow.Civil.bind (civil_orMessage hr) fun bytes => ?_
  cases detectPngOrJpeg bytes with
  | none => exact civil_throw (by decide)
  | some detected => exact civil_ask fun r hr => civil_orMessage hr

theorem civil_navigateStep : Flow.Civil (c.navigateStep i op step) := by
  unfold FlowContext.navigateStep
  refine Flow.Civil.bind (civil_orMessage plain_checkUrl) fun _ => ?_
  refine Flow.Civil.bind civil_doFlow fun _ => ?_
  exact Flow.Civil.bind civil_runOpenClaw fun _ => civil_enforce henv

theorem civil_waitStep : Flow.Civil (c.waitStep i step) := by
  have hwait : Plain (c.waitFor i step) := by
    intro message hmessage
    unfold FlowContext.waitFor at hmessage
    split at hmessage
    case h_4 url _ _ _ _ =>
      cases hcheck : checkUrl c.env url c.allowedOrigins
          ("step_" ++ toString i ++ "_wait_url") with
      | ok u =>
          rw [hcheck] at hmessage
          exact absurd hmessage (by simp [Except.map])
      | error m =>
          rw [hcheck] at hmessage
          obtain rfl : m = message := Except.error.inj hmessage
          exact plain_checkUrl m hcheck
    all_goals exact absurd hmessage (by simp)
  unfold FlowContext.waitStep
  refine Flow.Civil.bind (civil_orMessage hwait) fun what => ?_
  refine Flow.Civil.bind civil_doFlow fun _ => ?_
  exact Flow.Civil.bind civil_runOpenClaw fun _ => civil_enforce henv

theorem civil_clickStep : Flow.Civil (c.clickStep i step) := by
  unfold FlowContext.clickStep
  refine Flow.Civil.bind (civil_stepRef henv) fun ref => ?_
  refine Flow.Civil.bind civil_doFlow fun _ => ?_
  exact Flow.Civil.bind civil_runOpenClaw fun _ => civil_enforce henv

theorem civil_typeStep (h : given step.valueEnv = none) : Flow.Civil (c.typeStep i op step) := by
  have hvalue : Plain (pickFillValue c.env step) := by
    unfold pickFillValue
    rw [h]
    exact plain_ok _
  unfold FlowContext.typeStep
  refine Flow.Civil.bind (civil_stepRef henv) fun ref => ?_
  refine Flow.Civil.bind (civil_orMessage hvalue) fun val => ?_
  refine Flow.Civil.bind civil_doFlow fun _ => ?_
  exact Flow.Civil.bind civil_runOpenClaw fun _ => civil_pure ()

theorem civil_pressStep : Flow.Civil (c.pressStep i step) := by
  unfold FlowContext.pressStep
  refine Flow.Civil.bind civil_doFlow fun _ => ?_
  exact Flow.Civil.bind civil_runOpenClaw fun _ => civil_enforce henv

theorem civil_extractStep (hfn : trimmed (step.fn.getD "") = "")
    (hkind : Plain (extractFn c.env step)) : Flow.Civil (c.extractStep i step) := by
  unfold FlowContext.extractStep
  refine Flow.Civil.bind (civil_stepRef henv) fun ref => ?_
  rw [if_neg (not_not_intro hfn)]
  refine Flow.Civil.bind (civil_orMessage hkind) fun fn => ?_
  refine Flow.Civil.bind civil_doFlow fun _ => ?_
  refine Flow.Civil.bind civil_runOpenClaw fun stdout => ?_
  exact Flow.Civil.bind (civil_orMessage (plain_parseJsonFromStdout henv)) fun j => civil_pure _

/-- The body of the loop, case by case. -/
theorem civil_runStep (h : step.Sound c.env op) : Flow.Civil (c.runStep i op step st) := by
  have hst : ∀ {p : Flow Unit}, Flow.Civil p → Flow.Civil (p >>= fun _ => pure st) :=
    fun hp => Flow.Civil.bind hp fun _ => civil_pure st
  unfold FlowContext.runStep
  refine Flow.Civil.bind civil_checkDeadline fun _ => ?_
  refine civil_ite (fun _ => hst (civil_navigateStep henv)) fun _ => ?_
  refine civil_ite (fun _ => hst (civil_waitStep henv)) fun _ => ?_
  refine civil_ite (fun _ => hst (civil_clickStep henv)) fun _ => ?_
  refine civil_ite (fun hfill => hst (civil_typeStep henv (h.valueEnv hfill))) fun _ => ?_
  refine civil_ite (fun _ => hst (civil_pressStep henv)) fun _ => ?_
  refine civil_ite (fun _ => ?_) fun _ => ?_
  · refine Flow.Civil.bind ?_ fun stored => civil_pure _
    unfold FlowContext.screenshotStep
    exact Flow.Civil.bind civil_doFlow fun _ => civil_takeScreenshot
  refine civil_ite (fun hextract => ?_) fun _ => hst civil_doFlow
  exact Flow.Civil.bind (civil_extractStep henv (h.fn hextract) (h.kind hextract))
    fun found => civil_pure _

/-- The loop, step by step. -/
theorem civil_flowSteps {continueOnError : Bool} {steps : List FlowStep}
    (h : ∀ step ∈ steps, step.Sound c.env (c.env.toLowerCase (trimmed step.op))) :
    Flow.Civil (flowSteps c continueOnError i steps st) := by
  induction steps generalizing i st with
  | nil => exact civil_pure st
  | cons step steps ih =>
      have hrest : ∀ st, Flow.Civil (flowSteps c continueOnError (i + 1) steps st) :=
        fun st => ih fun s hs => h s (List.mem_cons_of_mem _ hs)
      have hbody : Flow.Civil ((c.runStep i (c.env.toLowerCase (trimmed step.op)) step st) >>=
          fun st' => pure (some st')) :=
        Flow.Civil.bind (civil_runStep henv (h step List.mem_cons_self)) fun st' => civil_pure _
      rw [flowSteps]
      refine civil_ite (fun _ => hrest st) fun _ => ?_
      refine Flow.Civil.bind (hbody.orElse fun message => civil_stepError) fun st' => ?_
      cases st' with
      | some st' => exact hrest st'
      | none => exact civil_ite (fun _ => hrest st) fun _ => civil_pure st

end Module

section Module

variable {env : WorkerEnv} {input : FlowInput}

/-- A page that is closed at the end. -/
theorem civil_withClose {α : Type} {targetId : String} {body : Flow α} (h : Flow.Civil body) :
    Flow.Civil (withClose targetId body) := by
  have hcaught : Prog.Minds anyStatement PlainReply (fun r _ => Plain r)
      (fun message _ => isStructural message = false)
      ((body.bind fun a => .ret (Except.ok a)).orElse fun message => .ret (.error message)) () := by
    unfold Flow.Civil at h
    have hok : Prog.Minds anyStatement PlainReply (fun r _ => Plain r)
        (fun message _ => isStructural message = false)
        (body.bind fun a => .ret (Except.ok a)) () :=
      Prog.Minds.bind h fun a _ _ => plain_ok a
    refine Prog.Minds.orElse hok fun message _ hmessage m hm => ?_
    obtain rfl := Except.error.inj hm
    exact hmessage
  have hrest : ∀ r : Except String α, Plain r → Flow.Civil
      (doFlow (.openclaw (.close targetId)) >>= fun _ => orMessage r) :=
    fun r hr => Flow.Civil.bind civil_doFlow fun _ => civil_orMessage hr
  unfold Flow.Civil at hrest ⊢
  exact Prog.Minds.bind hcaught fun r _ hr => hrest r hr

theorem civil_ensureReady : Flow.Civil (ensureOpenClawBrowserReady env) := by
  unfold ensureOpenClawBrowserReady
  refine civil_ite (fun _ => civil_pure ()) fun _ => ?_
  refine Flow.Civil.bind civil_doFlow fun _ => ?_
  refine Flow.Civil.bind (civil_runOpenClaw.orElse fun message _ => ?_) fun _ => civil_pure ()
  exact civil_throw (isStructural_append (by decide))

/-- The module, if all its steps are sound. -/
theorem civil_module (henv : env.PlainErrors)
    (h : ∀ step ∈ input.flow.taken, step.Sound env (env.toLowerCase (trimmed step.op))) :
    Flow.Civil (runOpenClawBrowserFlowModule env input) := by
  have hbody : ∀ c : FlowContext, c.env = env → Flow.Civil (c.flowBody input.flow) := by
    rintro c rfl
    unfold FlowContext.flowBody
    refine Flow.Civil.bind (civil_enforce henv) fun _ => ?_
    refine Flow.Civil.bind (civil_flowSteps henv h) fun st => ?_
    refine civil_ite (fun _ => civil_pure st) fun _ => ?_
    refine Flow.Civil.bind civil_checkDeadline fun _ => ?_
    exact Flow.Civil.bind civil_takeScreenshot fun stored => civil_pure _
  unfold runOpenClawBrowserFlowModule
  refine civil_ite (fun _ => civil_throw (by decide)) fun _ => ?_
  refine Flow.Civil.bind civil_ensureReady fun _ => ?_
  refine Flow.Civil.bind civil_checkDeadline fun _ => ?_
  refine Flow.Civil.bind (civil_orMessage plain_checkUrl) fun _ => ?_
  refine Flow.Civil.bind civil_doFlow fun _ => ?_
  refine Flow.Civil.bind civil_runOpenClaw fun stdout => ?_
  refine Flow.Civil.bind (civil_orMessage (plain_parseJsonFromStdout henv)) fun j => ?_
  refine civil_ite (fun _ => civil_throw (by decide)) fun _ => ?_
  refine Flow.Civil.bind (civil_withClose (hbody _ rfl)) fun st => ?_
  refine civil_ask fun r hr => ?_
  exact Flow.Civil.bind (civil_orMessage hr) fun stored => civil_pure _

end Module

section Steps

variable {server : RouteEnv} {env : PreflightEnv} {step flow : Json} {key : String}

theorem string?_getD : (step.string? key).getD "" = step.stringAt key := by
  unfold Json.string? Json.stringAt
  cases step.get? key with
  | none => rfl
  | some v => cases v <;> rfl

theorem present_toText {fallback : String} :
    ((step.present key).map Json.toText).getD fallback = step.textAt key fallback := by
  unfold Json.present Json.textAt
  cases step.get? key with
  | none => rfl
  | some v => cases v <;> rfl

/-- A member that prints as white space is white space if it is a string. -/
theorem stringAt_blank (h : trimmed (step.textAt key "") = "") :
    trimmed (step.stringAt key) = "" := by
  unfold Json.textAt at h
  unfold Json.stringAt
  split
  · rename_i s hs
    rw [hs] at h
    exact h
  · rfl

/-- Where the gate accepts an attribute and it fits, the worker takes it. -/
theorem isAttributeName_of_nameable {attr : String} (hfits : Nameable attr)
    (hall : (attr.toList.all fun c =>
      c.isAlphanum || c == '_' || c == ':' || c == '-') = true) : isAttributeName attr = true := by
  obtain ⟨c, cs, hattr, hfirst, hlength⟩ := hfits
  unfold isAttributeName
  rw [hattr] at hall ⊢
  have hrest : (cs.all fun c =>
      c.isAlphanum || c == '_' || c == ':' || c == '\\' || c == '-') = true := by
    refine List.all_eq_true.mpr fun x hx => ?_
    have hx := List.all_eq_true.mp hall x (List.mem_cons_of_mem _ hx)
    simp only [Bool.or_eq_true] at hx ⊢
    rcases hx with hx | hx
    · exact Or.inl (Or.inl hx)
    · exact Or.inr hx
  simp only [hfirst, hrest, decide_eq_true hlength, Bool.and_self]

/-- The function of an attribute the worker takes. -/
theorem extractFn_of_isAttributeName {s : FlowStep}
    (h : isAttributeName (trimmed (s.attributeName.getD "")) = true) :
    Plain (extractFn env.toWorkerEnv s) := by
  unfold extractFn
  dsimp only
  refine plain_ite (fun _ => plain_ok _) fun _ => plain_ite (fun _ => plain_ok _) fun _ =>
    plain_ite (fun _ => ?_) fun _ => plain_ok _
  unfold isAttributeName at h
  split
  · rename_i c cs hattr
    rw [hattr] at h
    rw [if_pos h]
    exact plain_ok _
  · rename_i hattr
    rw [hattr] at h
    exact absurd h (by simp)

/-- Without the kind `attribute` the function does not depend on the attribute. -/
theorem extractFn_of_kind {s : FlowStep}
    (h : env.toLowerCase (trimmed (s.kind.getD "text")) ≠ "attribute") :
    Plain (extractFn env.toWorkerEnv s) := by
  unfold extractFn
  dsimp only
  refine plain_ite (fun _ => plain_ok _) fun _ => plain_ite (fun _ => plain_ok _) fun _ => ?_
  rw [if_neg h]
  exact plain_ok _

/-- What server and worker see of a step that the gate accepts and that fits. -/
structure StepSeen (env : PreflightEnv) (step : Json) : Prop where
  op : stepOp env step ∈ dispatchedOps
  fn : step.stringAt "fn" = ""
  valueEnv : trimmed (step.stringAt "value_env") = ""
  attributeName : stepOp env step = "extract" →
    env.toLowerCase (trimmed (step.textAt "kind" "text")) = "attribute" →
    isAttributeName (trimmed (step.stringAt "attribute")) = true

theorem StepAccepted.seen (h : StepAccepted server step) (henv : env.Matches server)
    (hfits : StepFits env step) : StepSeen env step := by
  have hop : stepOp env step = server.toLowerCase (trimmed (stepOpText step)) := by
    rw [stepOp, henv.lower]
  refine ⟨hop ▸ h.op, ?_, stringAt_blank h.valueEnv, fun hextract hkind => ?_⟩
  · rw [Json.stringAt, h.fn]
  · exact isAttributeName_of_nameable (hfits.attributeName hextract hkind)
      (h.attributeName (hop ▸ hextract))

/-- The step as the module reads it. -/
theorem StepSeen.sound (h : StepSeen env step) (hfits : StepFits env step) :
    (flowStep env step).Sound env.toWorkerEnv (stepOp env step) where
  valueEnv hop := by
    have hempty := hfits.valueEnv hop h.valueEnv
    change given (step.string? "value_env") = none
    rw [← string?_getD] at hempty
    cases hs : step.string? "value_env" with
    | none => rfl
    | some s =>
        rw [hs] at hempty
        obtain rfl : s = "" := hempty
        rfl
  fn _ := by
    change trimmed ((step.string? "fn").getD "") = ""
    rw [string?_getD, h.fn]
    rfl
  kind hop := by
    have hkind : (flowStep env step).kind.getD "text" = step.textAt "kind" "text" :=
      present_toText
    by_cases hattribute : env.toLowerCase (trimmed (step.textAt "kind" "text")) = "attribute"
    · refine extractFn_of_isAttributeName ?_
      have hname : (flowStep env step).attributeName.getD "" = step.stringAt "attribute" :=
        string?_getD
      rw [hname]
      exact h.attributeName hop hattribute
    · exact extractFn_of_kind (by rwa [hkind])

/-- The module takes the steps the preflight looks at. -/
theorem taken_browserFlow :
    (browserFlow env flow).taken = (normalizeBrowserFlowSteps env flow).map (flowStep env) := by
  have hmax : (browserFlow env flow).maxSteps =
      ((flow.get? "max_steps").bind env.finiteNumber).map Int.floor := rfl
  have hsteps : (browserFlow env flow).steps = (flow.elemsAt "steps").map (flowStep env) := rfl
  unfold BrowserFlow.taken normalizeBrowserFlowSteps maxSteps
  rw [hmax, hsteps, List.map_take]
  cases (flow.get? "max_steps").bind env.finiteNumber with
  | none => simp
  | some q =>
      have hfloor : ⌊max 1 (min 100 q)⌋ = max 1 (min 100 ⌊q⌋) := by
        rw [Int.floor_mono.map_max, Int.floor_mono.map_min]
        simp
      simp only [Option.map_some, hfloor]

end Steps

section Preflight

variable {env : PreflightEnv} {allowed : List String} {i : Nat} {step : Json}

/-- A step that is seen as the gate sees it is refused for a URL or a login. -/
theorem plain_preflightStep (h : StepSeen env step) : Plain (preflightStep env allowed i step) := by
  have hurl : ∀ what, Plain (preflightUrl env allowed step what) := fun what =>
    plain_ite (fun _ => plain_ok ()) fun _ => plain_checkUrl
  have hextract : stepOp env step = "extract" → Plain (preflightExtract env step) := by
    intro hop
    unfold preflightExtract
    refine Plain.bind (plain_throwUnless fun hno => ?_) fun _ => plain_throwUnless fun hno => ?_
    · rw [h.fn] at hno
      exact absurd hno (by decide)
    · simp only [Bool.or_eq_false_iff, decide_eq_false_iff_not, not_not] at hno
      rw [h.attributeName hop hno.1] at hno
      exact absurd hno.2 (by simp)
  have hfill : Plain (preflightValueEnv env step) := by
    unfold preflightValueEnv
    refine plain_throwUnless fun hno => ?_
    rw [h.valueEnv] at hno
    exact absurd hno (by simp)
  unfold preflightStep
  dsimp only
  refine plain_ite (fun _ => plain_ok ()) fun _ => ?_
  refine Plain.bind (plain_checkIf fun _ => hurl _) fun _ => ?_
  refine Plain.bind (plain_checkIf fun _ => hurl _) fun _ => ?_
  refine Plain.bind (plain_checkIf hextract) fun _ => ?_
  refine Plain.bind (plain_checkIf fun _ => hfill) fun _ => ?_
  refine plain_throwUnless fun _ => ?_
  exact isStructural_append (opensOtherwise_append (opensOtherwise_append (by decide)))

theorem plain_preflightSteps {steps : List Json} (h : ∀ step ∈ steps, StepSeen env step) :
    Plain (preflightSteps env allowed i steps) := by
  induction steps generalizing i with
  | nil => exact plain_ok ()
  | cons step steps ih =>
      refine Plain.bind (plain_preflightStep (h step List.mem_cons_self)) fun _ => ?_
      exact ih fun s hs => h s (List.mem_cons_of_mem _ hs)

/-- The inputs of a clip are no steps. -/
theorem plain_preflightClip {job : PreflightJob} : Plain (preflightClip env job allowed) := by
  unfold preflightClip
  dsimp only
  refine Plain.bind (plain_throwUnless fun _ => by decide) fun _ => ?_
  refine Plain.bind (plain_throwUnless fun _ => by decide) fun _ => ?_
  refine Plain.bind plain_checkUrl fun _ => ?_
  refine Plain.bind (plain_throwUnless fun _ => by decide) fun _ => ?_
  exact plain_throwUnless fun _ => by decide

/-- Of a flow of at most 100 steps that are seen as the gate sees them, none is refused for
its form. -/
theorem plain_preflightJobOrThrow {job : PreflightJob}
    (h : ∀ flow, getBrowserFlowSpec job.taskDescriptor = some flow →
      (flow.elemsAt "steps").length ≤ 100 ∧
        ∀ step ∈ normalizeBrowserFlowSteps env flow, StepSeen env step) :
    Plain (preflightJobOrThrow env job allowed) := by
  have hflow : Plain (preflightFlow env allowed (getBrowserFlowSpec job.taskDescriptor)) := by
    cases hspec : getBrowserFlowSpec job.taskDescriptor with
    | none => exact plain_ok ()
    | some flow =>
        obtain ⟨hlength, hsteps⟩ := h flow hspec
        refine Plain.bind (plain_throwUnless fun hno => ?_) fun _ => plain_preflightSteps hsteps
        exact absurd hlength (of_decide_eq_false hno)
  unfold preflightJobOrThrow
  dsimp only
  refine Plain.bind (plain_throwUnless fun _ => isStructural_append (by decide)) fun _ => ?_
  refine Plain.bind (plain_throwUnless fun _ => by decide) fun _ => ?_
  refine Plain.bind plain_checkUrl fun _ => ?_
  refine Plain.bind hflow fun _ => ?_
  refine Plain.bind (plain_checkIf fun _ => plain_preflightClip) fun _ => ?_
  exact plain_throwUnless fun _ => isStructural_append (opensOtherwise_append (by decide))

end Preflight

section Agreement

variable {server : RouteEnv} {env : PreflightEnv} {d : Descriptor} {flow step : Json}

/-- The steps the worker takes are seen as the gate sees them, where they fit. -/
theorem GateAccepts.seen (h : GateAccepts server d) (henv : env.Matches server)
    (hflow : getBrowserFlowSpec d.toJson = some flow)
    (hstep : step ∈ normalizeBrowserFlowSteps env flow) (hfits : StepFits env step) :
    StepSeen env step :=
  ((h.steps hflow).2 step (List.mem_of_mem_take hstep)).seen henv hfits

/-- **Server and worker agree.**  Of a flow that the gate has accepted the worker takes the
first `max_steps` steps, carries out those that fit, and refuses nothing for structural
reasons if all of them fit. -/
theorem worker_agrees (server : RouteEnv) (d : Descriptor) (h : GateAccepts server d) :
    WorkerAgrees server d normalizeBrowserFlowSteps StepFits where
  preflight env job allowed henv hjob hfits := by
    refine plain_preflightJobOrThrow fun flow hflow => ?_
    rw [hjob] at hflow
    exact ⟨(h.steps hflow).1,
      fun step hstep => h.seen henv hflow hstep (hfits flow hflow step hstep)⟩
  dispatch env flow c i step henv hplain hflow hc hstep hfits := by
    have hseen := h.seen henv hflow (List.mem_of_getElem? hstep) hfits
    have hop : c.env.toLowerCase (trimmed (flowStep env step).op) = stepOp env step := by
      rw [hc]
      rfl
    refine ⟨by rw [taken_browserFlow, List.getElem?_map, hstep]; rfl, hop ▸ hseen.op, ?_⟩
    intro st
    rw [hop]
    refine Flow.Civil.neverStructural (civil_runStep (by rwa [hc]) ?_)
    rw [hc]
    exact hseen.sound hfits
  runs env flow input henv hplain hflow hinput hfits := by
    refine Flow.Civil.neverStructural (civil_module hplain fun s hs => ?_)
    rw [hinput, taken_browserFlow] at hs
    obtain ⟨step, hstep, rfl⟩ := List.mem_map.mp hs
    exact (h.seen henv hflow hstep (hfits step hstep)).sound (hfits step hstep)

/-- A server with the gate on. -/
def gatedRouteEnv : RouteEnv := { demoRouteEnv with browserFlowValidationGate := true }

/-- A worker with the default settings. -/
def demoPreflightEnv : PreflightEnv where
  toWorkerEnv := demoEnv
  allowTaskTypes := []
  denyTaskTypes := []
  ffmpegUnhealthy := false
  ffmpegMaxDurationSec := 60
  finiteNumber := gatedRouteEnv.finiteNumber
  msText _ := "0"

/-- A flow of clicks. -/
def clicks (n : Nat) : Json :=
  .obj [("steps", .arr (List.replicate n (.obj [("op", .str "click"), ("text", .str "Next")])))]

/-- A descriptor with a flow. -/
def flowDescriptor (flow : Json) : Descriptor where
  type := "browser_flow_task"
  capabilityTags := ["browser"]
  inputSpec := [("url", .str "https://a.example/")]
  outputSpec := []
  freshnessSlaSec := none
  siteProfile := some [("browser_flow", flow)]

theorem worker_agrees_clicks :
    WorkerAgrees gatedRouteEnv (flowDescriptor (clicks 3)) normalizeBrowserFlowSteps StepFits :=
  worker_agrees gatedRouteEnv (flowDescriptor (clicks 3)) ⟨rfl, rfl, by decide⟩

/-- The 51st step of a flow the gate accepts is never run. -/
theorem long_flow_cut :
    GateAccepts gatedRouteEnv (flowDescriptor (clicks 51)) ∧
      ¬ WorkerAgrees gatedRouteEnv (flowDescriptor (clicks 51))
        (fun _ flow => flow.elemsAt "steps") (fun _ _ => True) := by
  refine ⟨⟨rfl, rfl, by decide⟩, fun h => ?_⟩
  have hplain : demoPreflightEnv.PlainErrors := by
    intro text
    change Plain (demoEnv.parseJson text)
    unfold demoEnv
    exact plain_ite (fun _ => plain_ok _) fun _ => plain_ite (fun _ => plain_ok _) fun _ =>
      plain_ite (fun _ => plain_ok _) fun _ => plain_error (by decide)
  let c : FlowContext := ⟨demoEnv, "https://a.example/", [], none, "t1"⟩
  have htaken := (h.dispatch demoPreflightEnv (clicks 51) c 50
    (.obj [("op", .str "click"), ("text", .str "Next")]) ⟨rfl, rfl⟩ hplain rfl rfl rfl trivial).1
  have hlength : (normalizeBrowserFlowSteps demoPreflightEnv (clicks 51)).length ≤ 50 := by
    have hmax : maxSteps demoPreflightEnv (clicks 51) = 50 := rfl
    unfold normalizeBrowserFlowSteps
    rw [hmax, List.length_take]
    simp
  rw [taken_browserFlow, List.getElem?_eq_none (by simpa using hlength)] at htaken
  exact absurd htaken (by simp)

end Agreement

end OpenUnion
