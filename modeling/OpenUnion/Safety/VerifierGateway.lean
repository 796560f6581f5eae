import OpenUnion.Code.VerifierGateway

/-!
# What a pass of the verifier gateway says

A pass says that the descriptor is met, up to what the gateway does not look at: a loop reads
one artifact for each requirement, whatever the number asked for, the loop for structured JSON
takes its artifact by the prefix alone, a requirement of the kind `''` is skipped, and so is a
final URL that does not parse.

* `enough_of_pass`: the artifacts of each requirement with a kind are there.
* `taken_sound`: the artifact a loop takes for a requirement has sound content.
* `pass_meets_iff`: a submission that passes meets its descriptor exactly if what the gateway
  has not looked at does.
* `second_video_unread`: two videos are asked for, the second is no video, and the gateway
  answers `pass`.
-/

namespace OpenUnion.Gateway

variable (env : GatewayEnv) (body : RunBody)

/-! ## The descriptor is met -/

/-- The artifacts of a submission. -/
def RunBody.artifacts : List Json := arrayOf body.artifactIndex

/-- The requirements of the descriptor. -/
def RunBody.requirements : List Json := requiredArtifacts (getTaskDescriptor body)

/-- The content of an artifact is sound for a requirement of a loop. -/
def ContentLoop.sound (loop : ContentLoop) (r a : Json) : Bool :=
  match extractArtifactIdFromUrl env (a.textAt "url" "") with
  | some artifactId => (loop.contentError r (env.contents artifactId)).isNone
  | none => false

/-- An artifact answers a requirement with sound content. -/
def ContentLoop.fulfils (loop : ContentLoop) (r a : Json) : Bool :=
  answers r a && loop.sound env r a

/-- For each requirement with a kind there are as many artifacts as it asks for. -/
def HasArtifacts : Prop :=
  ∀ r ∈ body.requirements, (r.string? "kind").isSome →
    requiredCount env r ≤ body.artifacts.countP (answers r)

/-- For each requirement with content there are as many sound artifacts as it asks for. -/
def HasContents : Prop :=
  ∀ loop ∈ contentLoops env, ∀ r ∈ body.requirements, loop.isFor r = true →
    requiredCount env r ≤ body.artifacts.countP (loop.fulfils env r)

/-- The submission has a final URL. -/
def RunBody.hasFinalUrl : Bool := body.finalUrl.any fun v => !v.isNull

/-- The final URL, if there is one, parses and has an allowed origin. -/
def OriginAllowed : Prop :=
  body.allowedOrigins ≠ [] → body.hasFinalUrl = true →
    ∃ url u, body.finalUrl = some (.str url) ∧ env.parseUrl url = some u ∧
      u.origin ∈ body.allowedOrigins

/-- The descriptor is met. -/
def MeetsDescriptor : Prop := HasArtifacts env body ∧ HasContents env body ∧ OriginAllowed env body

/-! ## What the gateway does not look at -/

/-- The sound artifacts of a requirement behind the one that its loop takes, and that one, if
it has the label. -/
def ContentLoop.unread (loop : ContentLoop) (artifacts : List Json) (r : Json) : ℕ :=
  (artifacts.eraseP (loop.takes r)).countP (loop.fulfils env r) +
    if (artifacts.find? (loop.takes r)).any (answers r) then 1 else 0

/-- What the gateway has not looked at meets the descriptor. -/
structure UnreadMeets : Prop where
  /-- A requirement of the kind `''` has its artifacts. -/
  kindless : ∀ r ∈ body.requirements, r.string? "kind" = some "" →
    requiredCount env r ≤ body.artifacts.countP (answers r)
  /-- The artifacts that a loop does not take are enough for what is left of a requirement. -/
  others : ∀ loop ∈ contentLoops env, ∀ r ∈ body.requirements, loop.isFor r = true →
    requiredCount env r ≤ loop.unread env body.artifacts r
  /-- The final URL is a text that parses, if origins are restricted. -/
  parses : body.allowedOrigins = [] ∨ body.hasFinalUrl = false ∨
    ∃ url u, body.finalUrl = some (.str url) ∧ env.parseUrl url = some u

variable {env body}

/-! ## The loops -/

/-- Elements with a property, one that is taken first counted apart. -/
theorem countP_eraseP {α : Type} (p q : α → Bool) (l : List α) :
    l.countP p = (l.eraseP q).countP p + if (l.find? q).any p then 1 else 0 := by
  induction l with
  | nil => simp
  | cons x xs ih =>
      by_cases hq : q x = true
      · rw [List.eraseP_cons_of_pos hq, List.find?_cons_of_pos hq, List.countP_cons]
        simp
      · rw [List.eraseP_cons_of_neg hq, List.find?_cons_of_neg hq, List.countP_cons,
          List.countP_cons, ih]
        omega

/-- A loop without refusals has refused no requirement. -/
theorem refusal_of_run {loop : ContentLoop} {artifacts : List Json} {n : ℕ} {rs : List Json}
    (h : loop.run env artifacts n rs = none) {r : Json} (hr : r ∈ rs) :
    ∃ k, loop.refusal env artifacts k r = none := by
  induction rs generalizing n with
  | nil => cases hr
  | cons x xs ih =>
      obtain ⟨hx, hxs⟩ := Option.or_eq_none_iff.mp h
      rcases List.mem_cons.mp hr with rfl | hr
      · exact ⟨n, hx⟩
      · exact ih hxs hr

/-- Loops without refusals have refused no requirement. -/
theorem refusal_of_runLoops {artifacts req : List Json} {n : ℕ} {loops : List ContentLoop}
    (h : runLoops env artifacts req n loops = none) {loop : ContentLoop} (hl : loop ∈ loops)
    {r : Json} (hr : r ∈ req) (hfor : loop.isFor r = true) :
    ∃ k, loop.refusal env artifacts k r = none := by
  induction loops generalizing n with
  | nil => cases hl
  | cons x xs ih =>
      obtain ⟨hx, hxs⟩ := Option.or_eq_none_iff.mp h
      rcases List.mem_cons.mp hl with rfl | hl
      · exact refusal_of_run hx (List.mem_filter.mpr ⟨hr, hfor⟩)
      · exact ih hxs hl

/-- A download that succeeds brings the bytes of the artifact. -/
theorem download_ok {n : ℕ} {artifactId : String} {bytes : Storage.Bytes}
    (h : downloadArtifactBytes env n artifactId = .ok bytes) : bytes = env.contents artifactId := by
  unfold downloadArtifactBytes at h
  split at h
  · cases h
  · split_ifs at h
    cases h
    rfl

/-- A requirement that is not refused has sound content in the artifact taken for it. -/
theorem sound_of_refusal {loop : ContentLoop} {artifacts : List Json} {n : ℕ} {r a : Json}
    (h : loop.refusal env artifacts n r = none) (ha : artifacts.find? (loop.takes r) = some a) :
    loop.sound env r a = true := by
  simp only [ContentLoop.refusal, ha] at h
  unfold ContentLoop.sound
  cases hid : extractArtifactIdFromUrl env (a.textAt "url" "") with
  | none => simp [hid] at h
  | some artifactId =>
      simp only [hid] at h
      cases hdl : downloadArtifactBytes env n artifactId with
      | error e => simp [hdl] at h
      | ok bytes =>
          have hbytes : bytes = env.contents artifactId := download_ok hdl
          rw [hdl] at h
          simpa [hbytes] using h

/-- What a loop has read of a requirement counts as it stands. -/
theorem countP_fulfils {loop : ContentLoop} {artifacts : List Json} {r : Json}
    (h : ∀ a, artifacts.find? (loop.takes r) = some a → loop.sound env r a = true) :
    artifacts.countP (loop.fulfils env r) = loop.unread env artifacts r := by
  have htaken : (artifacts.find? (loop.takes r)).any (loop.fulfils env r) =
      (artifacts.find? (loop.takes r)).any (answers r) := by
    cases hfind : artifacts.find? (loop.takes r) with
    | none => rfl
    | some a => simp [ContentLoop.fulfils, h a hfind]
  rw [countP_eraseP _ (loop.takes r), htaken]
  rfl

/-! ## A pass -/

/-- A passing submission has nothing missing, nothing refused and no origin that is not
allowed. -/
theorem checks_of_pass (hpass : (postRun env body).verdict = .pass) :
    (∀ o ∈ finalOrigin env body, o = "" ∨ body.allowedOrigins = [] ∨ o ∈ body.allowedOrigins) ∧
      missingRequiredArtifacts env (getTaskDescriptor body) body.artifacts = [] ∧
      ∀ answer, validateDescriptorBoundArtifacts env (getTaskDescriptor body) body.artifacts =
        some answer → answer.verdict = .pass := by
  simp only [postRun] at hpass
  split_ifs at hpass with horigin hmissing
  refine ⟨fun o ho => ?_, by simpa [RunBody.artifacts] using hmissing, fun answer hanswer => ?_⟩
  · rw [Option.mem_def] at ho
    simp only [ho, Option.any_some, Bool.not_eq_true, Bool.and_eq_false_iff] at horigin
    rcases horigin with (h | h) | h
    · exact .inl (by simpa using h)
    · exact .inr (.inl (by simpa using h))
    · exact .inr (.inr (by simpa using h))
  · rw [RunBody.artifacts] at hanswer
    simpa [hanswer] using hpass

/-- No refusal of a loop is a pass. -/
theorem refusal_not_pass {loop : ContentLoop} {artifacts : List Json} {n : ℕ} {r : Json}
    {answer : Answer} (h : loop.refusal env artifacts n r = some answer) :
    answer.verdict ≠ .pass := by
  unfold ContentLoop.refusal at h
  split at h
  · cases h
  split at h
  · cases h
    exact Verdict.noConfusion
  split at h
  · cases h
    exact Verdict.noConfusion
  · obtain ⟨_, _, rfl⟩ := Option.map_eq_some_iff.mp h
    exact Verdict.noConfusion

theorem run_not_pass {loop : ContentLoop} {artifacts : List Json} {n : ℕ} {rs : List Json}
    {answer : Answer} (h : loop.run env artifacts n rs = some answer) :
    answer.verdict ≠ .pass := by
  induction rs generalizing n with
  | nil => cases h
  | cons r rs ih =>
      rcases Option.or_eq_some_iff.mp h with h | ⟨_, h⟩
      · exact refusal_not_pass h
      · exact ih h

theorem runLoops_not_pass {artifacts req : List Json} {n : ℕ} {loops : List ContentLoop}
    {answer : Answer} (h : runLoops env artifacts req n loops = some answer) :
    answer.verdict ≠ .pass := by
  induction loops generalizing n with
  | nil => cases h
  | cons loop loops ih =>
      rcases Option.or_eq_some_iff.mp h with h | ⟨_, h⟩
      · exact run_not_pass h
      · exact ih h

/-- In a pass no loop has refused a requirement. -/
theorem refusal_of_pass (hpass : (postRun env body).verdict = .pass) {loop : ContentLoop}
    (hl : loop ∈ contentLoops env) {r : Json} (hr : r ∈ body.requirements)
    (hfor : loop.isFor r = true) : ∃ k, loop.refusal env body.artifacts k r = none := by
  obtain ⟨-, -, hcontent⟩ := checks_of_pass hpass
  have hnone : validateDescriptorBoundArtifacts env (getTaskDescriptor body) body.artifacts =
      none := by
    cases hvalidate : validateDescriptorBoundArtifacts env (getTaskDescriptor body)
        body.artifacts with
    | none => rfl
    | some answer => exact absurd (hcontent answer hvalidate) (runLoops_not_pass hvalidate)
  exact refusal_of_runLoops hnone hl hr hfor

/-- The artifact a loop takes for a requirement has sound content in a pass. -/
theorem taken_sound (hpass : (postRun env body).verdict = .pass) {loop : ContentLoop}
    (hl : loop ∈ contentLoops env) {r : Json} (hr : r ∈ body.requirements)
    (hfor : loop.isFor r = true) {a : Json} (ha : body.artifacts.find? (loop.takes r) = some a) :
    loop.sound env r a = true := by
  obtain ⟨k, hk⟩ := refusal_of_pass hpass hl hr hfor
  exact sound_of_refusal hk ha

/-- A member that is a string is an object's. -/
theorem obj_of_string? {r : Json} {key s : String} (h : r.string? key = some s) :
    asObject (some r) = some r ∧ r.textAt key "" = s := by
  unfold Json.string? at h
  split at h
  next heq =>
    cases h
    cases r with
    | obj fields => simp [asObject, Json.textAt, heq, Json.toText]
    | _ => simp [Json.get?] at heq
  · cases h

/-- The artifacts of each requirement with a kind are there in a pass. -/
theorem enough_of_pass (hpass : (postRun env body).verdict = .pass) {r : Json} {kind : String}
    (hr : r ∈ body.requirements) (hkind : r.string? "kind" = some kind) (hne : kind ≠ "") :
    requiredCount env r ≤ body.artifacts.countP (answers r) := by
  obtain ⟨-, hmissing, -⟩ := checks_of_pass hpass
  obtain ⟨hobj, htext⟩ := obj_of_string? hkind
  have hnone := List.filterMap_eq_nil_iff.mp hmissing r hr
  have hfilter : (some kind).filter (· ≠ "") = some kind := by simp [Option.filter, hne]
  have hhits : artifactMatches kind (r.string? "label") (r.string? "label_prefix") =
      answers r := by
    funext a
    rw [answers, htext]
  simp only [hobj, Option.bind_some, hkind, hfilter, hhits, ← List.countP_eq_length_filter] at hnone
  by_contra hlt
  simp [not_le.mp hlt] at hnone

/-! ## Main result -/

/-- The final URL of a passing submission is allowed exactly if it is a text that parses. -/
theorem originAllowed_iff (hpass : (postRun env body).verdict = .pass) :
    OriginAllowed env body ↔ body.allowedOrigins = [] ∨ body.hasFinalUrl = false ∨
      ∃ url u, body.finalUrl = some (.str url) ∧ env.parseUrl url = some u := by
  constructor
  · intro h
    by_cases hallowed : body.allowedOrigins = []
    · exact .inl hallowed
    by_cases hfinal : body.hasFinalUrl = true
    · obtain ⟨url, u, hurl, hparse, -⟩ := h hallowed hfinal
      exact .inr (.inr ⟨url, u, hurl, hparse⟩)
    · exact .inr (.inl (by simpa using hfinal))
  · intro h hallowed hfinal
    rcases h with h | h | ⟨url, u, hurl, hparse⟩
    · exact absurd h hallowed
    · rw [h] at hfinal
      cases hfinal
    · have horigin : finalOrigin env body = some u.origin := by
        simp [finalOrigin, finalUrlText, hurl, hparse]
      obtain ⟨hchecked, -⟩ := checks_of_pass hpass
      rcases hchecked u.origin horigin with h | h | h
      · exact absurd h (env.origin_ne_empty url u hparse)
      · exact absurd h hallowed
      · exact ⟨url, u, hurl, hparse, h⟩

/-- A submission that passes meets its descriptor exactly if what the gateway has not looked
at does. -/
theorem pass_meets_iff (hpass : (postRun env body).verdict = .pass) :
    MeetsDescriptor env body ↔ UnreadMeets env body := by
  have hcount : ∀ loop ∈ contentLoops env, ∀ r ∈ body.requirements, loop.isFor r = true →
      body.artifacts.countP (loop.fulfils env r) = loop.unread env body.artifacts r :=
    fun loop hl r hr hfor => countP_fulfils fun a ha => taken_sound hpass hl hr hfor ha
  constructor
  · rintro ⟨hartifacts, hcontents, horigin⟩
    refine ⟨fun r hr hkind => hartifacts r hr (by simp [hkind]), fun loop hl r hr hfor => ?_,
      (originAllowed_iff hpass).mp horigin⟩
    have := hcontents loop hl r hr hfor
    rwa [hcount loop hl r hr hfor] at this
  · rintro ⟨hkindless, hothers, hparses⟩
    refine ⟨fun r hr hkind => ?_, fun loop hl r hr hfor => ?_,
      (originAllowed_iff hpass).mpr hparses⟩
    · obtain ⟨kind, hkind⟩ := Option.isSome_iff_exists.mp hkind
      by_cases hne : kind = ""
      · exact hkindless r hr (hne ▸ hkind)
      · exact enough_of_pass hpass hr hkind hne
    · have := hothers loop hl r hr hfor
      rwa [← hcount loop hl r hr hfor] at this

/-- The artifact `a` is a video, and `b` is not. -/
def twoArtifactsEnv : GatewayEnv where
  parseJson _ := none
  parseUrl _ := none
  origin_ne_empty _ _ h := by cases h
  number _ := .nan
  finiteNumber
    | .num "1" => some 1
    | .num "2" => some 2
    | _ => none
  maxArtifactBytes := .finite 25000000
  contents artifactId :=
    if artifactId = "a" then [0, 0, 0, 24, 0x66, 0x74, 0x79, 0x70, 0x69, 0x73, 0x6f, 0x6d]
    else [0x78]
  transfer _ := .response true 200 none
  harness _ _ := none

/-- A submission of the artifacts `a` and `b` where so many videos are asked for. -/
def videosBody (count : String) : RunBody where
  taskDescriptor := some (.obj
    [("capability_tags", .arr [.str "ffmpeg"]),
      ("output_spec", .obj [("required_artifacts",
        .arr [.obj [("kind", .str "video"), ("count", .num count)]])])])
  allowedOrigins := []
  finalUrl := none
  reproSteps := some (.arr [.str "run ffmpeg"])
  expected := some (.str "clip mp4")
  observed := some (.str "generated clip")
  artifactIndex := some (.arr
    [.obj [("kind", .str "video"), ("url", .str "/api/artifacts/a/download")],
      .obj [("kind", .str "video"), ("url", .str "/api/artifacts/b/download")]])

theorem one_video_met : MeetsDescriptor twoArtifactsEnv (videosBody "1") :=
  (pass_meets_iff (by decide)).mpr
    ⟨by decide, by decide, .inl rfl⟩

/-- Two videos are asked for, the second is no video, and the gateway answers `pass`. -/
theorem second_video_unread :
    (postRun twoArtifactsEnv (videosBody "2")).verdict = .pass ∧
      ¬ MeetsDescriptor twoArtifactsEnv (videosBody "2") := by
  refine ⟨by decide, fun h => ?_⟩
  have hvideos := h.2.1 videoLoop List.mem_cons_self _ List.mem_cons_self rfl
  revert hvideos
  decide

end OpenUnion.Gateway
