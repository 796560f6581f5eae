import OpenUnion.Code.OrgApps
import OpenUnion.Safety.Descriptors

/-!
# The task type of an app and of its default descriptor

An app is created with a descriptor of its own task type.  A patch that brings both is held to the
same rule, unless its task type is blank, but one that brings just one of the two is not compared
with the row.

* `createAppRoute_matches`, `patchedDescriptor_ok`: what the checks of a body establish.
* `appStep_matches`: a request keeps the rows right if it does not change one side alone.
* `descriptors_match`: so does every sequence of such requests.
* `task_type_moved`: a patch of the task type leaves the descriptor behind.
-/

namespace OpenUnion

/-- The descriptor of an app is empty or of the app's task type. -/
def AppRow.Matches (row : AppRow) : Prop :=
  row.defaultDescriptor = .obj [] ∨
    row.defaultDescriptor.get? "type" = some (.str row.taskType)

/-- Every app has the task type of its descriptor. -/
def RowsMatch (apps : Apps) : Prop := ∀ row ∈ apps, row.Matches

/-- A patch does not change one side of a row alone: a new task type alone is that of the stored
descriptor, a new descriptor alone is of the stored task type, and a task type that comes with a
descriptor is not blank. -/
def AppRequest.KeepsPair (env : AppsEnv) (apps : Apps) : AppRequest → Prop
  | .create _ _ _ _ => True
  | .update orgId _ appId body =>
      ∀ row ∈ apps, row.isOf orgId appId = true →
        match body.get? "taskType", body.get? "defaultDescriptor" with
        | none, none => True
        | some taskType, none => row.defaultDescriptor = .obj [] ∨
            row.defaultDescriptor.get? "type" = some (.str (trimmed taskType.toText))
        | none, some raw => ∀ d, env.safeParse raw = .ok d → d.type = row.taskType
        | some _, some _ => trimmed (body.textAt "taskType" "") ≠ ""

section

variable {env : AppsEnv} {apps apps' : Apps} {body : Json} {row : AppRow} {p : AppPatch}

/-! ## What the checks establish -/

/-- A stored descriptor has its type. -/
theorem toJson_type (d : Descriptor) : d.toJson.get? "type" = some (.str d.type) := by
  simp [Descriptor.toJson, Descriptor.members, Json.get?, List.lookup_cons]

/-- The descriptor of a new app is empty or of its task type. -/
theorem createAppRoute_matches {env : RouteEnv} {taskType : String} {j : Json}
    (h : createAppRoute env taskType body = .ok j) :
    j = .obj [] ∨ j.get? "type" = some (.str (trimmed taskType)) := by
  unfold createAppRoute at h
  split at h
  · exact .inl (Except.ok.inj h).symm
  · obtain ⟨d, -, h⟩ := bind_ok.mp h
    obtain ⟨u, htype, h⟩ := bind_ok.mp h
    obtain ⟨_, -, h⟩ := bind_ok.mp h
    have hmatch : d.type = trimmed taskType := of_decide_eq_true (replyUnless_ok.mp htype)
    obtain rfl := Except.ok.inj h
    exact .inr (hmatch ▸ toJson_type d)

/-- The descriptor of a patch is one of the body's, of the body's task type unless that is
blank. -/
theorem patchedDescriptor_ok {env : RouteEnv} {patched : Option Json}
    (h : patchedDescriptor env body = .ok patched) :
    body.get? "defaultDescriptor" = none ∧ patched = none ∨
      ∃ raw d, body.get? "defaultDescriptor" = some raw ∧ env.safeParse raw = .ok d ∧
        patched = some d.toJson ∧
        (trimmed (body.textAt "taskType" "") = "" ∨
          d.type = trimmed (body.textAt "taskType" "")) := by
  unfold patchedDescriptor at h
  cases hraw : body.get? "defaultDescriptor" with
  | none =>
      rw [hraw] at h
      exact .inl ⟨rfl, (Except.ok.inj h).symm⟩
  | some raw =>
      rw [hraw] at h
      obtain ⟨d, hparsed, h⟩ := bind_ok.mp h
      obtain ⟨_, -, h⟩ := bind_ok.mp h
      obtain ⟨u, htype, h⟩ := bind_ok.mp h
      have hparse : env.safeParse raw = .ok d := by
        unfold parseDescriptor at hparsed
        obtain ⟨_, -, hparsed⟩ := bind_ok.mp hparsed
        cases hresult : env.safeParse raw with
        | error message => simp [hresult] at hparsed
        | ok d' =>
            rw [hresult] at hparsed
            exact congrArg Except.ok (Except.ok.inj hparsed)
      exact .inr ⟨raw, d, rfl, hparse, (Except.ok.inj h).symm,
        of_decide_eq_true (replyUnless_ok.mp htype)⟩

/-- The task type and the descriptor of a patch are those of its body. -/
theorem admitPatch_ok {role : String} (h : admitPatch env role body = .ok p) :
    p.taskType = (body.get? "taskType").map (fun v => trimmed v.toText) ∧
      patchedDescriptor env.toRouteEnv body = .ok p.defaultDescriptor := by
  unfold admitPatch at h
  obtain ⟨_, -, h⟩ := bind_ok.mp h
  obtain ⟨dashboardUrl, -, h⟩ := bind_ok.mp h
  obtain ⟨patched, hpatched, h⟩ := bind_ok.mp h
  obtain ⟨_, -, h⟩ := bind_ok.mp h
  obtain rfl := Except.ok.inj h
  exact ⟨rfl, hpatched⟩

/-- A row that is inserted has the task type of its descriptor. -/
theorem admitApp_matches {orgId role id : String} (h : admitApp env orgId role id body = .ok row) :
    row.Matches := by
  unfold admitApp at h
  obtain ⟨_, -, h⟩ := bind_ok.mp h
  obtain ⟨dashboardUrl, -, h⟩ := bind_ok.mp h
  obtain ⟨j, hdescriptor, h⟩ := bind_ok.mp h
  have hmatch := createAppRoute_matches hdescriptor
  split_ifs at h
  · obtain ⟨_, -, h⟩ := bind_ok.mp h
    obtain rfl := Except.ok.inj h
    exact hmatch
  · obtain rfl := Except.ok.inj h
    exact hmatch

/-! ## One request -/

/-- The row a patch changes has the task type of its descriptor again. -/
theorem patched_matches {orgId role appId : String} (hp : admitPatch env role body = .ok p)
    (hmatch : row.Matches) (hmem : row ∈ apps) (hrow : row.isOf orgId appId = true)
    (hpair : (AppRequest.update orgId role appId body).KeepsPair env apps) :
    (row.patched p).Matches := by
  obtain ⟨htype, hdescriptor⟩ := admitPatch_ok hp
  have hkeeps := hpair row hmem hrow
  unfold AppRow.Matches AppRow.patched
  dsimp only
  rcases patchedDescriptor_ok hdescriptor with ⟨hnone, hkept⟩ | ⟨raw, d, hraw, hparse, hnew, hboth⟩
  · rw [hkept, Option.getD_none]
    cases htaskType : body.get? "taskType" with
    | none =>
        rw [htype, htaskType, Option.map_none, Option.getD_none]
        exact hmatch
    | some taskType =>
        rw [htype, htaskType, Option.map_some, Option.getD_some]
        simpa only [htaskType, hnone] using hkeeps
  · rw [hnew, Option.getD_some]
    right
    cases htaskType : body.get? "taskType" with
    | none =>
        have hsame : d.type = row.taskType := by
          simp only [htaskType, hraw] at hkeeps
          exact hkeeps d hparse
        rw [htype, htaskType, Option.map_none, Option.getD_none, ← hsame]
        exact toJson_type d
    | some taskType =>
        have hgiven : trimmed (body.textAt "taskType" "") ≠ "" := by
          simpa only [htaskType, hraw] using hkeeps
        have htext : body.textAt "taskType" "" = taskType.toText := by
          unfold Json.textAt at hgiven ⊢
          rw [htaskType] at hgiven ⊢
          cases taskType with
          | null => exact absurd (by decide) hgiven
          | bool _ | num _ | str _ | arr _ | obj _ => rfl
        rw [htype, htaskType, Option.map_some, Option.getD_some, ← htext,
          ← hboth.resolve_left hgiven]
        exact toJson_type d

/-- What a request that is not refused does to the rows. -/
theorem answer_matches {request : AppRequest} (hmatch : RowsMatch apps)
    (hpair : request.KeepsPair env apps) (h : request.answer env apps = .ok apps') :
    RowsMatch apps' := by
  cases request with
  | create orgId role id body =>
      obtain ⟨row, hrow, h⟩ := bind_ok.mp h
      unfold createOrgApp at h
      split_ifs at h
      obtain rfl := Except.ok.inj h
      intro r hr
      rcases List.mem_append.mp hr with hold | hnew
      · exact hmatch r hold
      · obtain rfl := List.mem_singleton.mp hnew
        exact admitApp_matches hrow
  | update orgId role appId body =>
      obtain ⟨p, hp, h⟩ := bind_ok.mp h
      unfold updateOrgApp at h
      split at h
      · cases h
      · split_ifs at h
        obtain rfl := Except.ok.inj h
        intro r hr
        obtain ⟨old, hold, rfl⟩ := List.mem_map.mp hr
        split_ifs with hof
        · exact patched_matches hp (hmatch old hold) hold hof hpair
        · exact hmatch old hold

/-- A request keeps the rows right if it does not change one side of a row alone. -/
theorem appStep_matches {request : AppRequest × Bool} (hmatch : RowsMatch apps)
    (hpair : request.1.KeepsPair env apps) : RowsMatch (appStep env apps request) := by
  unfold appStep
  split_ifs
  · cases hanswer : request.1.answer env apps with
    | error e => exact hmatch
    | ok apps' => exact answer_matches hmatch hpair hanswer
  · exact hmatch

/-! ## All requests -/

/-- Every request that the rows meet in a run keeps the pair. -/
def PairsKept (env : AppsEnv) (apps : Apps) (requests : List (AppRequest × Bool)) : Prop :=
  ∀ before request after, requests = before ++ request :: after →
    request.1.KeepsPair env (appRun env apps before)

/-- After every sequence of requests none of which changes one side of a row alone, each app has
the task type of its descriptor. -/
theorem descriptors_match (env : AppsEnv) (apps : Apps) (requests : List (AppRequest × Bool))
    (hmatch : RowsMatch apps) (hpairs : PairsKept env apps requests) :
    RowsMatch (appRun env apps requests) := by
  induction requests generalizing apps with
  | nil => exact hmatch
  | cons request rest ih =>
      have hstep : RowsMatch (appStep env apps request) :=
        appStep_matches hmatch (hpairs [] request rest rfl)
      refine ih _ hstep fun before next after hsplit => ?_
      exact hpairs (request :: before) next after (by rw [hsplit]; rfl)

end

/-! ## Examples of runs -/

section Examples

/-- The default settings, with a schema that asks for a type. -/
def plainAppsEnv : AppsEnv where
  toRouteEnv := { demoRouteEnv with
    safeParse := fun j =>
      match j.get? "type" with
      | some (.str type) => .ok
          { type := type, capabilityTags := ["browser"], inputSpec := [], outputSpec := []
            freshnessSlaSec := none, siteProfile := none }
      | _ => .error "Invalid input" }
  uiSchemaMaxBytes := 32000
  href := id

/-- An app of the task type `a` with a descriptor. -/
def createA : AppRequest × Bool :=
  (.create "org1" "" "app1" (.obj [("slug", .str "a"), ("taskType", .str "a"), ("name", .str "A"),
    ("defaultDescriptor", .obj [("type", .str "a"), ("capability_tags", .arr [.str "browser"]),
      ("output_spec", .obj [])])]), true)

/-- The task type of the app is changed to `b`. -/
def retypeB : AppRequest × Bool :=
  (.update "org1" "" "app1" (.obj [("taskType", .str "b")]), true)

/-- The name of the app is changed. -/
def renameB : AppRequest × Bool :=
  (.update "org1" "" "app1" (.obj [("name", .str "B")]), true)

/-- A new name changes neither side. -/
theorem renamed_matches : RowsMatch (appRun plainAppsEnv [] [createA, renameB]) := by
  apply descriptors_match
  · exact fun row hrow => absurd hrow List.not_mem_nil
  · intro before request after hsplit
    rcases List.cons_eq_append_iff.mp hsplit with ⟨rfl, hcons⟩ | ⟨rest, rfl, hrest⟩
    · obtain ⟨rfl, -⟩ := List.cons.inj hcons
      trivial
    · rcases List.cons_eq_append_iff.mp hrest with ⟨rfl, hcons⟩ | ⟨rest', rfl, hrest'⟩
      · obtain ⟨rfl, -⟩ := List.cons.inj hcons
        exact fun row hrow hof => trivial
      · exact absurd hrest' (by simp)

/-- What a matching row shows of its two types. -/
theorem AppRow.Matches.types {row : AppRow} (h : row.Matches) :
    row.defaultDescriptor.textAt "type" "" = "" ∨
      row.defaultDescriptor.textAt "type" "" = row.taskType := by
  rcases h with hempty | htype
  · left
    rw [hempty]
    decide
  · right
    unfold Json.textAt
    rw [htype]
    rfl

/-- The task type moves and the descriptor stays. -/
theorem task_type_moved : RowsMatch [] ∧
    ¬ RowsMatch (appRun plainAppsEnv [] [createA, retypeB]) := by
  constructor
  · exact fun row hrow => absurd hrow List.not_mem_nil
  · intro h
    have hmoved : (appRun plainAppsEnv [] [createA, retypeB]).any (fun row =>
        decide (row.defaultDescriptor.textAt "type" "" = "a" ∧ row.taskType = "b")) = true := by
      decide +kernel
    obtain ⟨row, hrow, htypes⟩ := List.any_eq_true.mp hmoved
    obtain ⟨hdescriptor, htask⟩ := of_decide_eq_true htypes
    have hmatch := (h row hrow).types
    rw [hdescriptor, htask] at hmatch
    exact absurd hmatch (by decide)

end Examples

end OpenUnion
