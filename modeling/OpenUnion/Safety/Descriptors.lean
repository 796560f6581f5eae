import OpenUnion.Code.Descriptors
import Mathlib.Tactic.Common
import Mathlib.Tactic.Ring

/-!
# The limits of stored descriptors

A stored descriptor is safe when it prints to at most `TASK_DESCRIPTOR_MAX_BYTES` bytes, is
nested at most `TASK_DESCRIPTOR_MAX_DEPTH` deep and has no sensitive key.

* `hasSensitiveKeys_eq_false`: what the recursive check tells of a value.
* `persisted_safe_iff`: a stored descriptor is safe exactly when what the route fills in after
  the check, the URL and the selectors of a marketplace template, fits in the room that the
  checked descriptor has left.
* `injected_selectors_unsafe`: a bounty stored with a key that the check refuses.
-/

namespace OpenUnion

namespace Json

/-- A value is nested at most `n` deep, and its keys satisfy `P`. -/
def Within (P : String → Prop) (n : Nat) (j : Json) : Prop := j.depth ≤ n ∧ ∀ k ∈ j.keys, P k

section Values

variable {P : String → Prop} {n : Nat} {fields : List (String × Json)} {key : String}
  {value : Json}

theorem fieldsDepth_le : fieldsDepth fields ≤ n ↔ ∀ p ∈ fields, p.2.depth ≤ n := by
  induction fields with
  | nil => simp [fieldsDepth]
  | cons p rest ih => simp [fieldsDepth, ih]

theorem mem_fieldsKeys {k : String} :
    k ∈ fieldsKeys fields ↔ ∃ p ∈ fields, k = p.1 ∨ k ∈ p.2.keys := by
  induction fields with
  | nil => simp [fieldsKeys]
  | cons p rest ih => simp [fieldsKeys, ih, or_assoc]

/-- An object is as deep as its members allow. -/
theorem within_obj :
    (obj fields).Within P (n + 1) ↔ ∀ p ∈ fields, P p.1 ∧ p.2.Within P n := by
  have hdepth : (obj fields).depth ≤ n + 1 ↔ ∀ p ∈ fields, p.2.depth ≤ n := by
    rw [← fieldsDepth_le]
    cases fields with
    | nil => simp [depth, fieldsDepth]
    | cons p rest => simp [depth]
  have hkeys : (∀ k ∈ (obj fields).keys, P k) ↔
      ∀ p ∈ fields, P p.1 ∧ ∀ k ∈ p.2.keys, P k := by
    simp only [keys, mem_fieldsKeys]
    constructor
    · intro h p hp
      exact ⟨h p.1 ⟨p, hp, .inl rfl⟩, fun k hk => h k ⟨p, hp, .inr hk⟩⟩
    · intro h k hk
      obtain ⟨p, hp, rfl | hk⟩ := hk
      · exact (h p hp).1
      · exact (h p hp).2 k hk
  unfold Within
  rw [hdepth, hkeys]
  constructor
  · intro h p hp
    exact ⟨(h.2 p hp).1, h.1 p hp, (h.2 p hp).2⟩
  · intro h
    exact ⟨fun p hp => (h p hp).2.1, fun p hp => ⟨(h p hp).1, (h p hp).2.2⟩⟩

/-- An object without depth has no members. -/
theorem eq_nil_of_within_zero (h : (obj fields).Within P 0) : fields = [] := by
  cases fields with
  | nil => rfl
  | cons p rest =>
      have hdepth := h.1
      simp [depth] at hdepth

/-- The members after one is set. -/
theorem mem_setMember {p : String × Json} (h : p ∈ setMember fields key value) :
    p = (key, value) ∨ p ∈ fields := by
  induction fields with
  | nil => exact .inl (by simpa [setMember] using h)
  | cons q rest ih =>
      rw [setMember] at h
      split_ifs at h with hkey
      · rcases List.mem_cons.mp h with rfl | h
        · exact .inl (by rw [hkey])
        · exact .inr (List.mem_cons_of_mem _ h)
      · rcases List.mem_cons.mp h with rfl | h
        · exact .inr List.mem_cons_self
        · exact (ih h).imp_right (List.mem_cons_of_mem _)

theorem mem_setMember_self : (key, value) ∈ setMember fields key value := by
  induction fields with
  | nil => simp [setMember]
  | cons q rest ih =>
      rw [setMember]
      split_ifs with hkey
      · rw [hkey]
        exact List.mem_cons_self
      · exact List.mem_cons_of_mem _ ih

theorem mem_setMember_of_ne {p : String × Json} (h : p ∈ fields) (hne : p.1 ≠ key) :
    p ∈ setMember fields key value := by
  induction fields with
  | nil => exact absurd h List.not_mem_nil
  | cons q rest ih =>
      rw [setMember]
      rcases List.mem_cons.mp h with rfl | h
      · rw [if_neg hne]
        exact List.mem_cons_self
      · split_ifs
        · exact List.mem_cons_of_mem _ h
        · exact List.mem_cons_of_mem _ (ih h)

/-- Setting a member of an object keeps it within its bounds exactly when the member is. -/
theorem within_setMember (h : (obj fields).Within P (n + 1)) (hkey : P key) :
    (obj (setMember fields key value)).Within P (n + 1) ↔ value.Within P n := by
  rw [within_obj] at h ⊢
  constructor
  · intro hset
    exact (hset _ mem_setMember_self).2
  · intro hvalue p hp
    rcases mem_setMember hp with rfl | hp
    · exact ⟨hkey, hvalue⟩
    · exact h p hp

end Values

section Bytes

variable {fields : List (String × Json)} {key : String} {value : Json}

theorem utf8Bytes_append (a b : List Char) : utf8Bytes (a ++ b) = utf8Bytes a + utf8Bytes b := by
  simp [utf8Bytes]

theorem utf8Bytes_cons (c : Char) (cs : List Char) :
    utf8Bytes (c :: cs) = c.utf8Size + utf8Bytes cs := by
  simp [utf8Bytes]

/-- The bytes of a member. -/
def memberBytes (key : String) (value : Json) : Nat := utf8Bytes (quoted key) + 1 + value.byteLength

/-- The bytes of the members of an object. -/
def fieldsBytes (fields : List (String × Json)) : Nat := utf8Bytes (stringifyFields fields)

theorem fieldsBytes_cons (p : String × Json) (rest : List (String × Json)) :
    fieldsBytes (p :: rest) =
      memberBytes p.1 p.2 + if rest = [] then 0 else 1 + fieldsBytes rest := by
  have hcolon : Char.utf8Size ':' = 1 := by decide
  have hcomma : Char.utf8Size ',' = 1 := by decide
  cases rest with
  | nil =>
      simp [fieldsBytes, stringifyFields, memberBytes, byteLength, utf8Bytes_append,
        utf8Bytes_cons, hcolon]
      omega
  | cons q rest =>
      simp [fieldsBytes, stringifyFields, memberBytes, byteLength, utf8Bytes_append,
        utf8Bytes_cons, hcolon, hcomma]
      omega

theorem byteLength_obj : (obj fields).byteLength = fieldsBytes fields + 2 := by
  have hopen : Char.utf8Size '\x7b' = 1 := by decide
  have hclose : Char.utf8Size '\x7d' = 1 := by decide
  simp [byteLength, stringify, fieldsBytes, utf8Bytes, hopen, hclose]
  omega

/-- How many bytes it takes to set a member: those of the value that it replaces count against
it. -/
def setCost (fields : List (String × Json)) (key : String) (value : Json) : Int :=
  match fields.lookup key with
  | some old => value.byteLength - old.byteLength
  | none => memberBytes key value + if fields = [] then 0 else 1

theorem setMember_ne_nil : setMember fields key value ≠ [] := by
  intro h
  have hmem : (key, value) ∈ setMember fields key value := mem_setMember_self
  rw [h] at hmem
  exact List.not_mem_nil hmem

theorem fieldsBytes_setMember :
    (fieldsBytes (setMember fields key value) : Int) =
      fieldsBytes fields + setCost fields key value := by
  induction fields with
  | nil =>
      have hnil : fieldsBytes [] = 0 := by simp [fieldsBytes, stringifyFields, utf8Bytes]
      simp [setMember, fieldsBytes_cons, setCost, hnil]
  | cons p rest ih =>
      by_cases hkey : p.1 = key
      · have hset : setMember (p :: rest) key value = (p.1, value) :: rest := by
          rw [setMember, if_pos hkey]
        have hcost : setCost (p :: rest) key value = value.byteLength - p.2.byteLength := by
          have hfound : (p :: rest).lookup key = some p.2 := by
            rw [← hkey]
            exact List.lookup_cons_self
          rw [setCost, hfound]
        rw [hset, hcost, fieldsBytes_cons, fieldsBytes_cons, memberBytes, memberBytes]
        push_cast
        ring
      · have hset : setMember (p :: rest) key value = p :: setMember rest key value := by
          rw [setMember, if_neg hkey]
        have hlookup : (p :: rest).lookup key = rest.lookup key := by
          have hother : (key == p.1) = false := beq_eq_false_iff_ne.mpr (Ne.symm hkey)
          obtain ⟨k, v⟩ := p
          rw [List.lookup_cons, hother]
        rw [hset, fieldsBytes_cons, fieldsBytes_cons, if_neg setMember_ne_nil]
        push_cast
        rw [ih]
        by_cases hrest : rest = []
        · subst hrest
          simp [setCost, hlookup, fieldsBytes, stringifyFields, utf8Bytes]
          ring
        · simp [setCost, hlookup, hrest]
          ring

/-- The bytes of an object after a member is set. -/
theorem byteLength_setMember :
    ((obj (setMember fields key value)).byteLength : Int) =
      (obj fields).byteLength + setCost fields key value := by
  rw [byteLength_obj, byteLength_obj]
  push_cast
  rw [fieldsBytes_setMember]
  ring

end Bytes

end Json

section Sensitive

variable (env : RouteEnv)

/-- A key that the check lets through. -/
def HarmlessKey (key : String) : Prop := isSensitiveKey env key = false

/-- A value beside others is nested at most `m` deep when it is and they are. -/
theorem deeper_le (m n a b : Nat) (none : Prop) (hnone : none → b = 0) :
    n + max a b ≤ m ↔ n + a ≤ m ∧ (none ∨ n + b ≤ m) := by
  by_cases h : none
  · have hb : b = 0 := hnone h
    simp [h, hb]
  · simp [h]
    omega

mutual

/-- The recursive check lets a value through when it is not nested too deep and its keys are
harmless. -/
theorem hasSensitiveKeys_eq_false : ∀ (j : Json) (n : Nat),
    hasSensitiveKeys env j n = false ↔
      n + j.depth ≤ env.maxDepth ∧ ∀ k ∈ j.keys, HarmlessKey env k
  | .null, n | .bool _, n | .num _, n | .str _, n => by
      simp [hasSensitiveKeys, Json.depth, Json.keys]
  | .arr [], n => by simp [hasSensitiveKeys, elemsSensitive, Json.depth, Json.keys, Json.elemsKeys]
  | .arr (j :: js), n => by
      have helems := elemsSensitive_eq_false (j :: js) (n + 1)
      have hdepth : n ≤ env.maxDepth ∧ n + 1 + Json.elemsDepth (j :: js) ≤ env.maxDepth ↔
          n + (Json.elemsDepth (j :: js) + 1) ≤ env.maxDepth := by omega
      simp only [hasSensitiveKeys, Bool.or_eq_false_iff, helems, Json.depth, Json.keys, ← hdepth]
      simp [and_assoc]
  | .obj [], n => by
      simp [hasSensitiveKeys, fieldsSensitive, Json.depth, Json.keys, Json.fieldsKeys]
  | .obj (f :: fs), n => by
      have hfields := fieldsSensitive_eq_false (f :: fs) (n + 1)
      have hdepth : n ≤ env.maxDepth ∧ n + 1 + Json.fieldsDepth (f :: fs) ≤ env.maxDepth ↔
          n + (Json.fieldsDepth (f :: fs) + 1) ≤ env.maxDepth := by omega
      simp only [hasSensitiveKeys, Bool.or_eq_false_iff, hfields, Json.depth, Json.keys, ← hdepth]
      simp [and_assoc]

theorem elemsSensitive_eq_false : ∀ (js : List Json) (n : Nat),
    elemsSensitive env js n = false ↔
      (js = [] ∨ n + Json.elemsDepth js ≤ env.maxDepth) ∧
        ∀ k ∈ Json.elemsKeys js, HarmlessKey env k
  | [], n => by simp [elemsSensitive, Json.elemsKeys]
  | j :: js, n => by
      have hj := hasSensitiveKeys_eq_false j n
      have hjs := elemsSensitive_eq_false js n
      have hdepth := deeper_le env.maxDepth n j.depth (Json.elemsDepth js) (js = []) (by
        rintro rfl
        rfl)
      simp only [elemsSensitive, Bool.or_eq_false_iff, hj, hjs, Json.elemsDepth, Json.elemsKeys]
      simp only [List.mem_append, or_imp, forall_and, hdepth, reduceCtorEq, false_or]
      exact and_and_and_comm

theorem fieldsSensitive_eq_false : ∀ (fs : List (String × Json)) (n : Nat),
    fieldsSensitive env fs n = false ↔
      (fs = [] ∨ n + Json.fieldsDepth fs ≤ env.maxDepth) ∧
        ∀ k ∈ Json.fieldsKeys fs, HarmlessKey env k
  | [], n => by simp [fieldsSensitive, Json.fieldsKeys]
  | (k, v) :: rest, n => by
      have hv := hasSensitiveKeys_eq_false v n
      have hrest := fieldsSensitive_eq_false rest n
      have hdepth := deeper_le env.maxDepth n v.depth (Json.fieldsDepth rest) (rest = []) (by
        rintro rfl
        rfl)
      simp only [fieldsSensitive, Bool.or_eq_false_iff, hv, hrest, Json.fieldsDepth,
        Json.fieldsKeys]
      simp only [List.mem_cons, List.mem_append, or_imp, forall_and, forall_eq, hdepth,
        reduceCtorEq, false_or, HarmlessKey]
      constructor
      · rintro ⟨⟨hkey, hdeep, hkeys⟩, hdeeper, hmore⟩
        exact ⟨⟨hdeep, hdeeper⟩, hkey, hkeys, hmore⟩
      · rintro ⟨⟨hdeep, hdeeper⟩, hkey, hkeys, hmore⟩
        exact ⟨⟨hkey, hdeep, hkeys⟩, hdeeper, hmore⟩

end

end Sensitive

section Room

open Json

variable (env : RouteEnv)

/-- The limits of a stored descriptor. -/
def SafeDescriptor (j : Json) : Prop :=
  j.byteLength ≤ env.maxBytes ∧ j.Within (HarmlessKey env) env.maxDepth

variable {env} {d : Descriptor}

/-- A key of small letters is harmless unless it has one of the refused words. -/
theorem harmless_of_lower {key : String}
    (hlower : (key.toList.all fun c => c.isLower || c == '_') = true)
    (hwords : ["token", "secret", "password"].any (includes key) = false) :
    HarmlessKey env key := by
  rw [HarmlessKey, isSensitiveKey, env.toLowerCase_lower key hlower]
  exact hwords

/-- The keys that the route fills in. -/
theorem harmless_filled {key : String} (h : key ∈ ["input_spec", "url", "site_profile",
    "selectors", "marketplace_wait_selector"]) : HarmlessKey env key := by
  have hcheck : ["input_spec", "url", "site_profile", "selectors",
      "marketplace_wait_selector"].all (fun key =>
        (key.toList.all fun c => c.isLower || c == '_') &&
          (["token", "secret", "password"].any (includes key) == false)) = true := by decide
  have hkey := List.all_eq_true.mp hcheck key h
  simp only [Bool.and_eq_true, beq_iff_eq] at hkey
  exact harmless_of_lower hkey.1 hkey.2

/-- How many bytes the start URL adds. -/
def Descriptor.urlCost (d : Descriptor) : Option String → Int
  | some url => setCost d.inputSpec "url" (.str url)
  | none => 0

/-- How many bytes the selectors add; a descriptor without a site profile gets the member
`,"site_profile":{}` first. -/
def Descriptor.selectorsCost (d : Descriptor) : Option (Json × String) → Int
  | some (selectors, waitSelector) =>
      let fields := d.siteProfile.getD []
      (if d.siteProfile.isSome then 0 else 18) + setCost fields "selectors" selectors +
        if waitSelector = "" then 0
        else setCost (setMember fields "selectors" selectors) "marketplace_wait_selector"
          (.str waitSelector)
  | none => 0

/-- What is filled in fits in the room that the descriptor leaves. -/
def Descriptor.LeavesRoom (env : RouteEnv) (d : Descriptor) (url : Option String)
    (selectors : Option (Json × String)) : Prop :=
  d.toJson.byteLength + d.urlCost url + d.selectorsCost selectors ≤ (env.maxBytes : Int) ∧
    ∀ s ∈ selectors, s.1.depth + 2 ≤ env.maxDepth ∧ ∀ k ∈ s.1.keys, HarmlessKey env k

theorem Descriptor.members_withUrl (url : String) :
    (d.withUrl (some url)).members =
      setMember d.members "input_spec" (.obj (setMember d.inputSpec "url" (.str url))) := by
  simp [withUrl, members, setMember]

theorem Descriptor.lookup_input_spec : d.members.lookup "input_spec" = some (.obj d.inputSpec) := by
  simp [members, List.lookup_cons]

theorem Descriptor.lookup_site_profile :
    d.members.lookup "site_profile" = d.siteProfile.map .obj := by
  cases hfresh : d.freshnessSlaSec <;> cases hprofile : d.siteProfile <;>
    simp [members, List.lookup_cons, hfresh, hprofile]

/-- The fields of the site profile with the selectors. -/
def Descriptor.profileWith (d : Descriptor) (selectors : Json) (waitSelector : String) :
    List (String × Json) :=
  let fields := setMember (d.siteProfile.getD []) "selectors" selectors
  if waitSelector = "" then fields
  else setMember fields "marketplace_wait_selector" (.str waitSelector)

theorem Descriptor.members_withSelectors (selectors : Json) (waitSelector : String) :
    (d.withSelectors (some (selectors, waitSelector))).members =
      setMember d.members "site_profile" (.obj (d.profileWith selectors waitSelector)) := by
  cases hfresh : d.freshnessSlaSec <;> cases hprofile : d.siteProfile <;>
    simp [withSelectors, profileWith, members, setMember, hfresh, hprofile]

theorem Descriptor.byteLength_withUrl (url : Option String) :
    ((d.withUrl url).toJson.byteLength : Int) = d.toJson.byteLength + d.urlCost url := by
  cases url with
  | none => simp [withUrl, urlCost]
  | some url =>
      have hcost : setCost d.members "input_spec" (.obj (setMember d.inputSpec "url" (.str url))) =
          d.urlCost (some url) := by
        rw [setCost, d.lookup_input_spec]
        dsimp only
        rw [byteLength_setMember, urlCost]
        ring
      rw [toJson, members_withUrl, byteLength_setMember, hcost, toJson]

theorem Descriptor.byteLength_profileWith (selectors : Json) (waitSelector : String) :
    ((obj (d.profileWith selectors waitSelector)).byteLength : Int) +
        (if d.siteProfile.isSome then 0 else 18) =
      (obj (d.siteProfile.getD [])).byteLength +
        d.selectorsCost (some (selectors, waitSelector)) := by
  unfold profileWith selectorsCost
  by_cases hwait : waitSelector = ""
  · simp only [hwait, if_true]
    rw [byteLength_setMember]
    ring
  · simp only [hwait, if_false]
    rw [byteLength_setMember, byteLength_setMember]
    ring

theorem Descriptor.byteLength_withSelectors (selectors : Option (Json × String)) :
    ((d.withSelectors selectors).toJson.byteLength : Int) =
      d.toJson.byteLength + d.selectorsCost selectors := by
  rcases selectors with _ | ⟨selectors, waitSelector⟩
  · simp [withSelectors, selectorsCost]
  · have hprofile := d.byteLength_profileWith selectors waitSelector
    have hcost : setCost d.members "site_profile" (.obj (d.profileWith selectors waitSelector)) =
        d.selectorsCost (some (selectors, waitSelector)) := by
      rw [setCost, d.lookup_site_profile]
      cases hsp : d.siteProfile with
      | none =>
          have hkey : utf8Bytes (quoted "site_profile") = 14 := by decide
          have hempty : (obj []).byteLength = 2 := by decide +kernel
          have hmembers : d.members ≠ [] := by simp [members]
          simp only [hsp, Option.getD_none, Option.isSome_none, hempty] at hprofile
          simp only [Option.map_none, memberBytes, hkey, hmembers, if_false]
          simp only [Bool.false_eq_true, if_false] at hprofile
          push_cast at hprofile ⊢
          omega
      | some fields =>
          simp only [hsp, Option.getD_some, Option.isSome_some, if_true] at hprofile
          change ((obj _).byteLength : Int) - (obj fields).byteLength = _
          omega
    rw [toJson, members_withSelectors, byteLength_setMember, hcost, toJson]

/-- The bytes of a descriptor after the URL and the selectors are filled in. -/
theorem Descriptor.byteLength_filled (url : Option String) (selectors : Option (Json × String)) :
    (((d.withUrl url).withSelectors selectors).toJson.byteLength : Int) =
      d.toJson.byteLength + d.urlCost url + d.selectorsCost selectors := by
  have hsame : (d.withUrl url).selectorsCost selectors = d.selectorsCost selectors := by
    cases url <;> rfl
  rw [byteLength_withSelectors, byteLength_withUrl, hsame]

section Nesting

variable {m : Nat}

theorem Descriptor.within_inputSpec (h : d.toJson.Within (HarmlessKey env) (m + 1)) :
    (obj d.inputSpec).Within (HarmlessKey env) m := by
  have hmem : ("input_spec", obj d.inputSpec) ∈ d.members := by simp [members]
  exact (within_obj.mp h _ hmem).2

theorem Descriptor.within_siteProfile (h : d.toJson.Within (HarmlessKey env) (m + 1)) :
    (obj (d.siteProfile.getD [])).Within (HarmlessKey env) m := by
  cases hprofile : d.siteProfile with
  | none => exact ⟨Nat.zero_le _, fun k hk => by simp [keys, fieldsKeys] at hk⟩
  | some fields =>
      have hmem : ("site_profile", obj fields) ∈ d.members := by simp [members, hprofile]
      exact (within_obj.mp h _ hmem).2

theorem within_str (url : String) (n : Nat) : (str url).Within (HarmlessKey env) n :=
  ⟨Nat.zero_le _, fun k hk => by simp [keys] at hk⟩

theorem Descriptor.within_withUrl (h : d.toJson.Within (HarmlessKey env) (m + 2))
    (url : Option String) : (d.withUrl url).toJson.Within (HarmlessKey env) (m + 2) := by
  cases url with
  | none => exact h
  | some url =>
      have hinput : (obj (setMember d.inputSpec "url" (.str url))).Within (HarmlessKey env)
          (m + 1) :=
        (within_setMember (d.within_inputSpec h) (harmless_filled (by simp))).mpr (within_str url m)
      rw [toJson, members_withUrl]
      exact (within_setMember h (harmless_filled (by simp))).mpr hinput

theorem Descriptor.within_profileWith (h : d.toJson.Within (HarmlessKey env) (m + 2))
    (selectors : Json) (waitSelector : String) :
    (obj (d.profileWith selectors waitSelector)).Within (HarmlessKey env) (m + 1) ↔
      selectors.Within (HarmlessKey env) m := by
  have hkey : HarmlessKey env "selectors" := harmless_filled (by simp)
  have hmem : ("selectors", selectors) ∈ d.profileWith selectors waitSelector := by
    rw [profileWith]
    split_ifs
    · exact mem_setMember_self
    · exact mem_setMember_of_ne mem_setMember_self (by simp)
  constructor
  · intro hprofile
    exact (within_obj.mp hprofile _ hmem).2
  · intro hs
    have hfields := (within_setMember (d.within_siteProfile h) hkey).mpr hs
    rw [profileWith]
    split_ifs
    · exact hfields
    · exact (within_setMember hfields (harmless_filled (by simp))).mpr (within_str waitSelector m)

theorem Descriptor.within_withSelectors (h : d.toJson.Within (HarmlessKey env) (m + 2))
    (selectors : Option (Json × String)) :
    (d.withSelectors selectors).toJson.Within (HarmlessKey env) (m + 2) ↔
      ∀ s ∈ selectors, s.1.Within (HarmlessKey env) m := by
  rcases selectors with _ | ⟨selectors, waitSelector⟩
  · simpa [withSelectors] using h
  · rw [toJson, members_withSelectors, within_setMember h (harmless_filled (by simp)),
      d.within_profileWith h]
    simp

/-- A descriptor with an input is nested two deep. -/
theorem Descriptor.two_le_depth (hinput : d.inputSpec ≠ []) {n : Nat}
    (h : d.toJson.Within (HarmlessKey env) n) : ∃ m, n = m + 2 := by
  match n, h with
  | 0, h =>
      have hmembers : d.members = [] := eq_nil_of_within_zero h
      simp [members] at hmembers
  | 1, h => exact absurd (eq_nil_of_within_zero (d.within_inputSpec h)) hinput
  | m + 2, _ => exact ⟨m, rfl⟩

end Nesting

/-- What is filled into a safe descriptor keeps it safe exactly when there is room for it. -/
theorem Descriptor.safe_filled {url : Option String} {selectors : Option (Json × String)}
    (hsafe : SafeDescriptor env d.toJson)
    (hinput : url = none ∧ selectors = none ∨ d.inputSpec ≠ []) :
    SafeDescriptor env ((d.withUrl url).withSelectors selectors).toJson ↔
      d.LeavesRoom env url selectors := by
  have hbytes := d.byteLength_filled url selectors
  have hroom : ((d.withUrl url).withSelectors selectors).toJson.byteLength ≤ env.maxBytes ↔
      d.toJson.byteLength + d.urlCost url + d.selectorsCost selectors ≤ (env.maxBytes : Int) := by
    rw [← hbytes]
    exact Int.ofNat_le.symm
  have hnested : ((d.withUrl url).withSelectors selectors).toJson.Within (HarmlessKey env)
      env.maxDepth ↔
      ∀ s ∈ selectors, s.1.depth + 2 ≤ env.maxDepth ∧ ∀ k ∈ s.1.keys, HarmlessKey env k := by
    rcases hinput with ⟨rfl, rfl⟩ | hinput
    · simpa [withUrl, withSelectors] using hsafe.2
    · obtain ⟨m, hm⟩ := d.two_le_depth hinput hsafe.2
      have hwithin := hsafe.2
      rw [hm] at hwithin ⊢
      rw [(d.withUrl url).within_withSelectors (d.within_withUrl hwithin url)]
      simp [Json.Within]
  unfold SafeDescriptor LeavesRoom
  rw [hroom, hnested]

end Room

section Stored

variable (env : RouteEnv) (cat : Catalog)

theorem bind_ok {ε α β : Type} {x : Except ε α} {f : α → Except ε β} {b : β} :
    x >>= f = .ok b ↔ ∃ a, x = .ok a ∧ f a = .ok b := by
  cases x with
  | error e => simp [bind, Except.bind]
  | ok a => simp [bind, Except.bind]

theorem map_ok {ε α β : Type} {x : Except ε α} {f : α → β} {b : β} :
    f <$> x = .ok b ↔ ∃ a, x = .ok a ∧ f a = b := by
  cases x with
  | error e => simp [Functor.map, Except.map]
  | ok a => simp [Functor.map, Except.map]

theorem replyUnless_ok {ok : Bool} {status : Nat} {code message : String} {u : Unit} :
    replyUnless ok status code message = .ok u ↔ ok = true := by
  unfold replyUnless
  split_ifs with h <;> simp [h]

/-- The two checks of a value are the limits. -/
theorem safe_iff_checks {j : Json} :
    SafeDescriptor env j ↔ j.byteLength ≤ env.maxBytes ∧ hasSensitiveKeys env j 0 = false := by
  rw [hasSensitiveKeys_eq_false, Nat.zero_add]
  rfl

theorem checkDescriptor_ok {what : String} {d : Descriptor} {u : Unit} :
    checkDescriptor env what d = .ok u ↔ SafeDescriptor env d.toJson := by
  unfold checkDescriptor
  rw [bind_ok]
  simp only [replyUnless_ok, decide_eq_true_eq, Bool.not_eq_true', safe_iff_checks]
  exact ⟨fun ⟨_, h⟩ => h, fun h => ⟨(), h⟩⟩

/-- A descriptor without an input has no start URL. -/
theorem marketplaceStartUrl_input {d : Descriptor} {startUrl : String} {url : Option String}
    (h : marketplaceStartUrl env cat d = .ok (startUrl, url)) :
    startUrl = "" ∧ url = none ∨ d.inputSpec ≠ [] := by
  by_cases hinput : d.inputSpec = []
  · have hquery : trimmed "" = "" := by decide
    have hempty : marketplaceStartUrl env cat d = .ok ("", none) := by
      simp [marketplaceStartUrl, hinput, Json.stringAt, Json.get?, hquery, sitesList, pure,
        Except.pure]
    rw [hempty] at h
    cases h
    exact .inl ⟨rfl, rfl⟩
  · exact .inr hinput

/-- Without a start URL no selectors are filled in. -/
theorem marketplaceSelectors_startUrl {d : Descriptor} {allowed publicOrigins : List String}
    {selectors : Option (Json × String)}
    (h : marketplaceSelectors env cat d "" allowed publicOrigins = .ok selectors) :
    selectors = none := by
  rw [marketplaceSelectors, if_pos rfl] at h
  cases h
  rfl

/-- There is room for what the route fills into the descriptor of a bounty. -/
def AdmittedBounty.LeavesRoom (a : AdmittedBounty) : Prop :=
  ∀ d app, a.descriptor = some d → a.app = some app → app.ownerOrgId = "org_system" →
    d.type = "marketplace_drops" → ∀ startUrl url selectors,
      marketplaceStartUrl env cat d = .ok (startUrl, url) →
      marketplaceSelectors env cat (d.withUrl url) startUrl a.allowedOrigins a.publicOrigins =
        .ok selectors →
      d.LeavesRoom env url selectors

/-- The descriptor that `enrichMarketplace` returns is safe exactly when there is room. -/
theorem enrichMarketplace_safe {d d' : Descriptor} {allowed publicOrigins : List String}
    (hsafe : SafeDescriptor env d.toJson)
    (h : enrichMarketplace env cat d allowed publicOrigins = .ok d') :
    SafeDescriptor env d'.toJson ↔ ∀ startUrl url selectors,
      marketplaceStartUrl env cat d = .ok (startUrl, url) →
      marketplaceSelectors env cat (d.withUrl url) startUrl allowed publicOrigins = .ok selectors →
      d.LeavesRoom env url selectors := by
  unfold enrichMarketplace at h
  obtain ⟨⟨startUrl, url⟩, hstart, h⟩ := bind_ok.mp h
  obtain ⟨selectors, hselectors, h⟩ := bind_ok.mp h
  obtain rfl : (d.withUrl url).withSelectors selectors = d' := by
    cases h
    rfl
  have hinput : url = none ∧ selectors = none ∨ d.inputSpec ≠ [] := by
    rcases marketplaceStartUrl_input env cat hstart with ⟨rfl, rfl⟩ | hinput
    · exact .inl ⟨rfl, marketplaceSelectors_startUrl env cat hselectors⟩
    · exact .inr hinput
  rw [Descriptor.safe_filled hsafe hinput]
  constructor
  · intro hroom startUrl' url' selectors' hstart' hselectors'
    rw [hstart] at hstart'
    cases hstart'
    rw [hselectors] at hselectors'
    cases hselectors'
    exact hroom
  · intro hroom
    exact hroom startUrl url selectors hstart hselectors

/-- The descriptor of an admitted bounty is safe after the route has filled it in exactly when
there is room. -/
theorem AdmittedBounty.enrich_safe {a : AdmittedBounty} {d' : Descriptor}
    (hsafe : ∀ d ∈ a.descriptor, SafeDescriptor env d.toJson)
    (h : a.enrich env cat = .ok (some d')) :
    SafeDescriptor env d'.toJson ↔ a.LeavesRoom env cat := by
  unfold enrich at h
  unfold LeavesRoom
  cases hd : a.descriptor with
  | none =>
      rw [hd] at h
      cases h
  | some d =>
      have hd' := hsafe d hd
      cases happ : a.app with
      | none =>
          rw [hd, happ] at h
          cases h
          simp [hd']
      | some app =>
          rw [hd, happ] at h
          dsimp only at h
          by_cases hsystem : app.ownerOrgId = "org_system"
          · rw [if_pos hsystem] at h
            by_cases hmarket : d.type = "marketplace_drops"
            · have hclips : d.type ≠ "clips_highlights" := by simp [hmarket]
              rw [if_neg hclips, if_pos hmarket] at h
              obtain ⟨d₁, henrich, hsome⟩ := map_ok.mp h
              obtain rfl := Option.some.inj hsome
              rw [enrichMarketplace_safe env cat hd' henrich]
              simp [hsystem, hmarket]
            · rw [if_neg hmarket] at h
              have hsame : d' = d := by
                split_ifs at h
                · obtain ⟨_, _, h⟩ := bind_ok.mp h
                  cases h
                  rfl
                · cases h
                  rfl
              rw [hsame]
              simp [hd', hmarket]
          · rw [if_neg hsystem] at h
            cases h
            simp [hd', hsystem]

/-- The descriptor of a bounty has passed its checks. -/
theorem bountyDescriptor_safe {body : Json} {d? : Option Descriptor}
    (h : bountyDescriptor env body = .ok d?) : ∀ d ∈ d?, SafeDescriptor env d.toJson := by
  unfold bountyDescriptor at h
  split at h
  · cases h
    simp
  · obtain ⟨d, -, h⟩ := bind_ok.mp h
    obtain ⟨u, hcheck, h⟩ := bind_ok.mp h
    have hsafe := (checkDescriptor_ok env).mp hcheck
    split at h
    · cases h
    · cases h
      simpa using hsafe

/-- The descriptor of an admitted bounty has passed its checks. -/
theorem admitBounty_safe {orgId : String} {body : Json} {a : AdmittedBounty}
    (h : admitBounty env cat orgId body = .ok a) :
    ∀ d ∈ a.descriptor, SafeDescriptor env d.toJson := by
  unfold admitBounty at h
  obtain ⟨_, -, h⟩ := bind_ok.mp h
  obtain ⟨raw, -, h⟩ := bind_ok.mp h
  obtain ⟨d?, hd, h⟩ := bind_ok.mp h
  obtain ⟨app, -, h⟩ := bind_ok.mp h
  obtain ⟨buyerOrigins, -, h⟩ := bind_ok.mp h
  obtain ⟨_, -, h⟩ := bind_ok.mp h
  obtain ⟨_, -, h⟩ := bind_ok.mp h
  cases h
  exact bountyDescriptor_safe env hd

theorem orRefused_ok {α : Type} {x : Except String α} {a : α} :
    orRefused x = .ok a ↔ x = .ok a := by
  cases x with
  | ok b => simp [orRefused]
  | error message =>
      unfold orRefused
      dsimp only
      split_ifs <;> simp

/-- `createBounty` stores the descriptor it is given. -/
theorem createBounty_stored {origins : List String} {d? : Option Descriptor} {stored : Option Json}
    (h : orRefused (createBounty env cat origins d?) = .ok stored) :
    d?.map Descriptor.toJson = stored := by
  unfold createBounty at h
  obtain ⟨normalized, -, h⟩ := bind_ok.mp (orRefused_ok.mp h)
  obtain ⟨_, -, h⟩ := bind_ok.mp h
  cases h
  rfl

/-- What `POST /api/bounties` stores is what it has filled in. -/
theorem createBountyRoute_stored {orgId : String} {body : Json} {j : Json}
    (h : createBountyRoute env cat orgId body = .ok (some j)) :
    ∃ a d, admitBounty env cat orgId body = .ok a ∧ a.enrich env cat = .ok (some d) ∧
      j = d.toJson := by
  unfold createBountyRoute at h
  obtain ⟨a, hpassed, h⟩ := bind_ok.mp h
  obtain ⟨d?, henrich, h⟩ := bind_ok.mp h
  obtain ⟨_, -, h⟩ := bind_ok.mp h
  obtain ⟨_, -, h⟩ := bind_ok.mp h
  obtain ⟨_, -, h⟩ := bind_ok.mp h
  have hstored : d?.map Descriptor.toJson = some j := createBounty_stored env cat h
  obtain ⟨d, rfl, hj⟩ := Option.map_eq_some_iff.mp hstored
  exact ⟨a, d, hpassed, henrich, hj.symm⟩

/-- There is room in what a request stores for what its route fills in.  An app created without
a descriptor stores an empty one. -/
def DescriptorRequest.LeavesRoom : DescriptorRequest → Prop
  | .createBounty orgId body =>
      ∀ a, admitBounty env cat orgId body = .ok a → a.LeavesRoom env cat
  | .createApp body => (body.present "defaultDescriptor").isNone → 2 ≤ env.maxBytes
  | .patchApp _ _ => True

theorem createAppRoute_safe {taskType : String} {body j : Json}
    (h : createAppRoute env taskType body = .ok j) :
    SafeDescriptor env j ↔
      ((body.present "defaultDescriptor").isNone → 2 ≤ env.maxBytes) := by
  unfold createAppRoute at h
  cases hraw : body.present "defaultDescriptor" with
  | none =>
      have hempty : (Json.obj []).byteLength = 2 := by decide +kernel
      rw [hraw] at h
      cases h
      simp [SafeDescriptor, Json.Within, hempty, Json.depth, Json.keys, Json.fieldsKeys]
  | some raw =>
      rw [hraw] at h
      obtain ⟨d, -, h⟩ := bind_ok.mp h
      obtain ⟨_, -, h⟩ := bind_ok.mp h
      obtain ⟨u, hcheck, h⟩ := bind_ok.mp h
      cases h
      simp [(checkDescriptor_ok env).mp hcheck]

theorem patchAppRoute_safe {found : Bool} {body j : Json}
    (h : patchAppRoute env found body = .ok (some j)) : SafeDescriptor env j := by
  unfold patchAppRoute at h
  obtain ⟨patched, hpatched, h⟩ := bind_ok.mp h
  obtain ⟨_, -, h⟩ := bind_ok.mp h
  cases h
  unfold patchedDescriptor at hpatched
  split at hpatched
  · cases hpatched
  · obtain ⟨d, -, hpatched⟩ := bind_ok.mp hpatched
    obtain ⟨u, hcheck, hpatched⟩ := bind_ok.mp hpatched
    obtain ⟨_, -, hpatched⟩ := bind_ok.mp hpatched
    cases hpatched
    exact (checkDescriptor_ok env).mp hcheck

theorem toOption_eq_some {α : Type} {x : Answer α} {a : α} : x.toOption = some a ↔ x = .ok a := by
  cases x <;> simp [Except.toOption]

/-- A stored descriptor is safe exactly when there is room for what the route fills in. -/
theorem persisted_safe_iff (req : DescriptorRequest) {j : Json}
    (h : req.persisted env cat = some j) :
    SafeDescriptor env j ↔ req.LeavesRoom env cat := by
  unfold DescriptorRequest.LeavesRoom
  cases req with
  | createBounty orgId body =>
      have hroute := toOption_eq_some.mp (Option.join_eq_some_iff.mp h)
      obtain ⟨a, d, hpassed, henrich, rfl⟩ := createBountyRoute_stored env cat hroute
      rw [AdmittedBounty.enrich_safe env cat (admitBounty_safe env cat hpassed) henrich]
      constructor
      · intro hroom a' hpassed'
        rw [hpassed] at hpassed'
        cases hpassed'
        exact hroom
      · intro hroom
        exact hroom a hpassed
  | createApp body => exact createAppRoute_safe env (toOption_eq_some.mp h)
  | patchApp found body =>
      have hroute := toOption_eq_some.mp (Option.join_eq_some_iff.mp h)
      exact iff_of_true (patchAppRoute_safe env hroute) trivial

end Stored

section Marketplace

theorem toLower_of_lower {c : Char} (h : (c.isLower || c == '_') = true) : c.toLower = c := by
  have hupper : ¬ (c.val ≥ 65 ∧ c.val ≤ 90) := by
    have hbounds : c.isLower = (decide (c.val ≥ 'a'.val) && decide (c.val ≤ 'z'.val)) := rfl
    simp only [hbounds, Bool.or_eq_true, Bool.and_eq_true, decide_eq_true_eq, beq_iff_eq] at h
    rcases h with ⟨h, -⟩ | rfl
    · rintro ⟨-, h'⟩
      exact absurd (UInt32.le_trans h h') (by decide)
    · decide
  unfold Char.toLower
  exact dif_neg hupper

/-- The default settings, over functions that do on these texts what the real ones do. -/
def demoRouteEnv : RouteEnv where
  maxBytes := 16000
  maxDepth := 6
  taskDescriptorEnabled := true
  browserFlowValidationGate := false
  browserFlowAllowValueEnv := false
  production := true
  minPayoutCents := 0
  minPayoutText := "0"
  safeParse j :=
    match j.get? "type", j.get? "input_spec" with
    | some (.str type), some (.obj inputSpec) => .ok
        { type := type, capabilityTags := ["browser"], inputSpec := inputSpec, outputSpec := []
          freshnessSlaSec := none, siteProfile := none }
    | _, _ => .error "Invalid input"
  parseUrl text :=
    if startsWith text "https://www.ebay.com" then
      some ⟨"https:", "", "", "https://www.ebay.com", "/sch/i.html"⟩
    else none
  encodeURIComponent s := s
  toLowerCase s := String.ofList (s.toList.map Char.toLower)
  toLowerCase_lower s hs := by
    have hsame : ∀ c ∈ s.toList, c.toLower = id c := fun c hc =>
      toLower_of_lower (List.all_eq_true.mp hs c hc)
    rw [List.map_congr_left hsame, List.map_id, String.ofList_toList]
  finiteNumber j :=
    match j with
    | .num "1000" => some 1000
    | _ => none

/-- The marketplace app and a template of one origin with the selectors. -/
def demoCatalog (selectors : Json) : Catalog where
  appByTaskType type :=
    if type = "marketplace_drops" then
      some ⟨"org_system", false, ["https://www.ebay.com"]⟩
    else none
  originAllowed _ _ := false
  blockedHost _ := none
  templates := [⟨"https://www.ebay.com", true,
    some "https://www.ebay.com/sch/i.html?_nkw=\x7bquery\x7d", some ".s-item", selectors⟩]

/-- A bounty with a query and nothing else. -/
def queryBounty : DescriptorRequest :=
  .createBounty "org1" (.obj [("title", .str "Drops"), ("description", .str "Find drops"),
    ("taskDescriptor", .obj [("type", .str "marketplace_drops"),
      ("capability_tags", .arr [.str "browser"]), ("input_spec", .obj [("query", .str "ps5")])])])

/-- Selectors of a template. -/
def itemSelectors : Json := .obj [("items", .str ".s-item")]

theorem persisted_safe_iff_query :
    ∃ j, queryBounty.persisted demoRouteEnv (demoCatalog itemSelectors) = some j ∧
      SafeDescriptor demoRouteEnv j ∧
      queryBounty.LeavesRoom demoRouteEnv (demoCatalog itemSelectors) := by
  have hcheck : (queryBounty.persisted demoRouteEnv (demoCatalog itemSelectors)).any (fun j =>
      decide (j.byteLength ≤ demoRouteEnv.maxBytes) && !hasSensitiveKeys demoRouteEnv j 0) =
        true := by
    decide +kernel
  obtain ⟨j, hj, hsafe⟩ := (Option.any_eq_true _ _).mp hcheck
  have hsafe : SafeDescriptor demoRouteEnv j := (safe_iff_checks _).mpr (by simpa using hsafe)
  exact ⟨j, hj, hsafe, (persisted_safe_iff _ _ queryBounty hj).mp hsafe⟩

/-- Selectors with a key that the check would refuse. -/
def tokenSelectors : Json := .obj [("items", .str ".s-item"), ("token_price", .str ".price")]

/-- The route stores what its check refuses. -/
theorem injected_selectors_unsafe :
    ∃ j, queryBounty.persisted demoRouteEnv (demoCatalog tokenSelectors) = some j ∧
      ¬ SafeDescriptor demoRouteEnv j := by
  have hcheck : (queryBounty.persisted demoRouteEnv (demoCatalog tokenSelectors)).any (fun j =>
      hasSensitiveKeys demoRouteEnv j 0) = true := by
    decide +kernel
  obtain ⟨j, hj, hsensitive⟩ := (Option.any_eq_true _ _).mp hcheck
  refine ⟨j, hj, fun hsafe => ?_⟩
  have hchecks := ((safe_iff_checks _).mp hsafe).2
  rw [hsensitive] at hchecks
  cases hchecks

end Marketplace

end OpenUnion
