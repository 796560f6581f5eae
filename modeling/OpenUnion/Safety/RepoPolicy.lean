import OpenUnion.Code.RepoPolicy

/-!
# The repository policy and its specification

`RepoAllowed` says which repositories the policy is to allow, of lists of license texts and
of a minimum that is a number.  `decide_allowed_iff` reads the decision in the same terms, but
for the minimum.

* `repo_policy_iff`: the decision is the specified one, and as monotone as the specification
  is, just if the minimum of the request is read for what it is: a `null` is taken for 0, and
  a fraction is rounded down.
* `null_minimum_admits`: with a minimum of 50 in the environment, a request whose minimum is
  `null` admits a repository without stars.
-/

namespace OpenUnion

section Specification

variable (env : IntelEnv) (input : RepoPolicyInput)

/-- A text of the list names the license, whatever its case and the blanks around it. -/
def Names (texts : List String) (license : String) : Prop :=
  ∃ t ∈ texts, trimmed t ≠ "" ∧ env.toUpperCase (trimmed t) = env.toUpperCase license

/-- A text of the list is not blank. -/
def HasEntries (texts : List String) : Prop := ∃ t ∈ texts, trimmed t ≠ ""

/-- The texts of a comma-separated setting. -/
def csvTexts (v : Option String) : List String :=
  ((trimmed (v.getD "")).toList.splitOn ',').map String.ofList

/-- The license of the repository, unless it is unknown. -/
def knownLicense : Option String :=
  (some (trimmed (input.licenseSpdx.getD ""))).filter (· ≠ "")

/-- The texts are the allowlist: that of the request, or else that of the environment. -/
def IsAllowlist (texts : List String) : Prop :=
  HasEntries texts ∧
    (texts = input.requestLicenseAllow.getD [] ∨
      ¬ HasEntries (input.requestLicenseAllow.getD []) ∧ texts = csvTexts env.licenseAllowlist)

/-- The minimum of the environment; 0 if it sets none. -/
def envMinimum : ℚ :=
  match envMinStarsRaw env with
  | .finite q => q
  | _ => 0

/-- The minimum of the request if it gives a number, and otherwise that of the environment. -/
def requiredStars : ℚ :=
  match input.requestMinStars with
  | .number (.finite q) => q
  | _ => envMinimum env

/-- The license is not denied, and it is allowlisted if there is an allowlist; an unknown one
passes in suggest mode without an allowlist. -/
@[irreducible] def LicenseAllowed : Prop :=
  match knownLicense input with
  | some l => ¬ Names env (csvTexts env.licenseDenylist) l ∧
      ∀ texts, IsAllowlist env input texts → Names env texts l
  | none => input.mode = .suggest ∧ ∀ texts, ¬ IsAllowlist env input texts

/-- The repositories the policy is to allow. -/
structure RepoAllowed : Prop where
  live : input.archived = false
  stars : requiredStars env input ≤ input.stars
  license : LicenseAllowed env input

end Specification

section Decision

variable {env : IntelEnv} {input : RepoPolicyInput} {texts : List String} {l : String}

theorem mem_upperEntries :
    env.toUpperCase l ∈ upperEntries env texts ↔ Names env texts l := by
  unfold upperEntries Names
  simp only [List.mem_map, List.mem_filter, decide_eq_true_eq]
  constructor
  · rintro ⟨s, ⟨⟨t, ht, rfl⟩, hne⟩, hup⟩
    exact ⟨t, ht, hne, hup⟩
  · rintro ⟨t, ht, hne, hup⟩
    exact ⟨trimmed t, ⟨⟨t, ht, rfl⟩, hne⟩, hup⟩

theorem upperEntries_ne_nil : upperEntries env texts ≠ [] ↔ HasEntries texts := by
  unfold upperEntries HasEntries
  rw [Ne, List.map_eq_nil_iff, List.filter_eq_nil_iff]
  constructor
  · intro h
    by_contra hno
    refine h fun s hs => ?_
    obtain ⟨t, ht, rfl⟩ := List.mem_map.mp hs
    intro hne
    exact hno ⟨t, ht, of_decide_eq_true hne⟩
  · rintro ⟨t, ht, hne⟩ h
    exact h _ (List.mem_map_of_mem ht) (decide_eq_true hne)

theorem normalizeLicenseId_eq :
    normalizeLicenseId env input.licenseSpdx = (knownLicense input).map env.toUpperCase := by
  unfold normalizeLicenseId knownLicense
  by_cases hblank : trimmed (input.licenseSpdx.getD "") = ""
  · simp [hblank]
  · simp [hblank]

/-- The allowlist that counts, in upper case. -/
theorem effectiveAllow_some {allow : List String} :
    effectiveAllow env input = some allow ↔
      ∃ texts, IsAllowlist env input texts ∧ allow = upperEntries env texts := by
  have hcsv : parseCsvUpper env env.licenseAllowlist =
      upperEntries env (csvTexts env.licenseAllowlist) := rfl
  unfold effectiveAllow IsAllowlist
  rw [hcsv]
  generalize input.requestLicenseAllow.getD [] = request
  generalize csvTexts env.licenseAllowlist = fallback
  by_cases hrequest : HasEntries request
  · have hne : upperEntries env request ≠ [] := upperEntries_ne_nil.mpr hrequest
    rw [if_pos hne, Option.some.injEq]
    constructor
    · intro h
      exact ⟨request, ⟨hrequest, Or.inl rfl⟩, h.symm⟩
    · rintro ⟨texts, ⟨-, htexts | ⟨hno, -⟩⟩, h⟩
      · rw [h, htexts]
      · exact absurd hrequest hno
  · have hempty : ¬ upperEntries env request ≠ [] := mt upperEntries_ne_nil.mp hrequest
    rw [if_neg hempty]
    by_cases henv : HasEntries fallback
    · have hne : upperEntries env fallback ≠ [] := upperEntries_ne_nil.mpr henv
      rw [if_pos hne, Option.some.injEq]
      constructor
      · intro h
        exact ⟨fallback, ⟨henv, Or.inr ⟨hrequest, rfl⟩⟩, h.symm⟩
      · rintro ⟨texts, ⟨hentries, htexts | ⟨-, htexts⟩⟩, h⟩
        · exact absurd (htexts ▸ hentries) hrequest
        · rw [h, htexts]
    · have hnone : ¬ upperEntries env fallback ≠ [] := mt upperEntries_ne_nil.mp henv
      rw [if_neg hnone]
      constructor
      · intro h
        exact absurd h (by simp)
      · rintro ⟨texts, ⟨hentries, htexts | ⟨-, htexts⟩⟩, -⟩
        · exact absurd (htexts ▸ hentries) hrequest
        · exact absurd (htexts ▸ hentries) henv

theorem effectiveAllow_none :
    effectiveAllow env input = none ↔ ∀ texts, ¬ IsAllowlist env input texts := by
  constructor
  · intro hnone texts htexts
    have hsome := effectiveAllow_some.mpr ⟨texts, htexts, rfl⟩
    rw [hnone] at hsome
    exact absurd hsome (by simp)
  · intro h
    by_contra hsome
    obtain ⟨allow, hallow⟩ := Option.ne_none_iff_exists'.mp hsome
    obtain ⟨texts, htexts, -⟩ := effectiveAllow_some.mp hallow
    exact h texts htexts

/-- The license checks, of a license that is known. -/
theorem decideLicense_some :
    decideLicense env input (some (env.toUpperCase l)) = .allowed ↔
      ∀ texts, IsAllowlist env input texts → Names env texts l := by
  cases hallow : effectiveAllow env input with
  | none =>
      have hnone := effectiveAllow_none.mp hallow
      refine iff_of_true ?_ fun texts htexts => absurd htexts (hnone texts)
      unfold decideLicense
      rw [hallow]
      cases input.mode <;> rfl
  | some allow =>
      obtain ⟨texts, htexts, rfl⟩ := effectiveAllow_some.mp hallow
      have hdecide : decideLicense env input (some (env.toUpperCase l)) = .allowed ↔
          Names env texts l := by
        unfold decideLicense
        rw [hallow, ← mem_upperEntries]
        cases input.mode <;> dsimp only <;> split_ifs with hmem <;> simp [hmem]
      rw [hdecide]
      constructor
      · intro hnames texts' htexts'
        have hsame := effectiveAllow_some.mpr ⟨texts', htexts', rfl⟩
        rw [hallow, Option.some.injEq] at hsame
        rw [← mem_upperEntries, ← hsame]
        exact mem_upperEntries.mpr hnames
      · exact fun h => h texts htexts

/-- The license checks, of an unknown license. -/
theorem decideLicense_none :
    decideLicense env input none = .allowed ↔
      input.mode = .suggest ∧ ∀ texts, ¬ IsAllowlist env input texts := by
  rw [← effectiveAllow_none]
  unfold decideLicense
  cases input.mode <;> cases effectiveAllow env input <;> simp

/-- **The decision, read.**  But for the minimum of stars it is the specified one. -/
theorem decide_allowed_iff :
    decideRepoPolicy env input = .allowed ↔
      input.archived = false ∧ minStars env input ≤ input.stars ∧ LicenseAllowed env input := by
  unfold decideRepoPolicy LicenseAllowed
  dsimp only
  rw [normalizeLicenseId_eq]
  cases harchived : input.archived with
  | true => simp
  | false =>
      by_cases hstars : minStars env input ≤ input.stars
      · have hfew : ¬ (0 < minStars env input ∧ input.stars < minStars env input) :=
          fun h => absurd h.2 (Nat.not_lt.mpr hstars)
        rw [if_neg (by simp), if_neg hfew]
        cases hl : knownLicense input with
        | none => simpa [hstars] using decideLicense_none
        | some l =>
            have hdeny : env.toUpperCase l ∈ parseCsvUpper env env.licenseDenylist ↔
                Names env (csvTexts env.licenseDenylist) l := mem_upperEntries
            by_cases hdenied : Names env (csvTexts env.licenseDenylist) l
            · rw [Option.map_some, Option.filter_some, if_pos (decide_eq_true (hdeny.mpr hdenied))]
              exact iff_of_false (by simp) fun h => h.2.2.1 hdenied
            · rw [Option.map_some, Option.filter_some,
                if_neg (by simpa using mt hdeny.mp hdenied)]
              refine decideLicense_some.trans ?_
              exact ⟨fun h => ⟨rfl, hstars, hdenied, h⟩, fun h => h.2.2.2⟩
      · have hfew : 0 < minStars env input ∧ input.stars < minStars env input :=
          ⟨by omega, Nat.lt_of_not_le hstars⟩
        simp [hfew, hstars]

end Decision

section Laws

variable {env env' : IntelEnv} {input : RepoPolicyInput}

/-- Two environments that differ in the denylist and the minimum of stars only: the second
denies more and asks for more. -/
structure IntelEnv.Stricter (env env' : IntelEnv) : Prop where
  allowlist : env'.licenseAllowlist = env.licenseAllowlist
  upper : env'.toUpperCase = env.toUpperCase
  denylist : ∀ l, Names env (csvTexts env.licenseDenylist) l →
    Names env' (csvTexts env'.licenseDenylist) l
  minimum : envMinimum env ≤ envMinimum env'

/-- The first minimum of a request is at most the second. -/
inductive RequestMinStars.Below : RequestMinStars → RequestMinStars → Prop where
  | same (m : RequestMinStars) : Below m m
  | raised {q q' : ℚ} (h : q ≤ q') : Below (.number (.finite q)) (.number (.finite q'))

/-- The decision on a repository is the specified one, and obeys the laws that follow. -/
structure PolicyAsSpecified (env : IntelEnv) (input : RepoPolicyInput) : Prop where
  exact' : decideRepoPolicy env input = .allowed ↔ RepoAllowed env input
  /-- What is allowed in auto-apply mode is allowed in suggest mode. -/
  modes : decideRepoPolicy env { input with mode := .autoApply } = .allowed →
    decideRepoPolicy env { input with mode := .suggest } = .allowed
  /-- A longer denylist or a higher minimum never allows more. -/
  stricter : ∀ env' min', env.Stricter env' → input.requestMinStars.Below min' →
    decideRepoPolicy env' { input with requestMinStars := min' } = .allowed →
      decideRepoPolicy env input = .allowed

/-- The minimum that counts is read for what it is: no `null` stands for a minimum the
repository misses, and no fraction is rounded down below its stars. -/
def MinimumRead (env : IntelEnv) (input : RepoPolicyInput) : Prop :=
  (input.requestMinStars = .null → envMinimum env ≤ input.stars) ∧
    (input.requestMinStars ≠ .null → ⌊requiredStars env input⌋ ≤ input.stars →
      requiredStars env input ≤ input.stars)

/-- The license does not depend on the mode. -/
theorem knownLicense_mode (mode : IntelPolicyMode) :
    knownLicense { input with mode := mode } = knownLicense input := by
  unfold knownLicense
  rfl

theorem licenseAllowed_some {l : String} (hl : knownLicense input = some l) :
    LicenseAllowed env input ↔ ¬ Names env (csvTexts env.licenseDenylist) l ∧
      ∀ texts, IsAllowlist env input texts → Names env texts l := by
  unfold LicenseAllowed
  rw [hl]

theorem licenseAllowed_none (hl : knownLicense input = none) :
    LicenseAllowed env input ↔ input.mode = .suggest ∧ ∀ texts, ¬ IsAllowlist env input texts := by
  unfold LicenseAllowed
  rw [hl]

theorem auto_within_suggest
    (h : decideRepoPolicy env { input with mode := .autoApply } = .allowed) :
    decideRepoPolicy env { input with mode := .suggest } = .allowed := by
  obtain ⟨hlive, hstars, hlicense⟩ := decide_allowed_iff.mp h
  refine decide_allowed_iff.mpr ⟨hlive, hstars, ?_⟩
  cases hl : knownLicense input with
  | some l =>
      rw [licenseAllowed_some ((knownLicense_mode _).trans hl)] at hlicense
      exact (licenseAllowed_some ((knownLicense_mode _).trans hl)).mpr hlicense
  | none =>
      rw [licenseAllowed_none ((knownLicense_mode _).trans hl)] at hlicense
      exact absurd hlicense.1 (by simp)

theorem names_congr (h : env'.toUpperCase = env.toUpperCase) {texts : List String} {l : String} :
    Names env' texts l ↔ Names env texts l := by
  unfold Names
  rw [h]

/-- The minimum of the environment that counts. -/
theorem envMinStars_eq :
    (envMinStarsRaw env).wholeStars.getD 0 = ⌊envMinimum env⌋.toNat := by
  unfold envMinimum
  cases envMinStarsRaw env with
  | finite q => rfl
  | nan => simp [JsNumber.wholeStars]
  | infinite b => simp [JsNumber.wholeStars]

/-- A minimum that is `null` counts for nothing. -/
theorem minStars_null (h : input.requestMinStars = .null) : minStars env input = 0 := by
  unfold minStars
  rw [h]
  rfl

/-- Any other minimum counts for its whole stars. -/
theorem minStars_eq (h : input.requestMinStars ≠ .null) :
    minStars env input = ⌊requiredStars env input⌋.toNat := by
  unfold minStars requiredStars
  cases hmin : input.requestMinStars with
  | absent => exact envMinStars_eq
  | null => exact absurd hmin h
  | number n =>
      cases n with
      | finite q => rfl
      | nan => exact envMinStars_eq
      | infinite b => exact envMinStars_eq

/-- A higher minimum counts for at least as much. -/
theorem minStars_mono {min' : RequestMinStars} (henv : env.Stricter env')
    (hbelow : input.requestMinStars.Below min') :
    minStars env input ≤ minStars env' { input with requestMinStars := min' } := by
  have hdefault : (envMinStarsRaw env).wholeStars.getD 0 ≤
      (envMinStarsRaw env').wholeStars.getD 0 := by
    rw [envMinStars_eq, envMinStars_eq]
    exact Int.toNat_le_toNat (Int.floor_mono henv.minimum)
  unfold minStars
  generalize input.requestMinStars = m at hbelow
  cases hbelow with
  | same =>
      dsimp only
      cases min'.toNumber.wholeStars with
      | none => exact hdefault
      | some n => exact le_rfl
  | raised h => exact Int.toNat_le_toNat (Int.floor_mono h)

theorem stricter_allows_less {min' : RequestMinStars} (henv : env.Stricter env')
    (hbelow : input.requestMinStars.Below min')
    (h : decideRepoPolicy env' { input with requestMinStars := min' } = .allowed) :
    decideRepoPolicy env input = .allowed := by
  obtain ⟨hlive, hstars, hlicense⟩ := decide_allowed_iff.mp h
  refine decide_allowed_iff.mpr ⟨hlive, (minStars_mono henv hbelow).trans hstars, ?_⟩
  have hallow : ∀ texts, IsAllowlist env input texts →
      IsAllowlist env' { input with requestMinStars := min' } texts := by
    intro texts htexts
    unfold IsAllowlist at htexts ⊢
    rw [henv.allowlist]
    exact htexts
  have hsame : knownLicense { input with requestMinStars := min' } = knownLicense input := by
    unfold knownLicense
    rfl
  cases hl : knownLicense input with
  | some l =>
      rw [licenseAllowed_some (hsame.trans hl)] at hlicense
      rw [licenseAllowed_some hl]
      refine ⟨fun hdenied => hlicense.1 (henv.denylist l hdenied), fun texts htexts => ?_⟩
      exact (names_congr henv.upper).mp (hlicense.2 texts (hallow texts htexts))
  | none =>
      rw [licenseAllowed_none (hsame.trans hl)] at hlicense
      rw [licenseAllowed_none hl]
      exact ⟨hlicense.1, fun texts htexts => hlicense.2 texts (hallow texts htexts)⟩

/-- **The policy equals its specification**, just if a repository that passes every other
check has its minimum of stars read for what it is. -/
theorem repo_policy_iff (env : IntelEnv) (input : RepoPolicyInput) :
    PolicyAsSpecified env input ↔
      (input.archived = false → LicenseAllowed env input → MinimumRead env input) := by
  have hstars : (minStars env input ≤ input.stars ↔ requiredStars env input ≤ input.stars) ↔
      MinimumRead env input := by
    unfold MinimumRead
    by_cases hnull : input.requestMinStars = .null
    · have hrequired : requiredStars env input = envMinimum env := by
        unfold requiredStars
        rw [hnull]
      rw [minStars_null hnull, hrequired]
      simp [hnull]
    · rw [minStars_eq hnull, Int.toNat_le]
      constructor
      · exact fun h => ⟨fun h' => absurd h' hnull, fun _ => h.mp⟩
      · intro h
        refine ⟨h.2 hnull, fun hle => ?_⟩
        exact_mod_cast (Int.floor_le (requiredStars env input)).trans hle
  constructor
  · intro h hlive hlicense
    refine hstars.mp ⟨fun hle => ?_, fun hle => ?_⟩
    · exact (h.exact'.mp (decide_allowed_iff.mpr ⟨hlive, hle, hlicense⟩)).stars
    · exact (decide_allowed_iff.mp (h.exact'.mpr ⟨hlive, hle, hlicense⟩)).2.1
  · intro h
    refine ⟨⟨fun hallowed => ?_, fun hallowed => ?_⟩, auto_within_suggest,
      fun env' min' => stricter_allows_less⟩
    · obtain ⟨hlive, hle, hlicense⟩ := decide_allowed_iff.mp hallowed
      exact ⟨hlive, (hstars.mpr (h hlive hlicense)).mp hle, hlicense⟩
    · refine decide_allowed_iff.mpr ⟨hallowed.live, ?_, hallowed.license⟩
      exact (hstars.mpr (h hallowed.live hallowed.license)).mpr hallowed.stars

/-- The environment asks for 50 stars. -/
def fiftyStars : IntelEnv where
  licenseAllowlist := none
  licenseDenylist := none
  minStarsDefault := some "50"
  toUpperCase s := String.ofList (s.toList.map Char.toUpper)
  number text := if text = "50" then .finite 50 else .nan

/-- A request that leaves the minimum to the environment. -/
def unstarredRepo : RepoPolicyInput where
  mode := .suggest
  licenseSpdx := some "MIT"
  archived := false
  stars := 0
  requestLicenseAllow := none
  requestMinStars := .null

/-- A `null` in the request stands for a minimum of 0. -/
theorem null_minimum_admits :
    decideRepoPolicy fiftyStars unstarredRepo = .allowed ∧
      ¬ PolicyAsSpecified fiftyStars unstarredRepo := by
  have hallowed : decideRepoPolicy fiftyStars unstarredRepo = .allowed := by decide
  refine ⟨hallowed, fun h => ?_⟩
  have hstars := (h.exact'.mp hallowed).stars
  have hrequired : requiredStars fiftyStars unstarredRepo = 50 := by rfl
  rw [hrequired] at hstars
  exact absurd hstars (by norm_num [unstarredRepo])

end Laws

end OpenUnion
