import Mathlib.Data.List.TakeWhile
import OpenUnion.Code.BlockedDomains

/-!
# What a blocked domain blocks

An entry should block its host name and the subdomains of it.  The lookup compares the host
name of the URL as it is, root dot included, and puts the stored text into a `LIKE` pattern as
it is, wildcards included.

* `blocking_exact_iff`: a URL is rejected exactly when an entry covers its host name, if and only
  if a host name with a root dot is matched some other way whenever an entry covers it, and an
  entry with a wildcard or a root dot of its own matches covered host names only.
* `root_dot_not_blocked`, `wildcard_blocks_others`: an address with a root dot is not blocked, and
  an underscore blocks a domain that nobody blocked.
-/

namespace OpenUnion

open Text

/-- The host name is the domain or one of its subdomains. -/
def Covers (domain host : String) : Prop :=
  host = domain ∨ '.' :: domain.toList <:+ host.toList

/-- Some entry covers the host name of a URL, read without letter case and root dot. -/
def CoveredBy (env : HostEnv) (domains : List String) (host : String) : Prop :=
  ∃ domain ∈ domains, Covers domain (withoutRootDot (env.toLowerCase host))

/-- Every entry has been accepted and stored. -/
def AllStored (env : HostEnv) (domains : List String) : Prop :=
  ∀ domain ∈ domains, ∃ input, normalizeBlockedDomainInput env input = .ok domain

/-- The text ends with a dot. -/
def rooted (s : String) : Bool := decide (s.toList.getLast? = some '.')

/-- An entry with a wildcard, or with a root dot left. -/
def special (domain : String) : Bool := domain.toList.any isWildcard || rooted domain

/-- The characters of host names: printable ASCII without blank and backslash. -/
def isHostChar (c : Char) : Bool := decide (33 ≤ c.toNat ∧ c.toNat ≤ 126 ∧ c ≠ '\\')

/-- The text consists of the characters of host names. -/
def HostText (s : String) : Prop := ∀ c ∈ s.toList, isHostChar c = true

/-- What the URL standard says of host names, and what `toLowerCase` does on ASCII. -/
structure HostEnv.Standard (env : HostEnv) : Prop where
  hostname : ∀ s host, env.hostname s = some host → HostText host
  toLowerCase : ∀ s : String, (∀ c ∈ s.toList, c.toNat < 128) →
    env.toLowerCase s = String.ofList (s.toList.map Char.toLower)

section Hosts

variable {env : HostEnv} {s host domain : String}

/-- Lower case keeps the characters of host names, and is lower case already afterwards. -/
theorem isHostChar_toLower {c : Char} (h : isHostChar c = true) :
    isHostChar c.toLower = true ∧ c.toLower.toLower = c.toLower := by
  have hall : ∀ n < 127, isHostChar (Char.ofNat n) = true →
      isHostChar (Char.ofNat n).toLower = true ∧
        (Char.ofNat n).toLower.toLower = (Char.ofNat n).toLower := by decide
  have hlt : c.toNat < 127 := by
    simp only [isHostChar, decide_eq_true_eq] at h
    omega
  have hc := hall c.toNat hlt
  rw [Char.ofNat_toNat] at hc
  exact hc h

theorem HostText.ascii (h : HostText s) : ∀ c ∈ s.toList, c.toNat < 128 := by
  intro c hc
  have hchar := h c hc
  simp only [isHostChar, decide_eq_true_eq] at hchar
  omega

theorem HostText.noBackslash (h : HostText s) : '\\' ∉ s.toList := by
  intro hmem
  exact absurd (h _ hmem) (by decide)

/-- Lower case, of a host name. -/
theorem HostEnv.Standard.lower (henv : env.Standard) (h : HostText s) :
    HostText (env.toLowerCase s) ∧ env.toLowerCase (env.toLowerCase s) = env.toLowerCase s := by
  have hlower := henv.toLowerCase s h.ascii
  have htext : HostText (env.toLowerCase s) := by
    intro c hc
    rw [hlower, String.toList_ofList] at hc
    obtain ⟨x, hx, rfl⟩ := List.mem_map.mp hc
    exact (isHostChar_toLower (h x hx)).1
  refine ⟨htext, ?_⟩
  rw [henv.toLowerCase _ htext.ascii, hlower, String.toList_ofList, List.map_map]
  congr 1
  exact List.map_congr_left fun c hc => (isHostChar_toLower (h c hc)).2

/-- There is nothing to trim. -/
theorem HostText.trimmed (h : HostText s) : trimmed s = s := by
  have hspace : ∀ c ∈ s.toList, isWhiteSpace c = false := by
    intro c hc
    have hchar := h c hc
    simp only [isHostChar, decide_eq_true_eq] at hchar
    simp only [isWhiteSpace, decide_eq_false_iff_not]
    omega
  exact trimmed_of_plain hspace

theorem HostText.slicedFrom (h : HostText s) (n : Nat) : HostText (slicedFrom s n) := by
  intro c hc
  rw [OpenUnion.slicedFrom, String.toList_ofList] at hc
  exact h c (List.mem_of_mem_drop hc)

theorem HostText.withoutRootDot (h : HostText s) : HostText (withoutRootDot s) := by
  unfold OpenUnion.withoutRootDot
  split
  · intro c hc
    rw [String.toList_ofList] at hc
    exact h c (List.mem_of_mem_dropLast hc)
  · exact h

/-- A stored entry is a host name, and not empty. -/
theorem hostText_of_stored (henv : env.Standard) {input : String}
    (h : normalizeBlockedDomainInput env input = .ok domain) :
    HostText domain ∧ domain ≠ "" := by
  unfold normalizeBlockedDomainInput at h
  simp only at h
  by_cases hempty : env.toLowerCase (trimmed input) = ""
  · rw [if_pos hempty] at h
    cases h
  rw [if_neg hempty] at h
  split at h
  · cases h
  · rename_i host hhost
    split_ifs at h with hbad
    injection h with h
    subst h
    refine ⟨?_, fun hnil => hbad (Or.inl hnil)⟩
    have htext := (henv.lower (henv.hostname _ _ hhost)).1
    unfold bareDomain
    simp only
    refine HostText.withoutRootDot ?_
    split_ifs
    · exact (htext.slicedFrom 2).slicedFrom 1
    · exact htext.slicedFrom 2
    · exact htext.slicedFrom 1
    · exact htext

end Hosts

section Matching

variable {env : HostEnv} {domain host : String} {domains : List String}

/-- The pattern of an entry is its text after a `%` and a dot. -/
theorem pattern_eq (domain : String) :
    ("%." ++ domain).toList = '%' :: '.' :: domain.toList := by
  rw [String.toList_append]
  rfl

/-- An entry matches what it covers. -/
theorem matchesDomain_of_covers (hdomain : HostText domain) (h : Covers domain host) :
    matchesDomain domain host = true := by
  rw [matchesDomain, Bool.or_eq_true, decide_eq_true_eq]
  rcases h with heq | hsuffix
  · exact Or.inl heq
  · refine Or.inr ?_
    have hslash : '\\' ∉ '.' :: domain.toList := by simp [hdomain.noBackslash]
    rw [pattern_eq, like_any hslash]
    exact ⟨'.' :: domain.toList, hsuffix, like_self hslash⟩

/-- An entry without wildcards matches nothing else. -/
theorem covers_of_matchesDomain (hdomain : HostText domain)
    (hplain : ∀ c ∈ domain.toList, isWildcard c = false)
    (h : matchesDomain domain host = true) : Covers domain host := by
  rw [matchesDomain, Bool.or_eq_true, decide_eq_true_eq] at h
  rcases h with heq | hlike
  · exact Or.inl heq
  · refine Or.inr ?_
    have hslash : '\\' ∉ '.' :: domain.toList := by simp [hdomain.noBackslash]
    rw [pattern_eq, like_any hslash] at hlike
    obtain ⟨s, hsuffix, hfits⟩ := hlike
    have hdot : ∀ c ∈ '.' :: domain.toList, isWildcard c = false := by
      intro c hc
      rcases List.mem_cons.mp hc with rfl | hc
      · decide
      · exact hplain c hc
    obtain rfl := (like_literal hslash hdot).mp hfits
    exact hsuffix

/-- An entry that covers a text ends the way it ends. -/
theorem rooted_of_covers (hdomain : domain ≠ "") (h : Covers domain host) :
    rooted host = rooted domain := by
  rcases h with rfl | hsuffix
  · rfl
  · obtain ⟨front, hfront⟩ := hsuffix
    have hne : domain.toList ≠ [] := by simpa using hdomain
    rw [rooted, rooted, ← hfront, List.getLast?_append_of_ne_nil _ (by simp),
      List.getLast?_cons_of_ne_nil hne]

/-- An entry that is not special does not match a host name with a root dot. -/
theorem special_of_rooted (hdomain : HostText domain) (hne : domain ≠ "")
    (hrooted : rooted host = true) (h : matchesDomain domain host = true) :
    special domain = true := by
  by_contra hplain
  simp only [special, Bool.or_eq_true, List.any_eq_true, not_or, not_exists, not_and,
    Bool.not_eq_true] at hplain
  have hcovers := covers_of_matchesDomain hdomain hplain.1 h
  rw [rooted_of_covers hne hcovers, hplain.2] at hrooted
  exact Bool.noConfusion hrooted

/-- No entry matches an empty host name. -/
theorem not_matchesDomain_empty (hdomain : HostText domain) (hne : domain ≠ "") :
    ¬ matchesDomain domain "" = true := by
  intro h
  rw [matchesDomain, Bool.or_eq_true, decide_eq_true_eq] at h
  rcases h with heq | hlike
  · exact hne heq.symm
  · have hslash : '\\' ∉ '.' :: domain.toList := by simp [hdomain.noBackslash]
    rw [pattern_eq, like_any hslash] at hlike
    obtain ⟨s, hsuffix, hfits⟩ := hlike
    obtain rfl : s = [] := List.suffix_nil.mp hsuffix
    rw [like_eq hslash] at hfits
    simp [tokenOf, fits] at hfits

/-- The address is rejected when an entry matches its host name in lower case. -/
theorem rejected_iff (henv : env.Standard) (hstored : AllStored env domains) {url : String}
    (hurl : env.hostname url = some host) :
    assertUrlNotBlocked env domains url ≠ .ok () ↔
      ∃ domain ∈ domains, matchesDomain domain (env.toLowerCase host) = true := by
  have htext := henv.hostname url host hurl
  obtain ⟨hlower, hidem⟩ := henv.lower htext
  have hblocked : isHostnameBlocked env domains (env.toLowerCase host) =
      domains.any fun domain => matchesDomain domain (env.toLowerCase host) := by
    unfold isHostnameBlocked
    rw [hlower.trimmed, hidem]
    by_cases hempty : env.toLowerCase host = ""
    · rw [if_pos hempty, hempty, eq_comm, List.any_eq_false]
      intro domain hdomain
      obtain ⟨input, hinput⟩ := hstored domain hdomain
      obtain ⟨hchars, hne⟩ := hostText_of_stored henv hinput
      exact not_matchesDomain_empty hchars hne
    · rw [if_neg hempty]
  rw [assertUrlNotBlocked, hostnameFromUrl, hurl, Option.map_some]
  simp only [hblocked]
  rw [← List.any_eq_true]
  split_ifs with hany <;> simp [hany]

/-- **An address is blocked exactly when an entry covers its host name**, if and only if
a covered host name with a root dot is matched by some special entry, and what a special entry
matches is covered. -/
theorem blocking_exact_iff (env : HostEnv) (henv : env.Standard) (domains : List String)
    (hstored : AllStored env domains) (url host : String) (hurl : env.hostname url = some host) :
    (assertUrlNotBlocked env domains url ≠ .ok () ↔ CoveredBy env domains host) ↔
      (rooted (env.toLowerCase host) = true → CoveredBy env domains host →
        ∃ domain ∈ domains, special domain = true ∧
          matchesDomain domain (env.toLowerCase host) = true) ∧
      ∀ domain ∈ domains, special domain = true →
        matchesDomain domain (env.toLowerCase host) = true → CoveredBy env domains host := by
  have htexts : ∀ domain ∈ domains, HostText domain ∧ domain ≠ "" := by
    intro domain hdomain
    obtain ⟨input, hinput⟩ := hstored domain hdomain
    exact hostText_of_stored henv hinput
  -- without a root dot the host name is looked up as the entries read it
  have hbare : rooted (env.toLowerCase host) = false →
      withoutRootDot (env.toLowerCase host) = env.toLowerCase host := by
    intro hunrooted
    rw [rooted, decide_eq_false_iff_not] at hunrooted
    rw [withoutRootDot, if_neg hunrooted]
  rw [rejected_iff henv hstored hurl]
  constructor
  · intro hexact
    constructor
    · intro hrooted hcovered
      obtain ⟨domain, hdomain, hmatch⟩ := hexact.mpr hcovered
      obtain ⟨hchars, hne⟩ := htexts domain hdomain
      exact ⟨domain, hdomain, special_of_rooted hchars hne hrooted hmatch, hmatch⟩
    · intro domain hdomain _ hmatch
      exact hexact.mp ⟨domain, hdomain, hmatch⟩
  · intro h
    obtain ⟨hdotted, hspecial⟩ := h
    constructor
    · rintro ⟨domain, hdomain, hmatch⟩
      obtain ⟨hchars, hne⟩ := htexts domain hdomain
      by_cases hs : special domain = true
      · exact hspecial domain hdomain hs hmatch
      have hunrooted : rooted (env.toLowerCase host) = false := by
        rw [← Bool.not_eq_true]
        exact fun hrooted => hs (special_of_rooted hchars hne hrooted hmatch)
      have hplain : ∀ c ∈ domain.toList, isWildcard c = false := by
        simp only [special, Bool.or_eq_true, List.any_eq_true, not_or, not_exists, not_and,
          Bool.not_eq_true] at hs
        exact hs.1
      refine ⟨domain, hdomain, ?_⟩
      rw [hbare hunrooted]
      exact covers_of_matchesDomain hchars hplain hmatch
    · intro hcovered
      cases hroot : rooted (env.toLowerCase host) with
      | true =>
          obtain ⟨domain, hdomain, -, hmatch⟩ := hdotted hroot hcovered
          exact ⟨domain, hdomain, hmatch⟩
      | false =>
          obtain ⟨domain, hdomain, hcovers⟩ := hcovered
          rw [hbare hroot] at hcovers
          exact ⟨domain, hdomain, matchesDomain_of_covers (htexts domain hdomain).1 hcovers⟩

end Matching

section Instances

/-- Host names as the URL standard has them, for the addresses of the runs below. -/
def hostEnv : HostEnv where
  hostname s :=
    if s = "https://example.com" then some "example.com"
    else if s = "https://my_shop.com" then some "my_shop.com"
    else if s = "https://pay.example.com/in" then some "pay.example.com"
    else if s = "https://example.com./" then some "example.com."
    else if s = "https://www.my-shop.com/" then some "www.my-shop.com"
    else none
  toLowerCase s := String.ofList (s.toList.map Char.toLower)

theorem hostEnv_standard : hostEnv.Standard where
  hostname s host h := by
    have hall : (["example.com", "my_shop.com", "pay.example.com", "example.com.",
        "www.my-shop.com"].all fun name => name.toList.all isHostChar) = true := by decide
    refine List.all_eq_true.mp (List.all_eq_true.mp hall host ?_)
    simp only [hostEnv] at h
    split_ifs at h <;> injection h with h <;> subst h <;> simp
  toLowerCase _ _ := rfl

/-- What is stored for two requests. -/
theorem stored_domains : AllStored hostEnv ["example.com", "my_shop.com"] := by
  intro domain hdomain
  refine ⟨domain, ?_⟩
  have hall : ∀ d ∈ ["example.com", "my_shop.com"],
      normalizeBlockedDomainInput hostEnv d = .ok d := by decide
  exact hall domain hdomain

/-- A subdomain of a blocked domain is blocked. -/
theorem blocking_exact_subdomain :
    assertUrlNotBlocked hostEnv ["example.com", "my_shop.com"] "https://pay.example.com/in" ≠
        .ok () ↔ CoveredBy hostEnv ["example.com", "my_shop.com"] "pay.example.com" := by
  refine (blocking_exact_iff hostEnv hostEnv_standard ["example.com", "my_shop.com"]
    stored_domains "https://pay.example.com/in" "pay.example.com" rfl).mpr ⟨?_, ?_⟩
  · intro hrooted
    exact absurd hrooted (by decide)
  · intro domain hdomain _ hmatch
    have hall : ∀ d ∈ ["example.com", "my_shop.com"],
        special d = true → ¬ matchesDomain d (hostEnv.toLowerCase "pay.example.com") = true := by
      decide
    exact absurd hmatch (hall domain hdomain ‹_›)

/-- The host name of `https://example.com./` is covered, and the address is not blocked. -/
theorem root_dot_not_blocked :
    AllStored hostEnv ["example.com", "my_shop.com"] ∧
      hostEnv.hostname "https://example.com./" = some "example.com." ∧
      CoveredBy hostEnv ["example.com", "my_shop.com"] "example.com." ∧
      assertUrlNotBlocked hostEnv ["example.com", "my_shop.com"] "https://example.com./" =
        .ok () := by
  refine ⟨stored_domains, rfl, ⟨"example.com", by simp, Or.inl ?_⟩, ?_⟩ <;> decide

/-- An underscore in an entry stands for any character. -/
theorem wildcard_blocks_others :
    hostEnv.hostname "https://www.my-shop.com/" = some "www.my-shop.com" ∧
      ¬ CoveredBy hostEnv ["my_shop.com"] "www.my-shop.com" ∧
      assertUrlNotBlocked hostEnv ["my_shop.com"] "https://www.my-shop.com/" =
        .error "blocked_domain:www.my-shop.com" := by
  refine ⟨rfl, ?_, by decide⟩
  rintro ⟨domain, hdomain, hcovers⟩
  rw [List.mem_singleton] at hdomain
  subst hdomain
  revert hcovers
  unfold Covers
  decide

end Instances

end OpenUnion
