import OpenUnion.Code.AppPage
import OpenUnion.JsonText.Merging
import OpenUnion.Text.RawText

/-!
# App pages show their configuration

A browser reads the raw text of the element `appConfig` and parses it.  The page embeds an app if
this gives back the configuration of the app, and what is around the element is the template.

* `Harmless`: a text of an app in which neither a replacement pattern nor a closing tag stands.
* `embeds_iff`: the text in the element has no closing tag and is read as the configuration.
* `unmarked_iff`: the printed configuration has neither patterns nor closing tags just if the
  texts of the app are harmless.
* `Embedded.patterns_eq_nil`: where a pattern is met, the page does not embed the app.
* `renderRegistryAppPage_embeds_iff`: the page embeds an app just if its texts are harmless.
-/

namespace OpenUnion

open JsonText Text

/-- What a browser reads in the page: the configuration in the element, and the template around
it. -/
def AppTemplate.Embeds (template : AppTemplate) (app : PublicApp) : PageReply → Prop
  | .notFound _ => False
  | .html page => ∃ after, page = template.before ++ (openTag ++ after) ∧
      parseValue doubles (rawText after).1 = some app.config ∧
      (rawText after).2 = closeTag ++ template.behind

/-- The texts an org has registered, as far as they come into the page. -/
def PublicApp.texts (app : PublicApp) : List (List UInt16) :=
  let d := orEmpty (some app.defaultDescriptor)
  app.name :: app.description.getD [] :: app.taskType ::
    ((capabilityTags d).strings ++ ((orEmpty (property d "input_spec")).strings ++
      (orEmpty (property d "output_spec")).strings))

/-- A text without replacement patterns and without closing tags. -/
def Harmless (s : List UInt16) : Prop :=
  (∀ p : Pattern, ¬ unitsOf p.text <:+: s) ∧ ∀ tag, ClosingTag tag → ¬ unitsOf tag <:+: s

/-- The occurrence that is replaced. -/
def AppTemplate.occurrence (template : AppTemplate) : Occurrence :=
  ⟨appConfigElement, template.before, template.behind⟩

/-- The text that comes into the element. -/
def AppTemplate.embedded (template : AppTemplate) (app : PublicApp) : List Char :=
  substitute template.occurrence (app.config.stringify doubles)

variable {template : AppTemplate} {app : PublicApp} {ν : Type} {N : Numerals ν} {tag : List Char}
  {s : List UInt16}

/-! ## The page -/

/-- The tags around the text stay as they are. -/
theorem substitute_element (o : Occurrence) (content : List Char) :
    substitute o (openTag ++ (content ++ closeTag)) =
      openTag ++ (substitute o content ++ closeTag) := by
  have hopen : '$' ∉ openTag := by decide
  have hclose : '$' ∉ "/script>".toList := by decide
  have hless : ∀ p : Pattern, '<' ∉ p.text := by
    intro p
    cases p <;> decide
  have htag : closeTag = '<' :: ("/script>".toList ++ []) := by decide
  have hend : substitute o ("/script>".toList ++ []) = "/script>".toList ++ [] :=
    substitute_append hclose
  rw [substitute_append hopen, htag, substitute_append_cons hless, hend]

/-- In front of the element and behind it nothing changes. -/
theorem renderRegistryAppPage_eq (template : AppTemplate) (app : PublicApp) :
    renderRegistryAppPage template (some app) =
      .html (template.before ++ (openTag ++ (template.embedded app ++
        (closeTag ++ template.behind)))) := by
  have helement := substitute_element template.occurrence (app.config.stringify doubles)
  rw [AppTemplate.occurrence] at helement
  simp only [renderRegistryAppPage, replaceFirst, template.split, helement, List.append_assoc,
    AppTemplate.embedded, AppTemplate.occurrence]

/-- The text in the element has no closing tag and is read as the configuration. -/
theorem embeds_iff : template.Embeds app (renderRegistryAppPage template (some app)) ↔
    (∀ tag, ClosingTag tag → ¬ tag <:+: template.embedded app) ∧
      parseValue doubles (template.embedded app) = some app.config := by
  rw [renderRegistryAppPage_eq]
  constructor
  · rintro ⟨after, hpage, hparse, hbehind⟩
    have hafter := List.append_cancel_left (List.append_cancel_left hpage)
    have hsplit := (rawText_append after).trans hafter.symm
    rw [hbehind] at hsplit
    have hraw := List.append_cancel_right hsplit
    rw [← hraw]
    exact ⟨fun tag htag => rawText_closed htag, hparse⟩
  · rintro ⟨hclean, hparse⟩
    have htag : ClosingTag "</script".toList := by decide
    have hclose : closeTag ++ template.behind = "</script".toList ++ ('>' :: template.behind) := by
      have hsplit : closeTag = "</script".toList ++ ['>'] := by decide
      rw [hsplit, List.append_assoc]
      rfl
    have hraw : rawText (template.embedded app ++ (closeTag ++ template.behind)) =
        (template.embedded app, closeTag ++ template.behind) := by
      rw [hclose]
      exact rawText_eq hclean htag
    exact ⟨_, rfl, by rw [hraw]; exact hparse, by rw [hraw]⟩

/-! ## Closing tags -/

theorem isPlain_toLower {c : Char} (h : isPlain c.toLower = true) : isPlain c = true := by
  rcases toLower_cases c with hsame | ⟨⟨hlow, hhigh⟩, -⟩
  · rwa [hsame] at h
  · have hquote : c ≠ '"' := by
      rintro rfl
      exact absurd hlow (by decide)
    have hbackslash : c ≠ '\\' := by
      rintro rfl
      exact absurd hhigh (by decide)
    rw [isPlain, decide_eq_true_eq]
    exact ⟨by omega, hquote, hbackslash⟩

theorem plain_closing (h : ClosingTag tag) : PlainText tag := by
  have hall : (['<', '/', 's', 'c', 'r', 'i', 'p', 't'].all isPlain) = true := by decide
  intro c hc
  have hlower := List.mem_map_of_mem (f := Char.toLower) hc
  rw [h] at hlower
  exact isPlain_toLower (List.all_eq_true.mp hall _ hlower)

theorem inStrings_closing (h : ClosingTag tag) : InStrings tag := by
  obtain ⟨more, hmore⟩ := h.head
  exact ⟨(plain_closing h).unquoted, '<', more, hmore, .inr rfl⟩

theorem plain_pattern (p : Pattern) : PlainText p.text := by
  have hall : (p.text.all isPlain) = true := by cases p <;> decide
  exact List.all_eq_true.mp hall

/-- The printed value has neither patterns nor closing tags just if its strings have none. -/
theorem unmarked_iff (v : Value ν) : (patterns (v.stringify N) = [] ∧
    ∀ tag, ClosingTag tag → ¬ tag <:+: v.stringify N) ↔ ∀ s ∈ v.strings, Harmless s := by
  have hpattern (p : Pattern) : p.text <:+: v.stringify N ↔
      ∃ s ∈ v.strings, unitsOf p.text <:+: s :=
    infix_stringify (inStrings_pattern p) (plain_pattern p) v
  have hclosing (tag : List Char) (htag : ClosingTag tag) : tag <:+: v.stringify N ↔
      ∃ s ∈ v.strings, unitsOf tag <:+: s :=
    infix_stringify (inStrings_closing htag) (plain_closing htag) v
  constructor
  · rintro ⟨hnone, hclean⟩ s hs
    refine ⟨fun p hfound => ?_, fun tag htag hfound => ?_⟩
    · obtain ⟨q, hq⟩ := exists_pattern ((hpattern p).mpr ⟨s, hs, hfound⟩)
      rw [hnone] at hq
      exact List.not_mem_nil hq
    · exact hclean tag htag ((hclosing tag htag).mpr ⟨s, hs, hfound⟩)
  · intro hharmless
    constructor
    · rw [List.eq_nil_iff_forall_not_mem]
      intro p hp
      obtain ⟨s, hs, hfound⟩ := (hpattern p).mp (text_of_met hp)
      exact (hharmless s hs).1 p hfound
    · intro tag htag hin
      obtain ⟨s, hs, hfound⟩ := (hclosing tag htag).mp hin
      exact (hharmless s hs).2 tag htag hfound

/-! ## Patterns that are met -/

theorem no_lineFeed (items : List Item) : '\n' ∉ itemsText items := by
  have hhex (d : HexDigit) : d.char ≠ '\n' := by
    intro heq
    have hdigit := d.digit
    rw [heq] at hdigit
    exact absurd hdigit (by decide)
  intro hmem
  obtain ⟨i, -, hi⟩ := List.mem_flatMap.mp hmem
  cases i with
  | plain c hc =>
      obtain rfl := List.mem_singleton.mp hi
      exact absurd hc (by decide)
  | short e => cases e <;> exact absurd hi (by decide)
  | unicode a b c d => simp [Item.text, (hhex _).symm] at hi

/-- The beginning of the template is in no JSON text: a string has no line feed. -/
theorem doctype_not_found {cs : List Char} {t : Spaced} (h : parse cs = some t) :
    ¬ "<!doctype html>\n".toList <:+: cs := by
  have hmark : InStrings "<!doctype html>\n".toList := ⟨by decide, '<', _, rfl, .inr rfl⟩
  have hlineFeed : '\n' ∈ "<!doctype html>\n".toList := by decide
  rw [(parse_eq_some_iff cs t).mp h]
  intro hin
  obtain ⟨items, -, hfound⟩ := infix_spaced hmark t hin
  exact no_lineFeed items (hfound.subset hlineFeed)

/-- A pattern other than `$$` brings a closing tag or the beginning of the template. -/
theorem inserted_markup (template : AppTemplate) {p : Pattern} (hp : p ≠ .dollar) :
    (∃ tag, ClosingTag tag ∧ tag <:+: template.occurrence.inserted p) ∨
      "<!doctype html>\n".toList <:+: template.occurrence.inserted p := by
  have htag : ClosingTag "</script".toList := by decide
  have hclose : "</script".toList <:+: closeTag := by decide
  have helement : closeTag <:+: appConfigElement :=
    List.infix_append_right.trans List.infix_append_right
  cases p with
  | dollar => exact absurd rfl hp
  | found => exact .inl ⟨_, htag, hclose.trans helement⟩
  | before => exact .inr template.doctype.isInfix
  | behind => exact .inl ⟨_, htag, hclose.trans template.script⟩

/-- Where a pattern is met, the page does not embed the app. -/
theorem patterns_eq_nil (hclean : ∀ tag, ClosingTag tag → ¬ tag <:+: template.embedded app)
    (hparse : parseValue doubles (template.embedded app) = some app.config) :
    patterns (app.config.stringify doubles) = [] := by
  obtain ⟨t, ht, hvalue⟩ := Option.map_eq_some_iff.mp hparse
  have hdollar : ∀ p ∈ patterns (app.config.stringify doubles), p = .dollar := by
    intro p hp
    by_contra hother
    have hinserted := inserted_of_met (o := template.occurrence) hp
    rcases inserted_markup template hother with ⟨tag, htag, hin⟩ | hin
    · exact hclean tag htag (hin.trans hinserted)
    · exact doctype_not_found ht (hin.trans hinserted)
  -- only `$$` is met, and the value that is read has fewer dollars than the configuration
  have hmerged : template.embedded app = (app.config.merged doubles).text :=
    (substitute_itself hdollar).trans (text_merged app.config).symm
  have hspaced : parse (template.embedded app) =
      some ⟨.empty, app.config.merged doubles, .empty⟩ := by
    rw [parse_eq_some_iff, hmerged]
    simp [Spaced.chars, Spaces.empty]
  rw [hspaced] at ht
  obtain rfl := Option.some.inj ht
  rw [List.eq_nil_iff_forall_not_mem]
  intro p hp
  obtain rfl := hdollar p hp
  exact merged_value_ne (text_of_met hp) hvalue

/-! ## The configuration -/

theorem dollar_mem (p : Pattern) : 0x24 ∈ unitsOf p.text := by
  cases p <;> decide

theorem less_mem (h : ClosingTag tag) : 0x3c ∈ unitsOf tag := by
  obtain ⟨more, rfl⟩ := h.head
  exact List.mem_cons_self

/-- A text with neither a dollar nor a less-than sign. -/
theorem harmless_of_not_mem (hdollar : 0x24 ∉ s) (hless : 0x3c ∉ s) : Harmless s :=
  ⟨fun p hin => hdollar (hin.subset (dollar_mem p)),
    fun _ htag hin => hless (hin.subset (less_mem htag))⟩

/-- The keys of the configuration. -/
def configKeys : List (List UInt16) :=
  ["title", "titlePrefix", "description", "taskType", "defaultCaps", "defaultFreshnessSlaSec",
    "defaultInputSpec", "defaultOutputSpec"].map fun key => unitsOf key.toList

theorem harmless_key (hs : s ∈ configKeys) : Harmless s := by
  have hall : (configKeys.all fun key => !key.contains 0x24 && !key.contains 0x3c) = true := by
    decide
  have hkey := List.all_eq_true.mp hall s hs
  rw [Bool.and_eq_true] at hkey
  exact harmless_of_not_mem (by simpa using hkey.1) (by simpa using hkey.2)

theorem keys_members (app : PublicApp) : (app.members.map Prod.fst).Sublist configKeys := by
  have hfreshness (d : Value (Option ℚ)) : ((freshnessSlaSec d).map Prod.fst).Sublist
      [unitsOf "defaultFreshnessSlaSec".toList] := by
    unfold freshnessSlaSec
    split
    · exact List.Sublist.refl _
    · exact List.nil_sublist _
  rw [PublicApp.members, List.map_append, List.map_append]
  exact (List.Sublist.refl _).append ((hfreshness _).append (List.Sublist.refl _))

/-- The strings of members are their keys and the strings of their values. -/
theorem forall_memberStrings {P : List UInt16 → Prop} (ms : List (List UInt16 × Value ν)) :
    (∀ s ∈ memberStrings ms, P s) ↔ ∀ m ∈ ms, P m.1 ∧ ∀ s ∈ m.2.strings, P s := by
  induction ms with
  | nil => simp [memberStrings]
  | cons m ms ih =>
      simp only [memberStrings, List.forall_mem_cons, List.forall_mem_append, ih, and_assoc]

/-- The strings of the configuration are harmless just if the texts of the app are. -/
theorem harmless_config_iff :
    (∀ s ∈ app.config.strings, Harmless s) ↔ ∀ s ∈ app.texts, Harmless s := by
  have hkeys : ∀ m ∈ app.members, Harmless m.1 := fun m hm =>
    harmless_key ((keys_members app).subset (List.mem_map_of_mem hm))
  have hvalues : (∀ s ∈ app.config.strings, Harmless s) ↔
      ∀ m ∈ app.members, ∀ s ∈ m.2.strings, Harmless s := by
    rw [PublicApp.config, Value.strings, forall_memberStrings]
    exact forall₂_congr fun m hm => and_iff_right (hkeys m hm)
  have hfreshness (d : Value (Option ℚ)) :
      ∀ m ∈ freshnessSlaSec d, ∀ s ∈ m.2.strings, Harmless s := by
    unfold freshnessSlaSec
    split <;> simp [Value.strings]
  rw [hvalues]
  simp only [PublicApp.members, PublicApp.texts, List.forall_mem_cons, List.forall_mem_append,
    Value.strings, List.not_mem_nil, false_imp_iff, implies_true, and_true,
    iff_true_intro (hfreshness _), true_and]
  tauto

theorem legalMembers_iff (ms : List (List UInt16 × Value ν)) :
    LegalMembers N ms ↔ ∀ m ∈ ms, m.2.Legal N := by
  induction ms with
  | nil => simp [LegalMembers]
  | cons m ms ih => rw [LegalMembers, ih, List.forall_mem_cons]

theorem property_legal {d v : Value ν} {key : String} (hd : d.Legal N)
    (h : property d key = some v) : v.Legal N := by
  unfold property at h
  split at h
  · next members =>
      obtain ⟨m, hm, rfl⟩ := Option.map_eq_some_iff.mp h
      exact (legalMembers_iff members).mp hd.2 m (List.mem_of_find?_eq_some hm)
  · cases h

theorem orEmpty_legal {v : Option (Value ν)} (h : ∀ x, v = some x → x.Legal N) :
    (orEmpty v).Legal N := by
  unfold orEmpty
  split
  · exact ⟨List.Pairwise.nil, trivial⟩
  · exact ⟨List.Pairwise.nil, trivial⟩
  · next x _ => exact h x rfl

/-- The keys of the configuration are no array indices, so that they stay in their order. -/
theorem configKeys_before : configKeys.Pairwise Before := by
  have hnodup : configKeys.Nodup := by decide
  have hall : (configKeys.all fun key => key.any fun u => decide (57 < u.toNat)) = true := by decide
  have hindex : ∀ key ∈ configKeys, arrayIndex key = none := by
    intro key hkey
    obtain ⟨u, hu, hletter⟩ := List.any_eq_true.mp (List.all_eq_true.mp hall key hkey)
    exact arrayIndex_eq_none hu (of_decide_eq_true hletter)
  exact hnodup.pairwise_of_forall_ne fun key hkey key' hkey' hne =>
    .inr ⟨hindex key hkey, hindex key' hkey', hne⟩

/-- The configuration can be printed. -/
theorem config_legal (app : PublicApp) : app.config.Legal doubles := by
  have hordered : JsonText.Ordered app.members :=
    List.pairwise_map.mp (configKeys_before.sublist (keys_members app))
  have hdescriptor : (orEmpty (some app.defaultDescriptor)).Legal doubles :=
    orEmpty_legal fun x hx => Option.some.inj hx ▸ app.legal
  refine ⟨hordered, (legalMembers_iff _).mpr ?_⟩
  rw [PublicApp.members]
  generalize orEmpty (some app.defaultDescriptor) = d at hdescriptor ⊢
  have hcaps : (capabilityTags d).Legal doubles := by
    unfold capabilityTags
    split
    · next elems h => exact property_legal hdescriptor h
    · exact trivial
  have hfreshness : ∀ m ∈ freshnessSlaSec d, m.2.Legal doubles := by
    unfold freshnessSlaSec
    split
    · next x h => exact List.forall_mem_singleton.mpr (property_legal hdescriptor h)
    · exact fun m hm => absurd hm List.not_mem_nil
  have hspec (key : String) : (orEmpty (property d key)).Legal doubles :=
    orEmpty_legal fun x hx => property_legal hdescriptor hx
  simp only [List.forall_mem_append, List.forall_mem_cons]
  have hnone : ∀ m ∈ ([] : List (List UInt16 × Value (Option ℚ))), m.2.Legal doubles :=
    fun m hm => absurd hm List.not_mem_nil
  exact ⟨⟨trivial, trivial, trivial, trivial, hcaps, hnone⟩, hfreshness, hspec _, hspec _, hnone⟩

/-! ## Which apps are embedded -/

/-- A page embeds an app only if its texts are harmless. -/
theorem harmless_of_embeds
    (h : template.Embeds app (renderRegistryAppPage template (some app))) :
    ∀ s ∈ app.texts, Harmless s := by
  obtain ⟨hclean, hparse⟩ := embeds_iff.mp h
  have hpatterns := patterns_eq_nil hclean hparse
  rw [AppTemplate.embedded, substitute_of_no_pattern hpatterns] at hclean
  exact harmless_config_iff.mp ((unmarked_iff _).mp ⟨hpatterns, hclean⟩)

/-- The page embeds an app just if no text of the app holds a replacement pattern or a closing
tag. -/
theorem renderRegistryAppPage_embeds_iff (template : AppTemplate) (app : PublicApp) :
    template.Embeds app (renderRegistryAppPage template (some app)) ↔
      ∀ s ∈ app.texts, Harmless s := by
  constructor
  · exact harmless_of_embeds
  · intro hharmless
    obtain ⟨hpatterns, hclean⟩ := (unmarked_iff (N := doubles) app.config).mpr
      (harmless_config_iff.mpr hharmless)
    rw [embeds_iff, AppTemplate.embedded, substitute_of_no_pattern hpatterns]
    exact ⟨hclean, parseValue_stringify (config_legal app)⟩

/-- A page with the element alone. -/
def plainTemplate : AppTemplate where
  text := "<!doctype html>\n".toList ++ (appConfigElement ++ "<script></script>".toList)
  before := "<!doctype html>\n".toList
  behind := "<script></script>".toList
  split := by decide
  doctype := List.prefix_rfl
  script := by decide

/-- An app whose description ends the element. -/
def markupApp : PublicApp where
  name := unitsOf "App".toList
  description := some (unitsOf "</script><script>alert(1)</script>".toList)
  taskType := unitsOf "app".toList
  defaultDescriptor := .obj []
  legal := ⟨List.Pairwise.nil, trivial⟩

/-- No page embeds an app whose description ends the element. -/
theorem markupApp_not_embedded : Nonempty AppTemplate ∧ ∀ template : AppTemplate,
    ¬ template.Embeds markupApp (renderRegistryAppPage template (some markupApp)) := by
  have htag : ClosingTag "</script".toList := by decide
  have hdescription : unitsOf "</script><script>alert(1)</script>".toList ∈ markupApp.texts :=
    List.mem_cons_of_mem _ List.mem_cons_self
  have hfound :
      unitsOf "</script".toList <:+: unitsOf "</script><script>alert(1)</script>".toList :=
    List.IsPrefix.isInfix (by decide)
  exact ⟨⟨plainTemplate⟩, fun template h =>
    (harmless_of_embeds h _ hdescription).2 _ htag hfound⟩

end OpenUnion
