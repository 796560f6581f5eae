import OpenUnion.Code.GithubRepos

/-!
# Raw events and what is known of repositories

A raw event says nothing of a repository but its name, and still its upsert writes every
column.  What an indexer has found out is then lost, unless there was nothing to lose.

* `raw_events_keep_iff`: in a run of enrichments and raw events the raw events keep what the
  rows know, and with it the policy decisions, and never set back the time a row was last
  seen, just if each of them finds a row that is bare and was last seen no later.
* `raw_event_erases`: a repository under the MIT license is of unknown license after an event.
-/

namespace OpenUnion

/-- The decision of the policy on the repository of a row. -/
def RepoRow.decision (row : RepoRow) (env : IntelEnv) (input : RepoPolicyInput) :
    IntelPolicyDecision :=
  decideRepoPolicy env { input with
    licenseSpdx := row.licenseSpdx, archived := row.archived, stars := row.stars }

/-- The row `after` knows what the row `before` knew, and was seen no earlier. -/
structure RepoRow.Kept (before after : RepoRow) : Prop where
  knowledge : after.toRepoKnowledge = before.toRepoKnowledge
  decision : ∀ env input, after.decision env input = before.decision env input
  firstSeen : after.firstSeenAt = before.firstSeenAt
  lastSeen : before.lastSeenAt ≤ after.lastSeenAt

/-- An operation keeps the rows there are. -/
def KeepsRows (env : EventEnv) (repos : GithubRepos) (op : ℤ × RepoOp) : Prop :=
  ∀ repoId row, repos.row repoId = some row →
    ∃ row', (repoStep env repos op).row repoId = some row' ∧ row.Kept row'

/-- Raw events keep the rows, wherever they come in the run. -/
def RawEventsKeep (env : EventEnv) (repos : GithubRepos) (ops : List (ℤ × RepoOp)) : Prop :=
  ∀ before clock path e after, ops = before ++ (clock, RepoOp.raw path e) :: after →
    KeepsRows env (repoRun env repos before) (clock, .raw path e)

/-- There is nothing a raw event could erase in the row; the route leaves stars and forks. -/
structure RepoRow.Bare (row : RepoRow) (path : EventPath) : Prop where
  description : row.description = none
  language : row.language = none
  topics : row.topics = []
  licenseSpdx : row.licenseSpdx = none
  licenseKey : row.licenseKey = none
  stars : path ≠ .route → row.stars = 0
  forks : path ≠ .route → row.forks = 0
  archived : row.archived = false
  pushedAt : row.pushedAt = none
  updatedAt : row.updatedAt = none

/-- A raw event with a name that no other repository has finds a bare row, if it finds one,
that was last seen no later than the event is. -/
def FindsBare (env : EventEnv) (repos : GithubRepos) (clock : ℤ) (path : EventPath) (e : Json) :
    Prop :=
  ∀ u row, rawUpsert env e path = some u → repos.nameTaken u = false →
    repos.row u.repoId = some row → row.Bare path ∧ row.lastSeenAt ≤ u.seenAt.getD clock

section Rows

variable {env : EventEnv} {repos repos' : GithubRepos} {u : RepoUpsert} {row : RepoRow}
variable {repoId : ℕ} {clock : ℤ}

theorem row_repoId (h : repos.row repoId = some row) : row.repoId = repoId := by
  simpa using List.find?_some h

/-- A row that is rewritten in its place. -/
theorem row_map {f : RepoRow → RepoRow} (hf : ∀ r, (f r).repoId = r.repoId) :
    GithubRepos.row (repos.map f) repoId = (repos.row repoId).map f := by
  unfold GithubRepos.row
  rw [List.find?_map]
  simp only [Function.comp_def, hf]

/-- A successful upsert rewrites the row of its repository. -/
theorem upsert_row_self (h : upsertGithubRepo clock repos u = some repos')
    (hrow : repos.row u.repoId = some row) :
    repos'.row u.repoId = some (u.updated (u.seenAt.getD clock) row) := by
  unfold upsertGithubRepo at h
  dsimp only at h
  rw [hrow] at h
  split_ifs at h with hname hsome
  · obtain rfl := Option.some.inj h
    rw [row_map, hrow, Option.map_some, if_pos (row_repoId hrow)]
    intro r
    split_ifs <;> rfl
  · exact absurd rfl hsome

/-- The rows of other repositories stay. -/
theorem upsert_row_other (h : upsertGithubRepo clock repos u = some repos')
    (hne : repoId ≠ u.repoId) (hrow : repos.row repoId = some row) :
    repos'.row repoId = some row := by
  unfold upsertGithubRepo at h
  dsimp only at h
  split_ifs at h
  · obtain rfl := Option.some.inj h
    rw [row_map, hrow, Option.map_some, if_neg (by rw [row_repoId hrow]; exact hne)]
    intro r
    split_ifs <;> rfl
  · obtain rfl := Option.some.inj h
    unfold GithubRepos.row at hrow ⊢
    rw [List.find?_append, hrow, Option.some_or]

/-- An upsert fails just if another repository has the name. -/
theorem upsert_isSome : (upsertGithubRepo clock repos u).isSome = !repos.nameTaken u := by
  unfold upsertGithubRepo
  dsimp only
  by_cases htaken : repos.nameTaken u = true
  · rw [if_pos htaken, htaken]
    rfl
  · rw [if_neg htaken, Bool.eq_false_of_not_eq_true htaken]
    split_ifs <;> rfl

theorem RepoRow.Kept.refl : row.Kept row := ⟨rfl, fun _ _ => rfl, rfl, le_rfl⟩

end Rows

section Events

variable {env : EventEnv} {repos : GithubRepos} {u : RepoUpsert} {row : RepoRow}
variable {path : EventPath} {e : Json} {clock : ℤ}

/-- What the upsert of a raw event writes. -/
theorem rawUpsert_knowledge (h : rawUpsert env e path = some u) (stars forks : ℕ) :
    u.knowledge stars forks = match path with
      | .runner _ => ⟨none, none, [], none, none, 0, 0, false, none, none⟩
      | .route => ⟨none, none, [], none, none, stars, forks, false, none, none⟩ := by
  cases hid : (if isEvent e then eventRepoId env e else none) with
  | none =>
      cases path with
      | runner now => simp [rawUpsert, ingestEvent, hid] at h
      | route => simp [rawUpsert, workerEvent, hid] at h
  | some repoId =>
      cases path with
      | runner now =>
          simp only [rawUpsert, ingestEvent, hid] at h
          split_ifs at h
          obtain rfl := Option.some.inj h
          rfl
      | route =>
          simp only [rawUpsert, workerEvent, hid] at h
          split_ifs at h
          obtain rfl := Option.some.inj h
          rfl

/-- The upsert of a raw event leaves what is known just if nothing is. -/
theorem knowledge_kept_iff (h : rawUpsert env e path = some u) :
    u.knowledge row.stars row.forks = row.toRepoKnowledge ↔ row.Bare path := by
  rw [rawUpsert_knowledge h]
  constructor
  · intro hsame
    cases path with
    | runner now =>
        have hfields := RepoKnowledge.mk.injEq .. ▸ hsame
        obtain ⟨h1, h2, h3, h4, h5, h6, h7, h8, h9, h10⟩ := hfields
        exact ⟨h1.symm, h2.symm, h3.symm, h4.symm, h5.symm, fun _ => h6.symm, fun _ => h7.symm,
          h8.symm, h9.symm, h10.symm⟩
    | route =>
        have hfields := RepoKnowledge.mk.injEq .. ▸ hsame
        obtain ⟨h1, h2, h3, h4, h5, -, -, h8, h9, h10⟩ := hfields
        exact ⟨h1.symm, h2.symm, h3.symm, h4.symm, h5.symm, fun hne => absurd rfl hne,
          fun hne => absurd rfl hne, h8.symm, h9.symm, h10.symm⟩
  · rintro ⟨h1, h2, h3, h4, h5, h6, h7, h8, h9, h10⟩
    cases path with
    | runner now =>
        have hrunner : EventPath.runner now ≠ .route := by simp
        exact RepoKnowledge.ext h1.symm h2.symm h3.symm h4.symm h5.symm (h6 hrunner).symm
          (h7 hrunner).symm h8.symm h9.symm h10.symm
    | route =>
        exact RepoKnowledge.ext h1.symm h2.symm h3.symm h4.symm h5.symm rfl rfl h8.symm h9.symm
          h10.symm

/-- A row after the upsert of a raw event. -/
theorem kept_updated_iff (h : rawUpsert env e path = some u) {now : ℤ} :
    row.Kept (u.updated now row) ↔ row.Bare path ∧ row.lastSeenAt ≤ now := by
  rw [← knowledge_kept_iff h]
  constructor
  · exact fun hkept => ⟨hkept.knowledge, hkept.lastSeen⟩
  · rintro ⟨hsame, hseen⟩
    refine ⟨hsame, fun penv input => ?_, rfl, hseen⟩
    have hlicense : (u.updated now row).licenseSpdx = row.licenseSpdx :=
      congrArg RepoKnowledge.licenseSpdx hsame
    have harchived : (u.updated now row).archived = row.archived :=
      congrArg RepoKnowledge.archived hsame
    have hstars : (u.updated now row).stars = row.stars := congrArg RepoKnowledge.stars hsame
    unfold RepoRow.decision
    rw [hlicense, harchived, hstars]

/-- One raw event. -/
theorem keepsRows_iff :
    KeepsRows env repos (clock, .raw path e) ↔ FindsBare env repos clock path e := by
  have hstep : repoStep env repos (clock, .raw path e) =
      (rawUpsert env e path).elim repos fun u => (upsertGithubRepo clock repos u).getD repos := by
    have hraw : (RepoOp.raw path e).upsert env = rawUpsert env e path := rfl
    rw [repoStep, hraw]
    cases rawUpsert env e path with
    | none => rfl
    | some u => rfl
  unfold KeepsRows FindsBare
  rw [hstep]
  cases hupsert : rawUpsert env e path with
  | none =>
      refine iff_of_true (fun repoId row hrow => ⟨row, hrow, RepoRow.Kept.refl⟩) ?_
      intro u row hu
      exact absurd hu (by simp)
  | some u =>
      rw [Option.elim_some]
      cases hresult : upsertGithubRepo clock repos u with
      | none =>
          -- the name belongs to another repository, and the upsert throws
          have hsome : (upsertGithubRepo clock repos u).isSome = !repos.nameTaken u := upsert_isSome
          have htaken : repos.nameTaken u = true := by simpa [hresult] using hsome.symm
          refine iff_of_true (fun repoId row hrow => ⟨row, hrow, RepoRow.Kept.refl⟩) ?_
          intro u' row hu hfree
          obtain rfl := Option.some.inj hu
          exact absurd (htaken.symm.trans hfree) (by simp)
      | some repos' =>
          have hsome : (upsertGithubRepo clock repos u).isSome = !repos.nameTaken u := upsert_isSome
          have hfree : repos.nameTaken u = false := by simpa [hresult] using hsome.symm
          constructor
          · intro h u' row hu _ hrow
            obtain rfl := Option.some.inj hu
            obtain ⟨row', hrow', hkept⟩ := h u.repoId row hrow
            rw [Option.getD_some, upsert_row_self hresult hrow] at hrow'
            obtain rfl := Option.some.inj hrow'
            exact (kept_updated_iff hupsert).mp hkept
          · intro h repoId row hrow
            rw [Option.getD_some]
            by_cases hself : repoId = u.repoId
            · subst hself
              exact ⟨_, upsert_row_self hresult hrow,
                (kept_updated_iff hupsert).mpr (h u row rfl hfree hrow)⟩
            · exact ⟨row, upsert_row_other hresult hself hrow, RepoRow.Kept.refl⟩

/-- **Raw events keep what is known of repositories**, just if each of them finds nothing to
erase. -/
theorem raw_events_keep_iff (env : EventEnv) (repos : GithubRepos) (ops : List (ℤ × RepoOp)) :
    RawEventsKeep env repos ops ↔
      ∀ before clock path e after, ops = before ++ (clock, .raw path e) :: after →
        FindsBare env (repoRun env repos before) clock path e := by
  constructor
  · intro h before clock path e after hops
    exact keepsRows_iff.mp (h before clock path e after hops)
  · intro h before clock path e after hops
    exact keepsRows_iff.mpr (h before clock path e after hops)

/-- An indexer has found the license of a repository. -/
def licensedRepo : RepoUpsert where
  repoId := 7
  fullName := "o/r"
  htmlUrl := "https://github.com/o/r"
  description := some "A library"
  language := some "TypeScript"
  topics := some ["lib"]
  licenseSpdx := some "MIT"
  licenseKey := some "mit"
  stars := some 100
  forks := some 3
  archived := some false
  pushedAt := some 1
  updatedAt := some 1
  seenAt := none

/-- An event of the repository. -/
def watchEvent : Json :=
  .obj [("id", .str "1"), ("type", .str "WatchEvent"),
    ("repo", .obj [("id", .num "7"), ("name", .str "o/r")])]

/-- Enough of the functions for the event. -/
def demoEventEnv : EventEnv where
  parseDate _ := none
  finiteNumber
    | .num "7" => some 7
    | _ => none

/-- A worker reports an event of a repository whose license an indexer has found. -/
theorem raw_event_erases :
    ¬ RawEventsKeep demoEventEnv [] [(5, .enrich licensedRepo), (6, .raw .route watchEvent)] := by
  intro h
  have hkeeps := h [(5, .enrich licensedRepo)] 6 .route watchEvent [] rfl
  have hfound : (repoRun demoEventEnv [] [(5, .enrich licensedRepo)]).row 7 =
      some (licensedRepo.inserted 5) := by decide
  obtain ⟨row', hrow', hkept⟩ := hkeeps 7 _ hfound
  have hlost : ((repoStep demoEventEnv (repoRun demoEventEnv [] [(5, .enrich licensedRepo)])
      (6, .raw .route watchEvent)).row 7).map (fun r => r.licenseSpdx) = some none := by
    decide
  rw [hrow', Option.map_some] at hlost
  have hlicense : row'.licenseSpdx = some "MIT" := congrArg RepoKnowledge.licenseSpdx hkept.knowledge
  rw [hlicense] at hlost
  exact absurd hlost (by simp)

end Events

end OpenUnion
