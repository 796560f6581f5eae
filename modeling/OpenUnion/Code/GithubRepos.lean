import OpenUnion.Code.RepoPolicy

/-!
# Repository snapshots

`github_repos` holds what is known of a repository.  Three callers write it through
`upsertGithubRepo`: the search of an indexer with all it knows, and two that have just seen a
raw event, the ingest runner and the route for the events of workers.

The raw events themselves and the cursors are other tables and left out; an event whose row
could not be stored is one that is not processed.
-/

namespace OpenUnion

/-- What a row knows of its repository. -/
@[ext]
structure RepoKnowledge where
  description : Option String
  language : Option String
  topics : List String
  licenseSpdx : Option String
  licenseKey : Option String
  stars : ℕ
  forks : ℕ
  archived : Bool
  pushedAt : Option ℤ
  updatedAt : Option ℤ
  deriving DecidableEq

/-- A row of `github_repos`. -/
structure RepoRow extends RepoKnowledge where
  repoId : ℕ
  fullName : String
  htmlUrl : String
  fetchedAt : ℤ
  firstSeenAt : ℤ
  lastSeenAt : ℤ
  deriving DecidableEq

/-- The input of `upsertGithubRepo`; a number that is not finite is missing. -/
structure RepoUpsert where
  repoId : ℕ
  fullName : String
  htmlUrl : String
  description : Option String
  language : Option String
  topics : Option (List String)
  licenseSpdx : Option String
  licenseKey : Option String
  stars : Option ℚ
  forks : Option ℚ
  archived : Option Bool
  pushedAt : Option ℤ
  updatedAt : Option ℤ
  seenAt : Option ℤ

namespace RepoUpsert

variable (u : RepoUpsert) (now : ℤ)

/-- What the upsert writes; `stars` and `forks` stand in for numbers that are missing. -/
def knowledge (stars forks : ℕ) : RepoKnowledge where
  description := u.description
  language := u.language
  topics := u.topics.getD []
  licenseSpdx := u.licenseSpdx
  licenseKey := u.licenseKey
  stars := (u.stars.map fun q => ⌊q⌋.toNat).getD stars
  forks := (u.forks.map fun q => ⌊q⌋.toNat).getD forks
  archived := u.archived.getD false
  pushedAt := u.pushedAt
  updatedAt := u.updatedAt

/-- The row that is inserted. -/
def inserted : RepoRow where
  toRepoKnowledge := u.knowledge 0 0
  repoId := u.repoId
  fullName := u.fullName
  htmlUrl := u.htmlUrl
  fetchedAt := now
  firstSeenAt := now
  lastSeenAt := now

/-- The row of the repository, on conflict. -/
def updated (row : RepoRow) : RepoRow where
  toRepoKnowledge := u.knowledge row.stars row.forks
  repoId := row.repoId
  fullName := u.fullName
  htmlUrl := u.htmlUrl
  fetchedAt := now
  firstSeenAt := row.firstSeenAt
  lastSeenAt := now

end RepoUpsert

/-- The rows of `github_repos`. -/
abbrev GithubRepos := List RepoRow

/-- The row of a repository. -/
def GithubRepos.row (repos : GithubRepos) (repoId : ℕ) : Option RepoRow :=
  repos.find? fun r => decide (r.repoId = repoId)

/-- Another repository has the name. -/
def GithubRepos.nameTaken (repos : GithubRepos) (u : RepoUpsert) : Bool :=
  repos.any fun r => decide (r.repoId ≠ u.repoId ∧ r.fullName = u.fullName)

/-- `upsertGithubRepo` at a time of the clock; it throws if another repository has the name. -/
def upsertGithubRepo (clock : ℤ) (repos : GithubRepos) (u : RepoUpsert) : Option GithubRepos :=
  let now := u.seenAt.getD clock
  if repos.nameTaken u then none
  else if (repos.row u.repoId).isSome then
    some (repos.map fun r => if r.repoId = u.repoId then u.updated now r else r)
  else some (repos ++ [u.inserted now])

/-- The functions that read an event. -/
structure EventEnv where
  /-- The time of `new Date(text)`, if it is valid. -/
  parseDate : String → Option ℤ
  /-- `Number(value)`, if it is finite. -/
  finiteNumber : Json → Option ℚ

section Events

variable (env : EventEnv)

/-- The repository of an event, if it has an id that is a positive number. -/
def eventRepoId (e : Json) : Option ℕ :=
  match (((e.get? "repo").getD .null).get? "id").filter (fun v => !v.isNull) with
  | none => none
  | some v => ((env.finiteNumber v).filter fun q => decide (0 < q)).map fun q => ⌊q⌋.toNat

/-- The event has an id and a type. -/
def isEvent (e : Json) : Bool :=
  decide (trimmed (e.textAt "id" "") ≠ "" ∧ trimmed (e.textAt "type" "") ≠ "")

/-- The time of an event. -/
def eventCreatedAt (e : Json) : Option ℤ :=
  let createdAtRaw := trimmed (e.textAt "created_at" "")
  if createdAtRaw = "" then none else env.parseDate createdAtRaw

/-- The upsert of `ingestEvent`, in a run that has started at `now`. -/
def ingestEvent (now : ℤ) (e : Json) : Option RepoUpsert :=
  let repoFullName := trimmed (((e.get? "repo").getD .null).textAt "name" "")
  match if isEvent e then eventRepoId env e else none with
  | none => none
  | some repoId =>
      if repoFullName = "" then none
      else some
        { repoId := repoId
          fullName := repoFullName
          htmlUrl := "https://github.com/" ++ repoFullName
          description := none
          language := none
          topics := some []
          licenseSpdx := none
          licenseKey := none
          stars := some 0
          forks := some 0
          archived := some false
          pushedAt := none
          updatedAt := none
          seenAt := some ((eventCreatedAt env e).getD now) }

/-- The upsert of the route for the events of workers. -/
def workerEvent (e : Json) : Option RepoUpsert :=
  let name := ((e.get? "repo").getD .null).get? "name"
  let repoFullName := ((name.filter Json.truthy).map fun v => trimmed v.toText).getD ""
  match if isEvent e then eventRepoId env e else none with
  | none => none
  | some repoId =>
      if repoFullName = "" then none
      else some
        { repoId := repoId
          fullName := repoFullName
          htmlUrl := "https://github.com/" ++ repoFullName
          description := none
          language := none
          topics := none
          licenseSpdx := none
          licenseKey := none
          stars := none
          forks := none
          archived := none
          pushedAt := none
          updatedAt := none
          seenAt := none }

/-- Where a raw event comes in. -/
inductive EventPath where
  /-- The ingest runner, in a run that has started at `now`. -/
  | runner (now : ℤ)
  | route

/-- The upsert of a raw event. -/
def rawUpsert (e : Json) : EventPath → Option RepoUpsert
  | .runner now => ingestEvent env now e
  | .route => workerEvent env e

/-- What happens to the rows. -/
inductive RepoOp where
  /-- An indexer stores what it has found. -/
  | enrich (u : RepoUpsert)
  | raw (path : EventPath) (e : Json)

/-- The upsert of an operation. -/
def RepoOp.upsert : RepoOp → Option RepoUpsert
  | .enrich u => some u
  | .raw path e => rawUpsert env e path

/-- An operation at a time of the clock; one that throws leaves the rows as they are. -/
def repoStep (repos : GithubRepos) (op : ℤ × RepoOp) : GithubRepos :=
  match op.2.upsert env with
  | none => repos
  | some u => (upsertGithubRepo op.1 repos u).getD repos

/-- The operations of a run, in order. -/
def repoRun (repos : GithubRepos) (ops : List (ℤ × RepoOp)) : GithubRepos :=
  ops.foldl (repoStep env) repos

end Events

end OpenUnion
