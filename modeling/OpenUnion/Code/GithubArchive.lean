import OpenUnion.Calendar.Time
import OpenUnion.Code.GithubRepos

/-!
# The hours of an archive

An archive holds one file of events an hour.  A run of the ingest runner reads the file of one
hour and keeps in `github_sources` which hour comes next, as a text of year, month, date and hour
with dashes between them.  The month and the date are padded to two digits and the hour is not.

There is one source, and its id and the times its row was created and updated at are left out, as
are the raw events; a line whose event could not be stored is marked as one that fails.  A date
that is not valid is none.
-/

namespace OpenUnion

open Calendar

/-! ## Hours as texts -/

/-- A whole number in decimal digits. -/
def decimal (n : ℤ) : List Char :=
  (if n < 0 then ['-'] else []) ++ Nat.toDigits 10 n.natAbs

/-- `String(n).padStart(2, "0")`. -/
def padStart2 (n : ℤ) : List Char := (decimal n).leftpad 2 '0'

/-- The parts of an hour. -/
def hourParts (t : ℤ) : List (List Char) :=
  [decimal (yearFromTime t), padStart2 (monthFromTime t + 1), padStart2 (dateFromTime t),
    decimal (hourFromTime t)]

/-- The text of the hour of a date. -/
def hourText : Option ℤ → String
  | none => "NaN-NaN-NaN-NaN"
  | some t => String.ofList (['-'].intercalate (hourParts t))

/-- What the runner calls to read texts and to print dates. -/
structure ArchiveEnv extends EventEnv where
  /-- `JSON.parse`, if it does not throw. -/
  parseJson : String → Option Json
  toISOString : ℤ → String
  /-- `Number(text)` without its fraction, if it is finite, of a text that is not all digits. -/
  number : String → Option ℤ

section Runner

variable (env : ArchiveEnv)

/-- `Number` of a part of an hour. -/
def partNumber (part : List Char) : Option ℤ :=
  if part.all Char.isDigit then some (Nat.ofDigitChars 10 part 0)
  else env.number (String.ofList part)

/-- The date of an hour's text; the parts that are missing have defaults. -/
def hourDate (hour : String) : Option ℤ :=
  let parts := (hour.toList.splitOn '-').map (partNumber env)
  do
    let yyyy ← parts[0]?.getD none
    let mm ← parts[1]?.getD (some 1)
    let dd ← parts[2]?.getD (some 1)
    let hh ← parts[3]?.getD (some 0)
    utc yyyy (mm - 1) dd hh 0 0 0

/-- The hour after an hour. -/
def hourAfter (hour : String) : String :=
  hourText ((hourDate env hour).bind fun d => setUTCHours d (hourFromTime d + 1))

/-- The hour before that of a date. -/
def previousHour (now : ℤ) : Option ℤ :=
  (setUTCMinutes now 0 0 0).bind fun d => setUTCHours d (hourFromTime d - 1)

/-! ## Sources -/

inductive GithubSourceStatus where
  | active | paused | error
  deriving DecidableEq

/-- The row of the source. -/
structure GithubSource where
  cursor : Json
  status : GithubSourceStatus
  lastSuccessAt : Option ℤ
  lastErrorAt : Option ℤ
  lastError : Option String

/-- The input of `upsertGithubSource`; what it does not give is none. -/
structure GithubSourceUpsert where
  cursor : Option Json
  status : Option GithubSourceStatus
  lastSuccessAt : Option (Option ℤ)
  lastErrorAt : Option (Option ℤ)
  lastError : Option (Option String)

/-- `upsertGithubSource`: what the input does not give stays. -/
def upsertGithubSource (input : GithubSourceUpsert) : Option GithubSource → GithubSource
  | none =>
      { cursor := input.cursor.getD (.obj [])
        status := input.status.getD .active
        lastSuccessAt := input.lastSuccessAt.getD none
        lastErrorAt := input.lastErrorAt.getD none
        lastError := input.lastError.getD none }
  | some row =>
      { cursor := input.cursor.getD row.cursor
        status := input.status.getD row.status
        lastSuccessAt := input.lastSuccessAt.getD row.lastSuccessAt
        lastErrorAt := input.lastErrorAt.getD row.lastErrorAt
        lastError := input.lastError.getD row.lastError }

/-! ## Lines -/

/-- What a run has stored so far. -/
structure Ingested where
  repos : GithubRepos
  fetched : ℕ
  upsertedRepos : ℕ

/-- A line of a file, and whether the database fails to store its event. -/
structure ArchiveLine where
  text : String
  fails : Bool

/-- `ingestEvent` with its raw event, if it does not throw. -/
def storeEvent (now : ℤ) (done : Ingested) (e : Json) (fails : Bool) : Option Ingested :=
  if !isEvent e then some done
  else if fails then none
  else match ingestEvent env.toEventEnv now e with
    | none => some { done with fetched := done.fetched + 1 }
    | some u => (upsertGithubRepo now done.repos u).map fun repos =>
        ⟨repos, done.fetched + 1, done.upsertedRepos + 1⟩

/-- One line, if it does not throw; a line that is no event is passed over. -/
def ingestLine (now : ℤ) (done : Ingested) (line : ArchiveLine) : Option Ingested :=
  let s := trimmed line.text
  match (if s = "" then none else env.parseJson s).filter Json.truthy with
  | none => some done
  | some evt => storeEvent env now done evt line.fails

/-- The lines of a file, and whether none of them throws. -/
def ingestLines (now : ℤ) (done : Ingested) : List ArchiveLine → Ingested × Bool
  | [] => (done, true)
  | line :: rest =>
      match ingestLine env now done line with
      | none => (done, false)
      | some done' => ingestLines now done' rest

/-! ## Runs -/

/-- The lines of a file that come out of its stream, and whether the stream gets to its end. -/
structure ArchiveBody where
  lines : List ArchiveLine
  ends : Bool

structure ArchiveReply where
  status : ℕ
  body : Option ArchiveBody

/-- The input of a run, and what it meets. -/
structure ArchiveRun where
  baseUrl : String
  archiveHour : Option String
  now : ℤ
  /-- The row cannot be read. -/
  readFails : Bool
  /-- The row cannot be created. -/
  createFails : Bool
  /-- The row cannot be written. -/
  writeFails : Bool
  /-- The reply to a request, or none if it throws. -/
  fetch : String → Option ArchiveReply

/-- `baseUrl` as it is used. -/
def ArchiveRun.base (r : ArchiveRun) : List Char :=
  let s := (trimmed r.baseUrl).toList
  if s.getLast? = some '/' then s.dropLast else s

/-- The hour that is asked for, or nothing. -/
def ArchiveRun.explicit (r : ArchiveRun) : String := trimmed (r.archiveHour.getD "")

/-- The rows a run reads and writes. -/
structure ArchiveWorld where
  repos : GithubRepos
  source : Option GithubSource

/-- The result of a run that does not throw. -/
structure IngestResult where
  fetched : ℕ
  upsertedRepos : ℕ
  cursor : Json

/-- The row is written, if that does not fail. -/
def ArchiveWorld.writeSource (w : ArchiveWorld) (fails : Bool) (input : GithubSourceUpsert) :
    ArchiveWorld :=
  if fails then w else { w with source := some (upsertGithubSource input w.source) }

/-- The hour the row has next, or nothing. -/
def ArchiveWorld.nextHour (w : ArchiveWorld) : String :=
  trimmed ((((w.source.map GithubSource.cursor).getD .null)).textAt "nextHour" "")

/-- The cursor of a run that has not read a file. -/
def waitingCursor (hour : String) : Json :=
  .obj [("kind", .str "gh_archive"), ("nextHour", .str hour)]

/-- The cursor of a run that has read the file of an hour. -/
def readCursor (now : ℤ) (hour : String) : Json :=
  .obj [("kind", .str "gh_archive"), ("nextHour", .str (hourAfter env hour)),
    ("lastIngestedHour", .str hour), ("lastPollAt", .str (env.toISOString now))]

/-- The stream of a file is read and the cursor moves to the next hour. -/
def readHour (w : ArchiveWorld) (r : ArchiveRun) (hour : String) (body : ArchiveBody) :
    ArchiveWorld × Option IngestResult :=
  let (done, stored) := ingestLines env r.now ⟨w.repos, 0, 0⟩ body.lines
  let w' := { w with repos := done.repos }
  if !(stored && body.ends) then (w', none)
  else
    let cursor := readCursor env r.now hour
    (w'.writeSource r.writeFails
      { cursor := some cursor
        status := some .active
        lastSuccessAt := some (some r.now)
        lastErrorAt := some none
        lastError := some none },
      if r.writeFails then none else some ⟨done.fetched, done.upsertedRepos, cursor⟩)

/-- The file of an hour, once there is a row; a run that throws has no result. -/
def fetchHour (w : ArchiveWorld) (r : ArchiveRun) (hour : String) :
    ArchiveWorld × Option IngestResult :=
  match r.fetch (String.ofList r.base ++ "/" ++ hour ++ ".json.gz") with
  | none => (w, none)
  | some resp =>
      if resp.status = 404 then
        -- not yet available
        (w.writeSource r.writeFails
          { cursor := none
            status := some .active
            lastSuccessAt := none
            lastErrorAt := some (some r.now)
            lastError := some (some ("gh_archive_not_ready:" ++ hour)) },
          if r.writeFails then none else some ⟨0, 0, waitingCursor hour⟩)
      else if ¬ (200 ≤ resp.status ∧ resp.status ≤ 299) then
        (w.writeSource r.writeFails
          { cursor := none
            status := some .error
            lastSuccessAt := none
            lastErrorAt := some (some r.now)
            lastError := some (some
              ("gh_archive_fetch_failed:" ++ toString resp.status ++ ":" ++ hour)) }, none)
      else match resp.body with
        | none => (w, none)
        | some body => readHour env w r hour body

/-- `runGithubIngestOnce` of an archive; a run that throws has no result. -/
def runGithubIngestOnce (w : ArchiveWorld) (r : ArchiveRun) :
    ArchiveWorld × Option IngestResult :=
  if r.base = [] ∨ r.readFails = true then (w, none)
  else if w.source.isNone && r.createFails then (w, none)
  else
    let hour := if r.explicit = "" then w.nextHour else r.explicit
    let w' := if w.source.isNone then
      w.writeSource false ⟨some (.obj []), some .active, none, none, none⟩ else w
    if hour = "" then
      let cursor := waitingCursor (hourText (previousHour r.now))
      (w'.writeSource r.writeFails ⟨some cursor, some .active, none, none, none⟩,
        if r.writeFails then none else some ⟨0, 0, cursor⟩)
    else fetchHour env w' r hour

/-- The hour whose file a run has read to its end, as its result says. -/
def IngestResult.ingestedHour (res : IngestResult) : Option String :=
  (res.cursor.get? "lastIngestedHour").map Json.toText

/-- The runs of the runner, and the hours whose ingestion completes in them, in order. -/
def ingestRuns (w : ArchiveWorld) : List ArchiveRun → ArchiveWorld × List String
  | [] => (w, [])
  | r :: rs =>
      let (w', result) := runGithubIngestOnce env w r
      let (w'', hours) := ingestRuns w' rs
      (w'', (result.bind IngestResult.ingestedHour).toList ++ hours)

end Runner

end OpenUnion
