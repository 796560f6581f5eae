import OpenUnion.Code.Json
import OpenUnion.Interleave.Autocommit
import OpenUnion.Interleave.Stages

/-!
# The inbox of alarms

CloudWatch alarms reach a queue through a topic.  `alarm-inbox-runner` receives batches of the
queue, parses each message, stores a row of `alarm_notifications` and deletes the message; every
hour it prunes old rows.  Any number of runners work on one queue, which hands a message out
again for as long as it likes.

A statement of the database may fail, and then the runner goes on; where the queue fails the
runner ends.  Ids of rows, logs, counters and the waits between two polls are left out.
-/

namespace OpenUnion.AlarmInbox

open Interleave

/-- The settings and functions of a runner. -/
structure InboxEnv where
  environment : String
  maxMessages : Nat
  /-- `JSON.parse`, unless it throws. -/
  parseJson : String → Option Json
  /-- `new Date(text).getTime()`, unless it is `NaN`. -/
  dateOf : String → Option ℤ

/-- A message as it is received. -/
structure Delivery where
  receipt : Option String
  body : Option String
  deriving DecidableEq

/-- What `parseAlarmFromSns` returns. -/
structure ParsedAlarm where
  snsMessageId : Option String
  topicArn : String
  alarmName : Option String
  oldStateValue : Option String
  newStateValue : Option String
  stateReason : Option String
  stateChangeTime : Option ℤ
  raw : Json

/-- A row of `alarm_notifications`. -/
structure AlarmRow extends ParsedAlarm where
  environment : String
  receivedAt : ℤ

section Parsing

variable (env : InboxEnv)

/-- A member that counts as true, `value[key] ? value[key] : null`. -/
def member (value : Json) (key : String) : Option Json := (value.get? key).filter Json.truthy

/-- `value[key] ? String(value[key]) : null`. -/
def memberText (value : Json) (key : String) : Option String := (member value key).map Json.toText

/-- `safeJsonParse`. -/
def safeJsonParse (text : String) : Json := (env.parseJson text).getD .null

/-- `parseAlarmFromSns`. -/
def parseAlarmFromSns (envelope : Json) : ParsedAlarm :=
  let innerRaw := match memberText envelope "Message" with
    | some message => safeJsonParse env message
    | none => .null
  { snsMessageId := memberText envelope "MessageId"
    topicArn := envelope.textAt "TopicArn" ""
    alarmName := memberText innerRaw "AlarmName"
    oldStateValue := memberText innerRaw "OldStateValue"
    newStateValue := memberText innerRaw "NewStateValue"
    stateReason := memberText innerRaw "NewStateReason"
    stateChangeTime := (memberText innerRaw "StateChangeTime").bind env.dateOf
    raw := .obj [("sns", envelope), ("message", innerRaw)] }

/-- The envelope of a message, unless it is malformed: `!env || !env.TopicArn`. -/
def envelopeOf (d : Delivery) : Option Json :=
  let envelope := safeJsonParse env (d.body.getD "")
  if envelope.truthy ∧ (member envelope "TopicArn").isSome then some envelope else none

/-- The row of an envelope. -/
def alarmRow (envelope : Json) (now : ℤ) : AlarmRow :=
  { parseAlarmFromSns env envelope with environment := env.environment, receivedAt := now }

end Parsing

/-- The database, the queue and the clock. -/
structure World where
  now : ℤ
  rows : List AlarmRow
  /-- The next statement of the database fails. -/
  down : Bool
  /-- The bodies of the messages that were ever put into the queue. -/
  sent : List (Option String)
  /-- What the queue hands out next. -/
  handedOut : List Delivery

/-- Two rows are one under the unique index on topic and message id; a row without a message
id is under none. -/
def AlarmRow.sameKey (r r' : AlarmRow) : Bool :=
  decide (r.topicArn = r'.topicArn ∧ r.snsMessageId = r'.snsMessageId ∧ r.snsMessageId.isSome)

/-- `INSERT .. ON CONFLICT (topic_arn, sns_message_id) DO NOTHING`. -/
def insertRow (row : AlarmRow) (rows : List AlarmRow) : List AlarmRow :=
  if rows.any row.sameKey then rows else rows ++ [row]

/-- The statements. -/
inductive Stmt where
  /-- `ReceiveMessageCommand`. -/
  | receive
  /-- `DeleteMessageCommand`. -/
  | delete (receipt : String)
  | dateNow
  /-- The insert of a row. -/
  | insert (row : AlarmRow)
  /-- `DELETE FROM alarm_notifications WHERE received_at < cutoff`. -/
  | deleteBefore (cutoff : ℤ)

/-- What a statement answers; one of the database whether it has been executed. -/
def Stmt.Val : Stmt → Type
  | .receive => List Delivery
  | .delete _ => Unit
  | .dateNow => ℤ
  | .insert _ => Bool
  | .deleteBefore _ => Bool

def Stmt.result (env : InboxEnv) : (s : Stmt) → World → s.Val
  | .receive, w => w.handedOut.take env.maxMessages
  | .delete _, _ => ()
  | .dateNow, w => w.now
  | .insert _, w => !w.down
  | .deleteBefore _, w => !w.down

/-- What a statement leaves. -/
def Stmt.write : Stmt → World → World
  | .receive, w => { w with handedOut := [] }
  | .insert row, w => if w.down then w else { w with rows := insertRow row w.rows }
  | .deleteBefore cutoff, w =>
      if w.down then w
      else { w with rows := w.rows.filter fun row => decide (cutoff ≤ row.receivedAt) }
  | .delete _, w | .dateNow, w => w

/-- Programs over the queue and the database. -/
abbrev Code := Prog Stmt Stmt.Val Unit String

/-- Execute a statement. -/
abbrev run (s : Stmt) : Code s.Val := perform s

/-- The body of the loop over the messages of a batch. -/
def handleMessage (env : InboxEnv) (d : Delivery) : Code Unit :=
  match d.receipt with
  | none => return ()
  | some receipt =>
      match envelopeOf env d with
      | none => run (.delete receipt)
      | some envelope => do
          let now : ℤ ← run .dateNow
          let _ : Bool ← run (.insert (alarmRow env envelope now))
          run (.delete receipt)

/-- One poll. -/
def poll (env : InboxEnv) : Code Unit := do
  let batch : List Delivery ← run .receive
  forEach (handleMessage env) batch

/-- The main loop of a runner that polls `n` times before it ends. -/
def pollLoop (env : InboxEnv) : Nat → Code Unit
  | 0 => return ()
  | n + 1 => do
      poll env
      pollLoop env n

/-- The milliseconds of a day. -/
def dayMs : ℤ := 24 * 60 * 60 * 1000

/-- `pruneAlarmNotifications`. -/
def pruneAlarmNotifications (maxAgeDays : ℤ) : Code Unit :=
  if maxAgeDays ≤ 0 then return ()
  else do
    let now : ℤ ← run .dateNow
    let _ : Bool ← run (.deleteBefore (now - maxAgeDays * dayMs))
    return ()

/-- The programs: a runner, and a tick of its timer. -/
inductive Request where
  | runner (polls : Nat)
  | prune (maxAgeDays : ℤ)
  deriving DecidableEq

def Request.code (env : InboxEnv) : Request → Code Unit
  | .runner polls => pollLoop env polls
  | .prune maxAgeDays => pruneAlarmNotifications maxAgeDays

/-- What happens outside: time passes, the database goes down or comes up, a message is put
into the queue, and the queue gets ready to hand out messages that were put into it, also such
as it has handed out or as were deleted before. -/
inductive Outside where
  | tick (ms : Nat)
  | database (down : Bool)
  | send (body : Option String)
  | handOut (batch : List Delivery)

def Outside.move : Outside → World → World
  | .tick ms, w => { w with now := w.now + ms }
  | .database down, w => { w with down := down }
  | .send body, w => { w with sent := body :: w.sent }
  | .handOut batch, w =>
      if ∀ d ∈ batch, d.body ∈ w.sent then { w with handedOut := batch } else w

/-- A statement that was executed, with its answer and the rows it found. -/
structure Executed where
  req : Request
  stmt : Stmt
  val : stmt.Val
  found : List AlarmRow

/-- Runners over one queue and one database. -/
def inbox (env : InboxEnv) :
    Machine Stmt Stmt.Val Unit String Unit Request World Empty Outside Executed where
  engine := Engine.lockless (Stmt.result env) Stmt.write
  code _ q := q.code env
  env e w := e.move w
  env_same _ k _ := k.elim
  note a x w :=
    match x with
    | .stmt s r => [⟨a.req, s, r, w.rows⟩]
    | _ => []

end OpenUnion.AlarmInbox
