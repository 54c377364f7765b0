import Mathlib.Data.List.Sort
import Rdq.Core.Spi
import Rdq.Foundation.KeyedTable

/-!
# The Postgres schema and its rows

`storage/postgres/migrations/0001_init.up.sql` and the column mapping of
`mapping.go`: live tasks in `rdq_task`, dead letters in `rdq_dlq_task`, and the
attempts of both in `rdq_attempt`. The primary keys and `UNIQUE (task_id,
attempt_no)` are the keys of the tables, so no state can violate them; a
statement that would is refused.

## Implementation notes

The rows of `rdq_attempt` stand in the order of their identity column, which is
the order in which they were written. A `jsonb` column holds the value it
encodes. Times are taken at the precision of `timestamptz`, and `integer`
columns are unbounded. The identity column and `rdq_schema_version` are read by
no modelled statement and left out.
-/

namespace Rdq.Postgres

open Rdq.Foundation

/-- A row of `rdq_task`; `rdq_dlq_task` has the same columns and two more. -/
structure TaskRow where
  id : TaskID
  queue : String
  envelopeVersion : Int
  handlerRef : String
  handlerVersion : Option String
  payload : Option (List UInt8)
  payloadContentType : String
  payloadRef : Option String
  headers : StringMap String
  status : Status
  attemptCount : Int
  redriveCount : Int
  nextAttemptAt : Option Time
  leaseExpiresAt : Option Time
  claimToken : Option ClaimToken
  createdAt : Time
  residual : StringMap RawMessage
deriving DecidableEq, Repr

/-- A row of `rdq_dlq_task`. -/
structure DlqRow where
  row : TaskRow
  deadLetteredAt : Time
  errorType : Option String
deriving DecidableEq, Repr

def DlqRow.id (d : DlqRow) : TaskID := d.row.id

/-- A row of `rdq_attempt`. -/
structure AttemptRow where
  taskId : TaskID
  attemptNo : Int
  startedAt : Time
  finishedAt : Option Time
  outcome : Outcome
  errorType : Option String := none
  errorMessage : Option String := none
  errorDetail : Option RawMessage := none
  errorStack : Option String := none
  residual : StringMap RawMessage := StringMap.empty
deriving DecidableEq, Repr

/-- The columns of `UNIQUE (task_id, attempt_no)`. -/
def AttemptRow.key (a : AttemptRow) : TaskID × Int := (a.taskId, a.attemptNo)

/-- The two tables a task can live in. -/
structure Tables where
  task : KeyedTable TaskRow.id
  dlq : KeyedTable DlqRow.id
deriving DecidableEq

/-- A committed state of the three tables. -/
structure Database extends Tables where
  attempt : KeyedTable AttemptRow.key
deriving DecidableEq

def Tables.new : Tables := ⟨KeyedTable.empty, KeyedTable.empty⟩

/-- The database after the migrations. -/
def Database.new : Database := ⟨Tables.new, KeyedTable.empty⟩

/-! ## Envelopes and rows -/

def emptyToNil (s : String) : Option String := if s = "" then none else some s

def nilToEmpty (s : Option String) : String := s.getD ""

/-- The columns of a task that is written for the first time. -/
def taskRowFromEnvelope (e : Envelope) : TaskRow where
  id := e.id
  queue := e.queue
  envelopeVersion := e.envelopeVersion
  handlerRef := e.handlerRef
  handlerVersion := emptyToNil e.handlerVersion
  payload := e.payload
  payloadContentType := e.payloadContentType
  payloadRef := e.payloadRef
  headers := e.headers
  status := e.status
  attemptCount := e.attemptCount
  redriveCount := e.redriveCount
  nextAttemptAt := e.nextAttemptAt
  leaseExpiresAt := e.leaseExpiresAt
  claimToken := none
  createdAt := e.createdAt
  residual := e.residual

def attemptRowFromAttempt (taskId : TaskID) (a : Attempt) : AttemptRow where
  taskId := taskId
  attemptNo := a.attemptNo
  startedAt := a.startedAt
  finishedAt := a.finishedAt
  outcome := a.outcome
  errorType := a.error.map TaskError.type
  errorMessage := a.error.map TaskError.message
  errorDetail := a.error.bind fun e => e.detail.filter fun d => d ≠ ""
  errorStack := a.error.bind fun e => emptyToNil e.stack
  residual := a.residual

def attemptRowsFromEnvelope (e : Envelope) : List AttemptRow :=
  e.attempts.map (attemptRowFromAttempt e.id)

/-- A NULL `error_type` marks an attempt without an error. -/
def attemptFromRow (r : AttemptRow) : Attempt where
  attemptNo := r.attemptNo
  startedAt := r.startedAt
  finishedAt := r.finishedAt
  outcome := r.outcome
  error := r.errorType.map fun type =>
    { type := type
      message := nilToEmpty r.errorMessage
      detail := r.errorDetail.filter fun d => d ≠ ""
      stack := nilToEmpty r.errorStack }
  residual := r.residual

def envelopeFromRows (t : TaskRow) (attempts : List AttemptRow) : Envelope where
  envelopeVersion := t.envelopeVersion
  id := t.id
  queue := t.queue
  handlerRef := t.handlerRef
  handlerVersion := nilToEmpty t.handlerVersion
  payload := t.payload
  payloadContentType := t.payloadContentType
  payloadRef := t.payloadRef
  headers := t.headers
  status := t.status
  attemptCount := t.attemptCount
  redriveCount := t.redriveCount
  nextAttemptAt := t.nextAttemptAt
  leaseExpiresAt := t.leaseExpiresAt
  createdAt := t.createdAt
  attempts := attempts.map attemptFromRow
  residual := t.residual

/-! ## Reading -/

namespace Tables
variable (t : Tables) (id : TaskID)

/-- The row of a task in either table, live tasks first. -/
def taskRow? : Option TaskRow :=
  match t.task.find? id with
  | some r => some r
  | none => (t.dlq.find? id).map DlqRow.row

/-- `lookupQueue`: the queue a task lives in. -/
def lookupQueue : Option String := (t.taskRow? id).map TaskRow.queue

theorem taskRow?_eq_none_iff {t : Tables} {id : TaskID} :
    t.taskRow? id = none ↔ t.task.find? id = none ∧ t.dlq.find? id = none := by
  unfold taskRow?
  split <;> simp_all

theorem lookupQueue_eq_none_iff {t : Tables} {id : TaskID} :
    t.lookupQueue id = none ↔ t.task.find? id = none ∧ t.dlq.find? id = none :=
  Option.map_eq_none_iff.trans taskRow?_eq_none_iff

theorem lookupQueue_of_task {t : Tables} {id : TaskID} {row : TaskRow}
    (h : t.task.find? id = some row) : t.lookupQueue id = some row.queue := by
  simp [lookupQueue, taskRow?, h]

end Tables

namespace Database

/-- The attempts of a task in the order in which they were written. -/
def attemptsOf (db : Database) (id : TaskID) : List AttemptRow :=
  db.attempt.rows.filter fun a => a.taskId = id

/-- `loadAttempts`: the attempts of a task, `ORDER BY attempt_no`. -/
def loadAttempts (db : Database) (id : TaskID) : List AttemptRow :=
  (db.attemptsOf id).insertionSort fun a b => a.attemptNo ≤ b.attemptNo

theorem length_loadAttempts (db : Database) (id : TaskID) :
    (db.loadAttempts id).length = (db.attemptsOf id).length :=
  List.length_insertionSort _ _

end Database

end Rdq.Postgres
