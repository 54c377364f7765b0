import Rdq.Core.WirePlain
import Rdq.Postgres.Schema

/-!
# Envelopes in rows, byte by byte

`storage/postgres/mapping.go`: an envelope is taken apart into a row of a task table and
one row of `rdq_attempt` for each attempt, and put together again. Headers and unknown
fields are JSON columns that `json.Marshal` writes and `json.Unmarshal` reads; all other
columns hold their values as they are. `json.Marshal` escapes the characters of HTML, in
raw values too, so an unknown value comes back with its escapes, and the canonical bytes
of the envelope show them.

## Implementation notes

The module is about the mapping functions alone, which the source documents as inverse to
each other up to the canonical bytes. The JSON columns return the bytes that were written:
what `jsonb` makes of them, and the constraints of the tables, lie outside. A nil map is an
empty one, a nil detail an empty one. `claim_token` and the columns of `rdq_dlq_task` that
no envelope has are not part of the rows here.
-/

namespace Rdq.Postgres.Rows

open Foundation JsonText
open Wire (MarshalError ValuesValid compactValues passRaw mapReader writeMap marshal unmarshal)

/-- The columns of an envelope in `rdq_task` and `rdq_dlq_task`. -/
structure TaskRow where
  id : String
  queue : String
  envelopeVersion : Int64
  handlerRef : String
  handlerVersion : Option String
  payload : Option (List UInt8)
  payloadContentType : String
  payloadRef : Option String
  headers : Bytes
  status : String
  attemptCount : Int64
  redriveCount : Int64
  nextAttemptAt : Option Time
  leaseExpiresAt : Option Time
  createdAt : Time
  residual : Bytes

/-- A row of `rdq_attempt`. -/
structure AttemptRow where
  taskId : String
  attemptNo : Int64
  startedAt : Time
  finishedAt : Option Time
  outcome : String
  errorType : Option String
  errorMessage : Option String
  errorDetail : Bytes
  errorStack : Option String
  residual : Bytes

inductive RowError
  /-- `rdq/postgres: encoding headers`. -/
  | encodingHeaders
  /-- `rdq/postgres: encoding residual`. -/
  | encodingResidual
  /-- `rdq/postgres: encoding attempt residual`, with the number of the attempt. -/
  | encodingAttempt (attemptNo : Int64)
  /-- `rdq/postgres: decoding headers`. -/
  | decodingHeaders
  /-- `rdq/postgres: decoding residual`. -/
  | decodingResidual
  /-- `rdq/postgres: decoding attempt residual`, with the number of the attempt. -/
  | decodingAttempt (attemptNo : Int64)
deriving DecidableEq, Repr

/-! ## The JSON columns -/

/-- The text of an object without members. -/
def emptyObject : Bytes := [ascii '\x7b', ascii '\x7d']

def encodeStringMap (m : StringMap String) : Except MarshalError Bytes :=
  if m.isEmpty then .ok emptyObject else (writeMap true (writeString true) m).map Cst.text

def decodeStringMap (b : Bytes) : Option (StringMap String) :=
  if b = [] then some StringMap.empty
  else (parse b).bind fun d => (mapReader stringReader).read d.value StringMap.empty

def encodeResidual (r : StringMap Bytes) : Except MarshalError Bytes :=
  if r.isEmpty then .ok emptyObject
  else (writeMap true (writeRaw Cst.html MarshalError.detail) r).map Cst.text

def decodeResidual (b : Bytes) : Option (StringMap Bytes) :=
  if b = [] then some StringMap.empty
  else (parse b).bind fun d => (mapReader rawReader).read d.value StringMap.empty

/-! ## The rows -/

/-- A result under the error of its step. -/
def orFail {α ε : Type} (e : RowError) : Except ε α → Except RowError α
  | .ok x => .ok x
  | .error _ => .error e

def taskRowFromEnvelope (e : Wire.Envelope) : Except RowError TaskRow := do
  let headers ← orFail .encodingHeaders (encodeStringMap e.headers)
  let residual ← orFail .encodingResidual (encodeResidual e.residual)
  return {
    id := e.id
    queue := e.queue
    envelopeVersion := e.envelopeVersion
    handlerRef := e.handlerRef
    handlerVersion := emptyToNil e.handlerVersion
    payload := e.payload
    payloadContentType := e.payloadContentType
    payloadRef := e.payloadRef
    headers := headers
    status := e.status
    attemptCount := e.attemptCount
    redriveCount := e.redriveCount
    nextAttemptAt := e.nextAttemptAt
    leaseExpiresAt := e.leaseExpiresAt
    createdAt := e.createdAt
    residual := residual }

/-- One turn of the loop of `attemptRowsFromEnvelope`. -/
def attemptRow (taskId : String) (a : Wire.Attempt) : Except RowError AttemptRow := do
  let residual ← orFail (.encodingAttempt a.attemptNo) (encodeResidual a.residual)
  return {
    taskId := taskId
    attemptNo := a.attemptNo
    startedAt := a.startedAt
    finishedAt := a.finishedAt
    outcome := a.outcome
    errorType := a.error.map Wire.Error.type
    errorMessage := a.error.map Wire.Error.message
    errorDetail := a.error.elim [] Wire.Error.detail
    errorStack := a.error.bind fun e => emptyToNil e.stack
    residual := residual }

def attemptRowsFromEnvelope (e : Wire.Envelope) : Except RowError (List AttemptRow) :=
  e.attempts.mapM (attemptRow e.id)

def attemptFromRow (r : AttemptRow) : Except RowError Wire.Attempt :=
  match decodeResidual r.residual with
  | none => .error (.decodingAttempt r.attemptNo)
  | some residual =>
    .ok {
      attemptNo := r.attemptNo
      startedAt := r.startedAt
      finishedAt := r.finishedAt
      outcome := r.outcome
      error := r.errorType.map fun type =>
        { type := type
          message := nilToEmpty r.errorMessage
          detail := r.errorDetail
          stack := nilToEmpty r.errorStack }
      residual := residual }

def envelopeFromRows (t : TaskRow) (attempts : List AttemptRow) : Except RowError Wire.Envelope :=
  match decodeStringMap t.headers with
  | none => .error .decodingHeaders
  | some headers =>
    match decodeResidual t.residual with
    | none => .error .decodingResidual
    | some residual => do
      let attempts ← attempts.mapM attemptFromRow
      return {
        envelopeVersion := t.envelopeVersion
        id := t.id
        queue := t.queue
        handlerRef := t.handlerRef
        handlerVersion := nilToEmpty t.handlerVersion
        payload := t.payload
        payloadContentType := t.payloadContentType
        payloadRef := t.payloadRef
        headers := headers
        status := t.status
        attemptCount := t.attemptCount
        redriveCount := t.redriveCount
        nextAttemptAt := t.nextAttemptAt
        leaseExpiresAt := t.leaseExpiresAt
        createdAt := t.createdAt
        attempts := attempts
        residual := residual }

/-- Unknown fields as the column returns them: without whitespace, and with escapes. -/
def escapedValues (m : StringMap Bytes) : StringMap Bytes := m.mapValues (passRaw Cst.html)

def storedAttempt (a : Wire.Attempt) : Wire.Attempt :=
  { a with residual := escapedValues a.residual }

/-- The envelope as the rows return it. -/
def stored (e : Wire.Envelope) : Wire.Envelope :=
  { e with attempts := e.attempts.map storedAttempt, residual := escapedValues e.residual }

variable {e : Wire.Envelope} {m : StringMap Bytes}

end Rdq.Postgres.Rows
