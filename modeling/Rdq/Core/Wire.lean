import Rdq.Core.StringMap
import Rdq.Foundation.Calendar
import Rdq.Foundation.JsonRecord

/-!
# The envelope codec

`core/envelope/codec.go` over `encoding/json`: the envelope with all of its data, the
fields of its JSON objects, and `Marshal` and `Unmarshal`. Fields that are present on
the wire but unknown here are kept with their text in a residual map, in the envelope
and in each attempt, and are written again behind the known fields.

## Implementation notes

Integers are machine integers, the status and the outcomes are the strings they are in
Go, raw JSON is bytes with none for nil, and times count nanoseconds from the zero
time. The wire mirror differs from the envelope in its time type only, so `toWire` and
`toEnvelope` are the identity. An encoder is given by how it writes times, strings and
raw values: the same tags stand on the envelope and on its mirror.
-/

namespace Rdq.Wire

open Foundation JsonText

/-- `envelope.Error`. -/
structure Error where
  type : String := ""
  message : String := ""
  detail : Bytes := []
  stack : String := ""
deriving DecidableEq

/-- `envelope.Attempt`. -/
structure Attempt where
  attemptNo : Int64 := 0
  startedAt : Time := zeroTime
  finishedAt : Option Time := none
  outcome : String := ""
  error : Option Error := none
  residual : StringMap Bytes := StringMap.empty
deriving DecidableEq

/-- `envelope.Envelope`. -/
structure Envelope where
  envelopeVersion : Int64 := 0
  id : String := ""
  queue : String := ""
  handlerRef : String := ""
  handlerVersion : String := ""
  payload : Option (List UInt8) := none
  payloadContentType : String := ""
  payloadRef : Option String := none
  headers : StringMap String := StringMap.empty
  status : String := ""
  attemptCount : Int64 := 0
  redriveCount : Int64 := 0
  nextAttemptAt : Option Time := none
  leaseExpiresAt : Option Time := none
  createdAt : Time := zeroTime
  attempts : List Attempt := []
  residual : StringMap Bytes := StringMap.empty
deriving DecidableEq

inductive MarshalError
  /-- `envelope: invalid residual value for` this key. -/
  | residual (key : String)
  /-- An error detail that is not JSON. -/
  | detail
  /-- `Time.MarshalJSON: year outside of range [0,9999]`. -/
  | year
deriving DecidableEq, Repr

/-! ## Maps -/

def readMap {α : Type} (c : Reader α) : Cst → StringMap α → Option (StringMap α)
  | .null, _ => some StringMap.empty
  | v, m => (Schema.fields? v).bind fun ms =>
    (ms.mapM fun x => (c.read x.2 c.zero).map fun y => (x.1, y)).map m.insertAll

/-- A map with string keys. Members are read into the map that is already there. -/
def mapReader {α : Type} (c : Reader α) : Reader (StringMap α) := ⟨StringMap.empty, readMap c⟩

/-- The entries in key order. -/
def writeMap {α : Type} (html : Bool) (write : α → Except MarshalError Cst) (m : StringMap α) :
    Except MarshalError Cst :=
  (m.entries.mapM fun x => (write x.2).map fun v => (x.1, v)).map (Schema.objectOf html)

/-! ## Encoders -/

/-- What differs between the encoders of an envelope. -/
structure Encoder where
  html : Bool
  /-- What happens to a raw value, once its whitespace is out. -/
  raw : Cst → Cst
  time : Time → Except MarshalError Cst

/-- `Time.MarshalJSON`: RFC 3339 in UTC with milliseconds. -/
def writeTime (t : Time) : Except MarshalError Cst := .ok (writeText (formatMillis t))

/-- `Time.UnmarshalJSON`: any precision is read. -/
def timeReader : Reader Time := textReader zeroTime parseRFC3339

/-- The canonical encoder, `marshalNoEscape`. -/
def canonical : Encoder := ⟨false, id, writeTime⟩

/-! ## The fields -/

inductive ErrorField
  | type
  | message
  | detail
  | stack
deriving DecidableEq

inductive AttemptField
  | attemptNo
  | startedAt
  | finishedAt
  | outcome
  | error
deriving DecidableEq

inductive EnvelopeField
  | envelopeVersion
  | id
  | queue
  | handlerRef
  | handlerVersion
  | payload
  | payloadContentType
  | payloadRef
  | headers
  | status
  | attemptCount
  | redriveCount
  | nextAttemptAt
  | leaseExpiresAt
  | createdAt
  | attempts
deriving DecidableEq

def ErrorField.Value : ErrorField → Type
  | detail => Bytes
  | _ => String

def ErrorField.name : ErrorField → String
  | type => "type"
  | message => "message"
  | detail => "detail"
  | stack => "stack"

/-- The struct `Error`. -/
@[reducible] def errorSchema : Schema ErrorField where
  order := [.type, .message, .detail, .stack]
  name := ErrorField.name
  Value := ErrorField.Value
  reader
    | .type | .message | .stack => stringReader
    | .detail => rawReader
  omitted
    | .detail => List.isEmpty (α := UInt8)
    | .stack => String.isEmpty
    | _ => fun _ => false
  complete := by
    intro i
    cases i <;> simp
  distinct := by simp [ErrorField.name]

def errorWriter (enc : Encoder) : (i : ErrorField) → i.Value → Except MarshalError Cst
  | .type | .message | .stack => writeString enc.html
  | .detail => writeRaw enc.raw .detail

def Error.fields (e : Error) : (i : ErrorField) → i.Value
  | .type => e.type
  | .message => e.message
  | .detail => e.detail
  | .stack => e.stack

def Error.ofFields (r : (i : ErrorField) → i.Value) : Error where
  type := r .type
  message := r .message
  detail := r .detail
  stack := r .stack

def errorReader (fold : Bool) : Reader Error :=
  ⟨{}, fun v e => (errorSchema.readStruct fold v e.fields).map Error.ofFields⟩

def writeError (enc : Encoder) (e : Error) : Except MarshalError Cst :=
  errorSchema.writeStruct enc.html (errorWriter enc) e.fields

def AttemptField.Value : AttemptField → Type
  | attemptNo => Int64
  | startedAt => Time
  | finishedAt => Option Time
  | outcome => String
  | error => Option Error

def AttemptField.name : AttemptField → String
  | attemptNo => "attempt_no"
  | startedAt => "started_at"
  | finishedAt => "finished_at"
  | outcome => "outcome"
  | error => "error"

/-- The struct `wireAttempt`. -/
@[reducible] def attemptSchema (fold : Bool) : Schema AttemptField where
  order := [.attemptNo, .startedAt, .finishedAt, .outcome, .error]
  name := AttemptField.name
  Value := AttemptField.Value
  reader
    | .attemptNo => intReader
    | .startedAt => timeReader
    | .finishedAt => pointerReader timeReader
    | .outcome => stringReader
    | .error => pointerReader (errorReader fold)
  omitted
    | .error => Option.isNone (α := Error)
    | _ => fun _ => false
  complete := by
    intro i
    cases i <;> simp
  distinct := by simp [AttemptField.name]

def attemptWriter (enc : Encoder) : (i : AttemptField) → i.Value → Except MarshalError Cst
  | .attemptNo => writeInt
  | .startedAt => enc.time
  | .finishedAt => writePointer enc.time
  | .outcome => writeString enc.html
  | .error => writePointer (writeError enc)

def Attempt.fields (a : Attempt) : (i : AttemptField) → i.Value
  | .attemptNo => a.attemptNo
  | .startedAt => a.startedAt
  | .finishedAt => a.finishedAt
  | .outcome => a.outcome
  | .error => a.error

def Attempt.ofFields (r : (i : AttemptField) → i.Value) (residual : StringMap Bytes) :
    Attempt where
  attemptNo := r .attemptNo
  startedAt := r .startedAt
  finishedAt := r .finishedAt
  outcome := r .outcome
  error := r .error
  residual := residual

def EnvelopeField.Value : EnvelopeField → Type
  | envelopeVersion | attemptCount | redriveCount => Int64
  | id | queue | handlerRef | handlerVersion | payloadContentType | status => String
  | payload => BackedBytes
  | payloadRef => Option String
  | headers => StringMap String
  | nextAttemptAt | leaseExpiresAt => Option Time
  | createdAt => Time
  | attempts => List Attempt

def EnvelopeField.name : EnvelopeField → String
  | envelopeVersion => "envelope_version"
  | id => "id"
  | queue => "queue"
  | handlerRef => "handler_ref"
  | handlerVersion => "handler_version"
  | payload => "payload"
  | payloadContentType => "payload_content_type"
  | payloadRef => "payload_ref"
  | headers => "headers"
  | status => "status"
  | attemptCount => "attempt_count"
  | redriveCount => "redrive_count"
  | nextAttemptAt => "next_attempt_at"
  | leaseExpiresAt => "lease_expires_at"
  | createdAt => "created_at"
  | attempts => "attempts"

/-- The struct `wireEnvelope`, given how its attempts are read. -/
@[reducible] def envelopeSchema (attempt : Reader Attempt) : Schema EnvelopeField where
  order := [.envelopeVersion, .id, .queue, .handlerRef, .handlerVersion, .payload,
    .payloadContentType, .payloadRef, .headers, .status, .attemptCount, .redriveCount,
    .nextAttemptAt, .leaseExpiresAt, .createdAt, .attempts]
  name := EnvelopeField.name
  Value := EnvelopeField.Value
  reader
    | .envelopeVersion | .attemptCount | .redriveCount => intReader
    | .id | .queue | .handlerRef | .handlerVersion | .payloadContentType | .status => stringReader
    | .payload => bytesReader
    | .payloadRef => pointerReader stringReader
    | .headers => mapReader stringReader
    | .nextAttemptAt | .leaseExpiresAt => pointerReader timeReader
    | .createdAt => timeReader
    | .attempts => sliceReader attempt
  omitted
    | .handlerVersion => String.isEmpty
    | .payloadRef => Option.isNone (α := String)
    | .headers => StringMap.isEmpty (α := String)
    | .attempts => List.isEmpty (α := Attempt)
    | _ => fun _ => false
  complete := by
    intro i
    cases i <;> simp
  distinct := by simp [EnvelopeField.name]

/-- The fields of an envelope as an encoder writes them, given how it writes attempts. -/
def envelopeWriter (enc : Encoder) (attempt : Attempt → Except MarshalError Cst) :
    (i : EnvelopeField) → i.Value → Except MarshalError Cst
  | .envelopeVersion | .attemptCount | .redriveCount => writeInt
  | .id | .queue | .handlerRef | .handlerVersion | .payloadContentType | .status =>
    writeString enc.html
  | .payload => fun x => writeBytes x.bytes
  | .payloadRef => writePointer (writeString enc.html)
  | .headers => writeMap enc.html (writeString enc.html)
  | .nextAttemptAt | .leaseExpiresAt => writePointer enc.time
  | .createdAt => enc.time
  | .attempts => writeSlice attempt

def Envelope.fields (e : Envelope) : (i : EnvelopeField) → i.Value
  | .envelopeVersion => e.envelopeVersion
  | .id => e.id
  | .queue => e.queue
  | .handlerRef => e.handlerRef
  | .handlerVersion => e.handlerVersion
  | .payload => { bytes := e.payload }
  | .payloadContentType => e.payloadContentType
  | .payloadRef => e.payloadRef
  | .headers => e.headers
  | .status => e.status
  | .attemptCount => e.attemptCount
  | .redriveCount => e.redriveCount
  | .nextAttemptAt => e.nextAttemptAt
  | .leaseExpiresAt => e.leaseExpiresAt
  | .createdAt => e.createdAt
  | .attempts => e.attempts

def Envelope.ofFields (r : (i : EnvelopeField) → i.Value) (residual : StringMap Bytes) :
    Envelope where
  envelopeVersion := r .envelopeVersion
  id := r .id
  queue := r .queue
  handlerRef := r .handlerRef
  handlerVersion := r .handlerVersion
  payload := (r .payload).bytes
  payloadContentType := r .payloadContentType
  payloadRef := r .payloadRef
  headers := r .headers
  status := r .status
  attemptCount := r .attemptCount
  redriveCount := r .redriveCount
  nextAttemptAt := r .nextAttemptAt
  leaseExpiresAt := r .leaseExpiresAt
  createdAt := r .createdAt
  attempts := r .attempts
  residual := residual

/-! ## Unknown fields -/

/-- The members whose keys are not names of fields, with their text. Later members replace
earlier ones of the same key. -/
def captureResidual (known : String → Bool) (v : Cst) : Option (StringMap Bytes) :=
  (readMap rawReader v StringMap.empty).map fun all =>
    all.select fun key => !known key

def residualPair (entry : String × Bytes) : Except MarshalError Bytes :=
  match compact entry.2 with
  | some text => .ok (strText (quote false entry.1) ++ ascii ':' :: text)
  | none => .error (.residual entry.1)

/-- The pairs with commas between them, and in front unless the first pair is the first
of its object. -/
def joinPairs : Bool → List Bytes → Bytes
  | _, [] => []
  | first, pair :: pairs => (if first then pair else ascii ',' :: pair) ++ joinPairs false pairs

/-- The unknown fields, in key order, in front of the closing brace of `known`. -/
def appendResidual (known : Bytes) (residual : StringMap Bytes) : Except MarshalError Bytes :=
  if residual.entries = [] then .ok known
  else do
    let pairs ← residual.entries.mapM residualPair
    return known.dropLast ++ (joinPairs (decide (known.length = 2)) pairs ++ [ascii '\x7d'])

/-- What the encoder makes of the result of a `MarshalJSON`. -/
def embedResult (text : Except MarshalError Bytes) : Except MarshalError Cst :=
  text.bind fun text =>
    match embed id text with
    | some v => .ok v
    | none => .error .detail

/-! ## Marshal and Unmarshal -/

/-- `wireAttempt.MarshalJSON`. -/
def Attempt.marshalJSON (a : Attempt) : Except MarshalError Bytes := do
  let known ← (attemptSchema true).members (attemptWriter canonical) a.fields
  appendResidual (Schema.objectOf false known).text a.residual

/-- `wireAttempt.UnmarshalJSON`; `Unmarshal` folds letter case. -/
def Attempt.unmarshalJSON (fold : Bool) (v : Cst) : Option Attempt := do
  let r ← (attemptSchema fold).readStruct fold v (attemptSchema fold).zero
  let residual ← captureResidual (attemptSchema fold).known v
  return Attempt.ofFields r residual

/-- An attempt, which is read as a whole. -/
def attemptReader (fold : Bool) : Reader Attempt := ⟨{}, fun v _ => Attempt.unmarshalJSON fold v⟩

def writeAttempt (a : Attempt) : Except MarshalError Cst := embedResult a.marshalJSON

/-- The struct `wireEnvelope` with attempts that read themselves. -/
@[reducible] def wireSchema (fold : Bool) : Schema EnvelopeField :=
  envelopeSchema (attemptReader fold)

/-- `wireEnvelope.MarshalJSON`. -/
def Envelope.marshalJSON (e : Envelope) : Except MarshalError Bytes := do
  let known ← (wireSchema true).members (envelopeWriter canonical writeAttempt) e.fields
  appendResidual (Schema.objectOf false known).text e.residual

/-- `wireEnvelope.UnmarshalJSON`. -/
def Envelope.unmarshalJSON (fold : Bool) (v : Cst) : Option Envelope := do
  let r ← (wireSchema fold).readStruct fold v (wireSchema fold).zero
  let residual ← captureResidual (wireSchema fold).known v
  return Envelope.ofFields r residual

/-- `Marshal`. -/
def marshal (e : Envelope) : Except MarshalError Bytes :=
  (embedResult e.marshalJSON).map Cst.text

/-- Decoding, with the match of keys up to letter case or without it. -/
def decode (fold : Bool) (data : Bytes) : Option Envelope :=
  (parse data).bind fun d => Envelope.unmarshalJSON fold d.value

/-- `Unmarshal`. -/
def unmarshal (data : Bytes) : Option Envelope := decode true data

end Rdq.Wire
