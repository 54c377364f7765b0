import Rdq.Server.DlqList
import Rdq.Server.GetTask

/-!
# The body of a listing

The `dlqListResponse` that `handleDLQList` sends, and what a client reads that decodes
it into a struct with the same tags.

## Implementation notes

Times are written in UTC. Counters are Go integers of 64 bits.
-/

namespace Rdq.Server

open Foundation Foundation.JsonText
open Wire (MarshalError writePlain plainReader back_plainReader sendable_of_writePlain)

/-! ## Envelopes on the wire -/

def statusText : Status → String
  | .pending => "PENDING"
  | .inFlight => "IN_FLIGHT"
  | .succeeded => "SUCCEEDED"
  | .dead => "DEAD"

def outcomeText : Outcome → String
  | .success => "SUCCESS"
  | .retryableFailure => "RETRYABLE_FAILURE"
  | .permanentFailure => "PERMANENT_FAILURE"
  | .leaseExpired => "LEASE_EXPIRED"

def wireError (e : TaskError) : Wire.Error where
  type := e.type
  message := e.message
  detail := (e.detail.map bytesOf).getD []
  stack := e.stack

def wireAttempt (a : Attempt) : Wire.Attempt where
  attemptNo := Int64.ofInt a.attemptNo
  startedAt := a.startedAt
  finishedAt := a.finishedAt
  outcome := outcomeText a.outcome
  error := a.error.map wireError
  residual := a.residual.mapValues bytesOf

/-- The envelope with the data types of the wire. -/
def wireEnvelope (e : Envelope) : Wire.Envelope where
  envelopeVersion := Int64.ofInt e.envelopeVersion
  id := e.id
  queue := e.queue
  handlerRef := e.handlerRef
  handlerVersion := e.handlerVersion
  payload := e.payload
  payloadContentType := e.payloadContentType
  payloadRef := e.payloadRef
  headers := e.headers
  status := statusText e.status
  attemptCount := Int64.ofInt e.attemptCount
  redriveCount := Int64.ofInt e.redriveCount
  nextAttemptAt := e.nextAttemptAt
  leaseExpiresAt := e.leaseExpiresAt
  createdAt := e.createdAt
  attempts := e.attempts.map wireAttempt
  residual := e.residual.mapValues bytesOf

/-! ## The response -/

inductive ListField
  | tasks
  | nextCursor
deriving DecidableEq

def ListField.Value : ListField → Type
  | tasks => List Wire.Envelope
  | nextCursor => String

def ListField.name : ListField → String
  | tasks => "tasks"
  | nextCursor => "next_cursor"

/-- The struct `dlqListResponse`. -/
@[reducible] def listSchema : Schema ListField where
  order := [.tasks, .nextCursor]
  name := ListField.name
  Value := ListField.Value
  reader
    | .tasks => sliceReader plainReader
    | .nextCursor => stringReader
  omitted
    | .nextCursor => String.isEmpty
    | .tasks => fun _ => false
  complete := by
    intro i
    cases i <;> simp
  distinct := by simp [ListField.name]

/-- The tasks are never nil, so no page is null. -/
def listWriter : (i : ListField) → i.Value → Except MarshalError Cst
  | .tasks => fun tasks => (tasks.mapM writePlain).map Cst.array
  | .nextCursor => writeString true

def listRecord (tasks : List Wire.Envelope) (next : String) : (i : ListField) → i.Value
  | .tasks => tasks
  | .nextCursor => next

def listBody (tasks : List Wire.Envelope) (next : String) : Bytes :=
  writeJSON (listSchema.writeStruct true listWriter (listRecord tasks next))

/-- What `json.NewDecoder(body).Decode` makes of a body. -/
def readList (body : Bytes) : Option (List Wire.Envelope × String) :=
  (firstValue body).bind fun v =>
    (listSchema.readStruct true v listSchema.zero).map fun r => (r .tasks, r .nextCursor)

theorem back_tasks {tasks : List Wire.Envelope} (h : ∀ e ∈ tasks, e.Sendable) :
    (sliceReader plainReader).Back ((tasks.mapM writePlain).map Cst.array)
      (some (tasks.map Wire.Envelope.sent)) := by
  obtain ⟨vs, hvs, hstrips, hreads⟩ := mapM_write fun e he => back_plainReader (h e he)
  refine ⟨Cst.array vs, congrArg (Except.map Cst.array) hvs, ?_, ?_⟩
  · rw [Cst.strip_array, List.map_congr_left hstrips, List.map_id']
  · exact (readSlice_array plainReader vs _).trans (hreads.trans List.mapM_pure)

/-- A page whose tasks can be written arrives. -/
theorem readList_listBody {tasks : List Wire.Envelope} (h : ∀ e ∈ tasks, e.Sendable)
    (next : String) :
    readList (listBody tasks next) = some (tasks.map Wire.Envelope.sent, next) := by
  have hfields : ∀ i, listSchema.FieldBack listWriter (listRecord tasks next) i
      (some (listRecord (tasks.map Wire.Envelope.sent) next i)) := by
    intro i
    cases i with
    | tasks => exact listSchema.fieldBack_of_written rfl (back_tasks h)
    | nextCursor =>
      exact listSchema.fieldBack_of_back (fun homit => String.isEmpty_iff.mp homit)
        (back_string true next)
  obtain ⟨v, hv, -, hread⟩ := listSchema.back_struct hfields true true
  rw [listSchema.collect_order fun _ => rfl] at hread
  obtain ⟨d, hd, hvalue⟩ := parse_line v
  have hfirst : firstValue (v.text ++ [ascii '\n']) = some v := by
    rw [firstValue_of_parse hd, hvalue]
  rw [readList, listBody, hv, writeJSON, hfirst, Option.bind_some]
  change ((listSchema.structReader true).read v (listSchema.structReader true).zero).map _ = _
  rw [hread]
  rfl

/-- A page with another task is not sent. -/
theorem readList_listBody_eq_none {tasks : List Wire.Envelope} (h : ¬∀ e ∈ tasks, e.Sendable)
    (next : String) : readList (listBody tasks next) = none := by
  cases hwrite : listSchema.writeStruct true listWriter (listRecord tasks next) with
  | ok v =>
    obtain ⟨u, hu⟩ := listSchema.written_of_writeStruct hwrite (i := .tasks) rfl
    obtain ⟨vs, hvs, -⟩ := map_eq_ok.mp hu
    refine absurd ?_ h
    intro e he
    obtain ⟨w, hw⟩ := mapM_ok_of_mem hvs he
    exact sendable_of_writePlain hw
  | error err =>
    rw [readList, listBody, hwrite]
    rfl

end Rdq.Server
