import Rdq.Postgres.SnapshotGet
import Rdq.Sdk.Submit
import Rdq.Server.Audit

/-!
# Storing a submitted task

The columns of `rdq_task` with their constraints, the enqueue of an envelope that
`Submit` returned, and the `buildEnvelope` and `enqueueAndGet` of
`server/http/tasks.go`.

## Implementation notes

A nil byte slice is bound as NULL. The ranges of the column types are not constraints of
the table and are left out.
-/

namespace Rdq.Postgres

open Sdk (submit submit_ok System SubmitOption)

/-! ## The constraints of rdq_task -/

inductive TaskColumn
  | id | queue | envelopeVersion | handlerRef | handlerVersion | payload | payloadContentType
  | payloadRef | headers | status | attemptCount | redriveCount | nextAttemptAt | leaseExpiresAt
  | claimToken | createdAt | residual
deriving DecidableEq, Repr

/-- The columns declared `NOT NULL`, the primary key among them. -/
def TaskColumn.notNull : TaskColumn → Bool
  | .handlerVersion | .payloadRef | .nextAttemptAt | .leaseExpiresAt | .claimToken => false
  | _ => true

/-- `CHECK (status IN ('PENDING', 'IN_FLIGHT', 'SUCCEEDED'))`. -/
def liveStatuses : List Status := [.pending, .inFlight, .succeeded]

namespace TaskRow

/-- Whether the row binds NULL for a column. The two JSON columns always bind an object. -/
def isNull (r : TaskRow) : TaskColumn → Bool
  | .handlerVersion => r.handlerVersion.isNone
  | .payload => r.payload.isNone
  | .payloadRef => r.payloadRef.isNone
  | .nextAttemptAt => r.nextAttemptAt.isNone
  | .leaseExpiresAt => r.leaseExpiresAt.isNone
  | .claimToken => r.claimToken.isNone
  | _ => false

/-- Every `NOT NULL` and `CHECK` constraint of the table holds for the row. -/
structure Satisfies (r : TaskRow) : Prop where
  present : ∀ c : TaskColumn, c.notNull = true → r.isNull c = false
  checked : r.status ∈ liveStatuses

/-- Of all the constraints only those on the payload and the status can be broken. -/
theorem satisfies_iff_storable {r : TaskRow} : r.Satisfies ↔ r.Storable := by
  have hstatus : r.status ∈ liveStatuses ↔ r.status ≠ .dead := by
    cases r.status <;> decide
  constructor
  · intro h
    refine ⟨?_, hstatus.mp h.checked⟩
    have hpayload : r.payload.isNone = false := h.present .payload rfl
    intro hnone
    rw [hnone] at hpayload
    cases hpayload
  · intro h
    refine ⟨?_, hstatus.mpr h.2⟩
    intro c hc
    cases c with
    | payload => exact Option.isNone_eq_false_iff.mpr (Option.isSome_iff_ne_none.mpr h.1)
    | handlerVersion => cases hc
    | payloadRef => cases hc
    | nextAttemptAt => cases hc
    | leaseExpiresAt => cases hc
    | claimToken => cases hc
    | _ => rfl

end TaskRow

/-! ## What Submit returns -/

variable {sys : System} {queue handlerRef : String} {payload : Option (List UInt8)}
  {opts : List SubmitOption} {e : Envelope}

theorem storable_submitted (h : submit sys queue handlerRef payload opts = .ok e) :
    (taskRowFromEnvelope e).Storable ↔ payload ≠ none := by
  obtain ⟨-, -, -, -, -, hpayload, hshape⟩ := submit_ok h
  have hstatus : (taskRowFromEnvelope e).status ≠ .dead := by
    simp only [taskRowFromEnvelope, hshape.pending]
    decide
  rw [← hpayload]
  exact and_iff_left hstatus

/-- An envelope of `Submit` brings no attempts, so its row alone decides the enqueue. -/
theorem enqueue_submitted (h : submit sys queue handlerRef payload opts = .ok e)
    {db : Database} (hfresh : db.lookupQueue e.id = none) :
    db.enqueue e =
      if (taskRowFromEnvelope e).Storable then
        ({ db with task := db.task.insertNew (taskRowFromEnvelope e) }, .ok ())
      else (db, .error (.checkViolation "rdq/postgres: Enqueue insert")) := by
  obtain ⟨-, -, -, -, -, -, hshape⟩ := submit_ok h
  have hrows : attemptRowsFromEnvelope e = [] := by
    simp only [attemptRowsFromEnvelope, hshape.no_attempts, List.map_nil]
  simp only [Database.enqueue, hfresh, hrows, List.foldlM_nil, Option.pure_def]

/-- What `Submit` returns satisfies the constraints, and is stored under a fresh id,
exactly when the payload is not nil. -/
theorem submitted_stored_iff (h : submit sys queue handlerRef payload opts = .ok e)
    (db : Database) (hfresh : db.lookupQueue e.id = none) :
    ((taskRowFromEnvelope e).Satisfies ∧ (db.enqueue e).2 = .ok ()) ↔ payload ≠ none := by
  rw [TaskRow.satisfies_iff_storable, ← storable_submitted h]
  constructor
  · intro hboth
    exact hboth.1
  · intro hstorable
    rw [enqueue_submitted h hfresh, if_pos hstorable]
    exact ⟨hstorable, rfl⟩

/-- A call by idempotency key on a system with a constant hash. -/
def keyedSubmit (payload : Option (List UInt8)) : Except Sdk.SubmitError Envelope :=
  submit ⟨0, .ok fun _ => 0, fun _ _ => 0⟩ "q" "h" payload [.withIdempotencyKey [107]]

theorem submitted_stored_empty :
    ∃ e, keyedSubmit (some []) = .ok e ∧ Database.new.lookupQueue e.id = none ∧
      ((taskRowFromEnvelope e).Satisfies ∧ (Database.new.enqueue e).2 = .ok ()) :=
  have hsubmit : keyedSubmit (some []) = .ok _ := rfl
  ⟨_, hsubmit, rfl, (submitted_stored_iff hsubmit Database.new rfl).mpr (Option.some_ne_none _)⟩

/-- A nil payload is accepted and then refused by the table. -/
theorem nil_payload_refused :
    ∃ e, keyedSubmit none = .ok e ∧ Database.new.lookupQueue e.id = none ∧
      (taskRowFromEnvelope e).isNull .payload = true ∧ TaskColumn.payload.notNull = true ∧
      (Database.new.enqueue e).2 = .error (.checkViolation "rdq/postgres: Enqueue insert") :=
  ⟨_, rfl, rfl, rfl, rfl, rfl⟩

end Rdq.Postgres

namespace Rdq.Server

open Foundation (KeyedTable)
open Postgres (Database Tables taskRowFromEnvelope storable_submitted enqueue_submitted)
open Sdk (submit System SubmitOption SubmitError)
open Audit (ApiAnswer)

/-! ## The submit request -/

/-- `submitTaskRequest`; a payload that is left out or null is none. -/
structure SubmitTaskRequest where
  id : List UInt8 := []
  handlerRef : String := ""
  payload : Option (List UInt8) := none
  payloadContentType : String := ""
  headers : StringMap String := StringMap.empty

def headerTraceparent : String := "traceparent"

/-- `isHex`: exactly `n` lowercase hexadecimal digits. -/
def isHex (s : List Char) (n : Nat) : Bool :=
  s.length == n && s.all fun c => c.isDigit || ('a' ≤ c && c ≤ 'f')

def isAllZero (s : List Char) : Bool := s.all (· == '0')

/-- The trace and span ids of a `traceparent` header. -/
def parseTraceparent (tp : String) : Option (List Char × List Char) :=
  match tp.toList.splitOn '-' with
  | [version, tid, sid, flags] =>
    if !isHex version 2 || !isHex tid 32 || !isHex sid 16 || !isHex flags 2 then none
    else if isAllZero tid || isAllZero sid then none
    else some (tid, sid)
  | _ => none

def mergeTraceparent (headers : StringMap String) (reqTraceparent : String) : StringMap String :=
  if headers.entries.any (·.1 == headerTraceparent) then headers
  else if reqTraceparent = "" then headers
  else if (parseTraceparent reqTraceparent).isNone then headers
  else headers.insert headerTraceparent reqTraceparent

/-- The options of the call, in their order. -/
def submitOptions (req : SubmitTaskRequest) (reqTraceparent : String) : List SubmitOption :=
  let headers := mergeTraceparent req.headers reqTraceparent
  (if req.id ≠ [] then [.withID req.id] else []) ++
    [.withContentType req.payloadContentType] ++
    (if headers.isEmpty then [] else [.withHeaders headers])

/-- `buildEnvelope`; `text` prints the errors of `Submit`. -/
def buildEnvelope (sys : System) (text : SubmitError → String) (maxPayloadBytes : Int)
    (queue : String) (req : SubmitTaskRequest) (reqTraceparent : String) :
    Except ApiAnswer Envelope :=
  if req.payloadContentType = "" then .error ⟨422, "payload_content_type is required"⟩
  else if maxPayloadBytes < ((req.payload.getD []).length : Int) then .error ⟨413, ""⟩
  else
    (submit sys queue req.handlerRef req.payload (submitOptions req reqTraceparent)).mapError
      fun err => ⟨422, text err⟩

/-- `enqueueAndGet` for a store on its Postgres tables: the status of the answer. -/
def enqueueStatus (db : Database) (env : Envelope) : Nat :=
  match (db.enqueue env).2 with
  | .error .idConflict => 409
  | .error _ => 500
  | .ok () =>
    match Postgres.get (db.enqueue env).1 (db.enqueue env).1 env.id with
    | .error _ => 500
    | .ok _ => 202

variable {sys : System} {text : SubmitError → String} {maxPayloadBytes : Int} {queue : String}
  {req : SubmitTaskRequest} {reqTraceparent : String} {e : Envelope}

theorem buildEnvelope_ok
    (h : buildEnvelope sys text maxPayloadBytes queue req reqTraceparent = .ok e) :
    submit sys queue req.handlerRef req.payload (submitOptions req reqTraceparent) = .ok e := by
  obtain ⟨-, h⟩ := Foundation.check_eq_ok.mp h
  obtain ⟨-, h⟩ := Foundation.check_eq_ok.mp h
  exact Foundation.mapError_eq_ok.mp h

/-- A request that passes every check of the server is stored, unless it has no payload:
then it ends as a server error. -/
theorem enqueueStatus_buildEnvelope
    (h : buildEnvelope sys text maxPayloadBytes queue req reqTraceparent = .ok e)
    {db : Database} (hfresh : db.lookupQueue e.id = none) :
    enqueueStatus db e = if req.payload = none then 500 else 202 := by
  have hsubmit := buildEnvelope_ok h
  have hstorable := storable_submitted hsubmit
  have henqueue := enqueue_submitted hsubmit hfresh
  by_cases hpayload : req.payload = none
  · rw [if_neg fun hyes => hstorable.mp hyes hpayload] at henqueue
    simp only [enqueueStatus, henqueue, if_pos hpayload]
  · rw [if_pos (hstorable.mpr hpayload)] at henqueue
    have hfind : (db.task.insertNew (taskRowFromEnvelope e)).find? e.id =
        some (taskRowFromEnvelope e) :=
      KeyedTable.find?_insertNew_self (Tables.lookupQueue_eq_none_iff.mp hfresh).1
    simp only [enqueueStatus, henqueue, Postgres.get, Tables.taskRow?, hfind, if_neg hpayload]

end Rdq.Server
