import Rdq.Foundation.GoJson
import Rdq.MemStore.DlqList
import Rdq.Postgres.Store

/-!
# Redrive and purge over HTTP

The handlers of `POST /queues/{queue}/dlq:redrive` and `dlq:purge`
(`server/http/dlq.go`) over the two backends of the repository, and the filter
that `GET /queues/{queue}/dlq` makes of its query parameters.

## Implementation notes

A body is the JSON value it starts with, if any. The memstore lacks
`FilterPushdown`, so the handler reads the ids of a filter from the listing and
acts on these; its cursors never go stale, hence the branch `dlq scan: …` is not
reached. No other call comes between the pages and the action. How times are
read and how errors of libraries are worded are parameters. The audit records
have no influence on the answer and are left out.
-/

namespace Rdq.Server

open Rdq.Foundation.GoJson

/-- What the handlers take from the libraries. -/
structure Runtime where
  /-- `time.Time.UnmarshalJSON` on the text of a JSON string. -/
  unmarshalTime : String → Option Time
  /-- `time.Parse(time.RFC3339, ·)`. -/
  parseRFC3339 : String → Option Time
  decodeErrorText : DecodeError → String
  storageErrorText : StorageError → String

/-! ## Answers -/

inductive ProblemCode
  | invalidTask
  | storageUnavailable
  | internal
deriving DecidableEq, Repr

inductive Response
  | count (n : Nat)
  | problem (code : ProblemCode) (detail : String)
deriving DecidableEq, Repr

def Response.status : Response → Nat
  | .count _ => 200
  | .problem .invalidTask _ => 422
  | .problem .internal _ => 500
  | .problem .storageUnavailable _ => 503

/-! ## Reading a filter -/

/-- The body of both requests. -/
structure SelectorRequest where
  ids : StringSlice := {}
  filter : Option DLQFilter := none
deriving DecidableEq, Repr

/-- The fields of a selector over those of a filter. -/
def selectorFields (strict : Bool) (filterFields : List (JsonField DLQFilter)) :
    List (JsonField SelectorRequest) :=
  [stringsField "ids" SelectorRequest.ids fun ids req => { req with ids := ids },
    structField "filter" strict filterFields {} SelectorRequest.filter
      fun f req => { req with filter := f }]

/-- `Decode` into an empty selector. -/
def decodeSelector (strict : Bool) (filterFields : List (JsonField DLQFilter))
    (body : Option Json) :
    Except DecodeError SelectorRequest :=
  match body with
  | none => .error .malformed
  | some json => decodeStruct false (selectorFields strict filterFields) {} json

def errorTypeField : JsonField DLQFilter :=
  stringField "error_type" fun x f => { f with errorType := x }

def handlerRefField : JsonField DLQFilter :=
  stringField "handler_ref" fun x f => { f with handlerRef := x }

namespace Runtime
variable (rt : Runtime)

/-- The fields of `spi.DLQFilter` under their tags. -/
def filterFields : List (JsonField DLQFilter) :=
  [errorTypeField,
    handlerRefField,
    parsedField "dead_lettered_after" rt.unmarshalTime
      fun t f => { f with deadLetteredAfter := t },
    parsedField "dead_lettered_before" rt.unmarshalTime
      fun t f => { f with deadLetteredBefore := t },
    boolField "include_attempts" fun b f => { f with includeAttempts := b }]

/-- The selector the server reads from a body; unknown fields are skipped. -/
def readSelector (body : Option Json) : Except DecodeError SelectorRequest :=
  decodeSelector false rt.filterFields body

/-- A time parameter of the listing; the empty one is absent. -/
def timeParam (name value : String) : Except String (Option Time) :=
  if value = "" then .ok none
  else
    match rt.parseRFC3339 value with
    | some t => .ok (some t)
    | none => .error (name ++ ": must be RFC3339 time")

/-- The filter `handleDLQList` makes of its query, or the detail of its problem. -/
def listFilter (errorType handlerRef fromParam toParam : String) : Except String DLQFilter := do
  let after ← rt.timeParam "from" fromParam
  let before ← rt.timeParam "to" toParam
  return {
    errorType := errorType
    handlerRef := handlerRef
    deadLetteredAfter := after
    deadLetteredBefore := before }

end Runtime

/-! ## The backends -/

inductive Backend
  | memstore (s : MemStore.Store)
  | postgres (db : Postgres.Database)

inductive Action
  | redrive
  | purge
deriving DecidableEq, Repr

namespace Backend

/-- `Redrive` or `Purge` at a reading of the backend's clock. -/
def perform (action : Action) (queue : String) (sel : Selector) (now : Time) :
    Backend → Backend × Except StorageError Nat
  | .memstore s =>
    match action with
    | .redrive => (s.redrive queue sel now).map .memstore .ok
    | .purge => (s.purge queue sel).map .memstore .ok
  | .postgres db =>
    match action with
    | .redrive => (db.redrive queue sel now).map .postgres id
    | .purge => (db.purge queue sel).map .postgres .ok

/-- The selector a request is carried out with. Without `FilterPushdown`, which only
the database has, a filter is resolved to ids first. -/
def selector (queue : String) (req : SelectorRequest) : Backend → Selector
  | .memstore s =>
    match req.filter with
    | some f => { ids := s.collectByFilter queue f }
    | none => { ids := req.ids.elems }
  | .postgres _ => { ids := req.ids.elems, filter := req.filter }

end Backend

/-- `handleDLQMutate`. -/
def handleDLQMutate (rt : Runtime) (storage : Option Backend) (action : Action) (queue : String)
    (body : Option Json) (now : Time) : Option Backend × Response :=
  match storage with
  | none => (none, .problem .storageUnavailable "storage not configured")
  | some b =>
    match rt.readSelector body with
    | .error e => (some b, .problem .invalidTask ("invalid JSON: " ++ rt.decodeErrorText e))
    | .ok req =>
      if req.ids.elems ≠ [] ∧ req.filter ≠ none then
        (some b, .problem .invalidTask "supply ids or filter, not both")
      else
        match b.perform action queue (b.selector queue req) now with
        | (b', .ok n) => (some b', .count n)
        | (b', .error e) =>
          (some b', .problem .internal ("storage: " ++ rt.storageErrorText e))

end Rdq.Server
