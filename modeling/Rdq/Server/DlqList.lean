import Rdq.Postgres.DlqList
import Rdq.Server.DlqMutate

/-!
# Listing dead letters over HTTP

`handleDLQList` of `server/http/dlq.go` over the `DLQList` of Postgres, and which limits
it serves. There is no response if the slice of a page cannot be made.
-/

namespace Rdq.Postgres

open Rdq.Foundation

section List
variable {ι : Type*} [LinearOrder ι] {col : Collation ι} {mem : Memory} {db : Database}
variable {later : TaskID → Database} {queue : String} {f : DLQFilter} {after : String}
variable {cursor : Option (Time × List UInt8)} {params : Option (Time × TaskID)}

/-- The page of any limit, if the slice for one row more can be made. -/
theorem dlqList_eq {limit : Int} (hcursor : decodeDLQCursor after = .ok cursor)
    (hparams : cursorParams cursor = .ok params) (hmakes : mem.Makes (pageSize limit + 1)) :
    db.dlqList col mem later queue f after limit =
      let rows := db.dlqOrdered col queue f params
      .ok ((rows.take (pageSize limit)).map fun d => envelopeFromRows d.row
          (if f.includeAttempts then (later d.id).loadAttempts d.id else []),
        cursorText (if pageSize limit < rows.length then (rows.take (pageSize limit)).getLast?
          else none)) := by
  rw [dlqList_of_params hcursor hparams, dlqPage_eq (limit_lt_of_makes hmakes)]
  simp only [if_pos hmakes]
  rfl

end List

end Rdq.Postgres

namespace Rdq.Server

open Rdq.Foundation Rdq.Postgres

/-! ## The handler -/

/-- The query parameters, empty where they are not given. -/
structure ListQuery where
  errorType : String := ""
  handlerRef : String := ""
  fromParam : String := ""
  toParam : String := ""
  limit : String := ""
  cursor : String := ""

inductive ListProblem
  | storageUnavailable
  | invalidTask
  | staleCursor
  | internal
deriving DecidableEq, Repr

inductive ListResponse
  | page (tasks : List Envelope) (nextCursor : String)
  | problem (code : ListProblem) (detail : String)
deriving DecidableEq

def ListResponse.status : ListResponse → Nat
  | .page _ _ => 200
  | .problem .staleCursor _ => 409
  | .problem .invalidTask _ => 422
  | .problem .internal _ => 500
  | .problem .storageUnavailable _ => 503

/-- The limit of a page, 0 where it is not given. -/
def limitParam (value : String) : Except String Int :=
  if value = "" then .ok 0
  else
    match parseInt64 value.toList with
    | none => .error "limit: must be a positive integer"
    | some n => if n ≤ 0 then .error "limit: must be a positive integer" else .ok n.toInt

section Handler
variable {ι : Type*} [LinearOrder ι] (col : Collation ι) (mem : Memory)
variable (rt : Runtime) (listErrorText : ListError → String)

/-- `handleDLQList`. -/
def handleDLQList (storage : Option Database) (later : TaskID → Database) (queue : String)
    (q : ListQuery) : Option ListResponse :=
  match storage with
  | none => some (.problem .storageUnavailable "storage not configured")
  | some db =>
    match rt.listFilter q.errorType q.handlerRef q.fromParam q.toParam with
    | .error detail => some (.problem .invalidTask detail)
    | .ok f =>
      match limitParam q.limit with
      | .error detail => some (.problem .invalidTask detail)
      | .ok limit =>
        match db.dlqList col mem later queue f q.cursor limit with
        | .ok (tasks, next) => some (.page tasks next)
        | .error (.error .staleCursor) =>
          some (.problem .staleCursor "pagination cursor is no longer valid")
        | .error (.error e) => some (.problem .internal ("storage: " ++ listErrorText e))
        -- a panic, or the end of the process
        | .error .noMemory => none

variable {col mem rt listErrorText}

theorem handleDLQList_page {db : Database} {later : TaskID → Database} {queue : String}
    {q : ListQuery} {f : DLQFilter} {limit : Int}
    (hfilter : rt.listFilter q.errorType q.handlerRef q.fromParam q.toParam = .ok f)
    (hlimit : limitParam q.limit = .ok limit) {tasks : List Envelope} {next : String} :
    handleDLQList col mem rt listErrorText (some db) later queue q = some (.page tasks next) ↔
      db.dlqList col mem later queue f q.cursor limit = .ok (tasks, next) := by
  unfold handleDLQList
  simp only [hfilter, hlimit]
  split
  · rename_i tasks' next' hok
    rw [hok]
    simp
  · rename_i herr
    rw [herr]
    simp
  · rename_i herr
    rw [herr]
    simp
  · rename_i herr
    rw [herr]
    simp

theorem handleDLQList_invalid {db : Database} {later : TaskID → Database} {queue : String}
    {q : ListQuery} {detail : String}
    (hfilter : rt.listFilter q.errorType q.handlerRef q.fromParam q.toParam = .error detail) :
    handleDLQList col mem rt listErrorText (some db) later queue q =
      some (.problem .invalidTask detail) := by
  unfold handleDLQList
  simp only [hfilter]

end Handler

end Rdq.Server
