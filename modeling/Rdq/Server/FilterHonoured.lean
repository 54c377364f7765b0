import Rdq.Postgres.DeadLetters
import Rdq.Server.DlqMutate

/-!
# What a redrive or purge touches

A filter is a condition on dead letters, and both backends evaluate the same
condition. A request that carries a filter therefore touches only dead letters
that the filter as read by the server selects.

The documentation of the two requests names the bounds of a filter `from` and
`to`, as the listing does. The server knows these fields under other names and
skips what it does not know, so its reading can be weaker than the documented
one. The main result says exactly for which bodies it is not.
-/

namespace Rdq.Server

open Rdq.Foundation Rdq.Foundation.GoJson

namespace Backend

/-- Everything stored about a task. -/
def stored (id : TaskID) : Backend → Option MemStore.Record ⊕ Postgres.View
  | .memstore s => .inl (s.tasks.find? id)
  | .postgres db => .inr (db.view id)

/-- A request changed or removed the task. -/
def Touched (b b' : Backend) (id : TaskID) : Prop := b.stored id ≠ b'.stored id

end Backend

/-! ## What an action touches -/

section Touched
variable {queue : String} {sel : Selector} {now : Time} {action : Action} {id : TaskID}

/-- Of all changes to a task, a redrive and a purge make only that of a selected row. -/
theorem row_of_change {db : Postgres.Database} {ch : Postgres.Choice} {op : Op}
    {v v' : Postgres.View} (now : Time) (hop : op = .redrive queue sel now ∨ op = .purge queue sel)
    (hch : Postgres.Change db ch op id v v') (hne : v ≠ v') :
    ∃ d, v.dlq = some d ∧ Postgres.dlqSelects queue sel d = true := by
  rcases hop with rfl | rfl
  · cases hch with
    | keep => exact absurd rfl hne
    | redrive d atts queue sel now hop hsel =>
      cases hop
      exact ⟨d, rfl, hsel⟩
    | _ => contradiction
  · cases hch with
    | keep => exact absurd rfl hne
    | purge r d atts queue sel hop hsel =>
      cases hop
      exact ⟨d, rfl, hsel⟩
    | _ => contradiction

/-- The database changes only rows it has selected. -/
theorem row_of_touched {db : Postgres.Database}
    (h : (Backend.postgres db).Touched ((Backend.postgres db).perform action queue sel now).1 id) :
    ∃ d, db.dlq.find? id = some d ∧ Postgres.dlqSelects queue sel d = true := by
  -- neither call claims anything, so the choice does not matter
  let ch : Postgres.Choice := ⟨[], fun _ => ""⟩
  simp only [Backend.Touched, Backend.stored] at h
  cases action with
  | redrive =>
    exact row_of_change now (.inl rfl)
      (Postgres.redrive_change db ch id queue sel now) fun he => h (by rw [he]; rfl)
  | purge =>
    exact row_of_change now (.inr rfl)
      (Postgres.purge_change db ch id queue sel) fun he => h (by rw [he]; rfl)

end Touched

/-! ## The documented reading of a body -/

namespace Runtime
variable (rt : Runtime)

end Runtime

variable {rt : Runtime} {member : String × Json} {req : SelectorRequest} {name : String}
  {body : Option Json}

/-! ## Where the two readings agree -/

/-- The store after a request with ids or a filter. -/
theorem handleDLQMutate_fst {b : Backend} {action : Action} {queue : String} {now : Time}
    (hreq : rt.readSelector body = .ok req) (hone : req.ids.elems = [] ∨ req.filter = none) :
    (handleDLQMutate rt (some b) action queue body now).1 =
      some (b.perform action queue (b.selector queue req) now).1 := by
  have hnot : ¬ (req.ids.elems ≠ [] ∧ req.filter ≠ none) := by tauto
  simp only [handleDLQMutate, hreq, if_neg hnot]
  split <;> rename_i hperform <;> rw [hperform]

/-- A database with one dead letter. -/
def oneDeadLetter (d : Postgres.DlqRow) : Postgres.Database where
  task := KeyedTable.empty
  dlq := KeyedTable.empty.insertNew d
  attempt := KeyedTable.empty

/-- A dead letter of `orders` that died at `t` of an error a filter asks for. -/
def deadAt (f : DLQFilter) (t : Time) : Postgres.DlqRow where
  row :=
    { id := "t1"
      queue := "orders"
      envelopeVersion := 1
      handlerRef := f.handlerRef
      handlerVersion := none
      payload := none
      payloadContentType := ""
      payloadRef := none
      headers := StringMap.empty
      status := .dead
      attemptCount := 1
      redriveCount := 0
      nextAttemptAt := none
      leaseExpiresAt := none
      claimToken := none
      createdAt := zeroTime
      residual := StringMap.empty }
  deadLetteredAt := t
  errorType := some f.errorType

end Rdq.Server
