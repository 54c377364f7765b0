import Mathlib.Data.List.Dedup
import Rdq.Postgres.Schema

/-!
# The storage operations on Postgres

`storage/postgres/{enqueue,claim,mutations,dlq,stats}.go` and the same
statements of `PostgresStorage.java`: every operation as one transaction on the
committed tables. A refused statement rolls the whole transaction back.

## Implementation notes

Postgres chooses what the statements leave open: which candidate rows a claim
sees (`SKIP LOCKED` passes over the locked ones), which of those with equal
`next_attempt_at` come first, the order in which the claimed rows return, and
the random tokens. A `Choice` fixes them for one call. The texts of refused
statements are those of the Go binding; the Java binding reports each of them
as "rdq/postgres: transaction failed". The wakeup notifications touch no table
and are left out.
-/

namespace Rdq.Postgres

open Rdq.Foundation

/-- What Postgres is free to choose in one call. -/
structure Choice where
  /-- The ids of the rows a claim gets to see, in the order of the scan. -/
  scan : List TaskID
  /-- `gen_random_uuid()` for each claimed row. -/
  mint : TaskID → ClaimToken

def leaseExpiredType : String := "rdq.LeaseExpired"

def leaseExpiredMessage : String := "lease expired before an outcome was reported"

/-! ## What the statements write into a row -/

namespace TaskRow

/-- The `NOT NULL` and `CHECK` constraints of `rdq_task` that a row can break. -/
def Storable (r : TaskRow) : Prop :=
  r.payload ≠ none ∧ r.status ≠ .dead

instance (r : TaskRow) : Decidable r.Storable := inferInstanceAs (Decidable (_ ∧ _))

/-- Whether a row can be claimed at `now`. -/
def isDue (r : TaskRow) (now : Time) : Bool :=
  match r.status with
  | .pending => r.nextAttemptAt.any fun t => decide (t ≤ now)
  | .inFlight => r.leaseExpiresAt.any fun t => decide (t ≤ now)
  | _ => false

/-- `ORDER BY next_attempt_at`, with NULL after every time. -/
def dueLe (a b : TaskRow) : Prop :=
  match a.nextAttemptAt, b.nextAttemptAt with
  | some s, some t => s ≤ t
  | some _, none => True
  | none, none => True
  | none, some _ => False

instance (a b : TaskRow) : Decidable (dueLe a b) := by
  unfold dueLe
  split <;> infer_instance

/-- The row matches the `WHERE` of a fenced statement. -/
def Fenced (token : ClaimToken) (r : TaskRow) : Prop :=
  r.status = .inFlight ∧ r.claimToken = some token

instance (token : ClaimToken) (r : TaskRow) : Decidable (r.Fenced token) :=
  inferInstanceAs (Decidable (_ ∧ _))

/-- `claimSQL`, and the count of a reclaimed lease. -/
def claim (now : Time) (lease : Duration) (token : ClaimToken) (r : TaskRow) : TaskRow :=
  { r with
    status := .inFlight
    leaseExpiresAt := some (now + lease)
    claimToken := some token
    attemptCount := r.attemptCount + if r.status = .inFlight then 1 else 0 }

def extendLease (now : Time) (lease : Duration) (r : TaskRow) : TaskRow :=
  { r with leaseExpiresAt := some (now + lease) }

def reschedule (nextAt : Time) (r : TaskRow) : TaskRow :=
  { r with
    status := .pending
    nextAttemptAt := some nextAt
    leaseExpiresAt := none
    claimToken := none
    attemptCount := r.attemptCount + 1 }

def complete (r : TaskRow) : TaskRow :=
  { r with
    status := .succeeded
    nextAttemptAt := none
    leaseExpiresAt := none
    claimToken := none
    attemptCount := r.attemptCount + 1 }

@[simp] theorem id_claim (now : Time) (lease : Duration) (token : ClaimToken) (r : TaskRow) :
    (r.claim now lease token).id = r.id := rfl

@[simp] theorem id_extendLease (now : Time) (lease : Duration) (r : TaskRow) :
    (r.extendLease now lease).id = r.id := rfl

@[simp] theorem id_reschedule (nextAt : Time) (r : TaskRow) : (r.reschedule nextAt).id = r.id :=
  rfl

@[simp] theorem id_complete (r : TaskRow) : r.complete.id = r.id := rfl

/-- The row `deadLetterSQL` moves to the other table. -/
def deadLetter (now : Time) (errorType : Option String) (r : TaskRow) : DlqRow where
  row :=
    { r with
      status := .dead
      nextAttemptAt := none
      leaseExpiresAt := none
      claimToken := none
      attemptCount := r.attemptCount + 1 }
  deadLetteredAt := now
  errorType := errorType

end TaskRow

/-- The row `Redrive` moves back. -/
def DlqRow.redrive (now : Time) (d : DlqRow) : TaskRow :=
  { d.row with
    status := .pending
    attemptCount := 0
    redriveCount := d.row.redriveCount + 1
    nextAttemptAt := some now
    leaseExpiresAt := none
    claimToken := none }

/-- The rows a redrive inserts have the ids of the rows it removes. -/
theorem map_id_redrive (ds : List DlqRow) (now : Time) :
    (ds.map (DlqRow.redrive now)).map TaskRow.id = ds.map DlqRow.id := by
  rw [List.map_map]
  rfl

/-- `dlqSelectorClause`: the rows of `rdq_dlq_task` a selector chooses. The bounds of a filter are
`timestamptz` parameters, so they are whole microseconds here, as every time in the tables is;
whoever binds a finer one cuts it first. -/
def dlqSelects (queue : String) (sel : Selector) (d : DlqRow) : Bool :=
  d.row.queue = queue &&
    if sel.ids ≠ [] then decide (d.id ∈ sel.ids)
    else
      match sel.filter with
      | none => false
      | some f =>
        (f.handlerRef = "" || d.row.handlerRef = f.handlerRef) &&
        (f.errorType = "" || d.errorType = some f.errorType) &&
        (f.deadLetteredAfter.all fun t => decide (t ≤ d.deadLetteredAt)) &&
        (f.deadLetteredBefore.all fun t => decide (d.deadLetteredAt < t))

/-- The `errType` of `DeadLetter`, `terminalErrorType` in the Java binding: NULL
when the attempt names no error type. -/
def errType (att : Attempt) : Option String :=
  (att.error.map TaskError.type).filter fun t => t ≠ ""

/-! ## The claim statement -/

namespace Tables
variable (t : Tables)

/-- The candidate rows of a claim: due, the first `limit` by `next_attempt_at`. -/
def dueRows (queue : String) (limit : Int) (now : Time) (scan : List TaskID) : List TaskRow :=
  let due := (scan.dedup.filterMap t.task.find?).filter fun r =>
    decide (r.queue = queue) && r.isDue now
  let picked := (due.insertionSort TaskRow.dueLe).take limit.toNat
  -- `SELECT * FROM claimed` has no order of its own, so the rows return in the order of the scan
  due.filter fun r => decide (r ∈ picked)

/-- The rows of `rdq_task` after a claim of `rows`. -/
def claimRows (now : Time) (lease : Duration) (mint : TaskID → ClaimToken)
    (rows : List TaskRow) : Tables :=
  { t with
    task := t.task.updateWhere (fun r => decide (r.id ∈ rows.map TaskRow.id))
      (fun r => r.claim now lease (mint r.id)) fun r => r.id_claim now lease (mint r.id) }

section
variable {t} {now : Time} {lease : Duration} {mint : TaskID → ClaimToken} {rows : List TaskRow}

theorem find?_claimRows_of_mem {r : TaskRow} (hr : t.task.find? r.id = some r)
    (hmem : r.id ∈ rows.map TaskRow.id) :
    (t.claimRows now lease mint rows).task.find? r.id =
      some (r.claim now lease (mint r.id)) := by
  rw [claimRows, KeyedTable.find?_updateWhere]
  simp only [hr, Option.map_some, hmem, decide_true, if_true]

theorem find?_claimRows_of_not_mem {id : TaskID} (hmem : id ∉ rows.map TaskRow.id) :
    (t.claimRows now lease mint rows).task.find? id = t.task.find? id := by
  rw [claimRows, KeyedTable.find?_updateWhere]
  cases hf : t.task.find? id with
  | none => rfl
  | some r =>
    rw [← KeyedTable.key_of_find? hf] at hmem
    simp only [Option.map_some, hmem, decide_false, Bool.false_eq_true, if_false]

end

end Tables

/-! ## Statements on the attempts -/

namespace Database
variable (db : Database)

/-- `insertAttempt`; none when `UNIQUE (task_id, attempt_no)` is violated. -/
def insertAttempt (a : AttemptRow) : Option Database :=
  if db.attempt.find? a.key = none then some { db with attempt := db.attempt.insertNew a }
  else none

/-- `COALESCE(MAX(attempt_no), 0)` over the attempts of a task. -/
def maxAttemptNo (id : TaskID) : Int :=
  ((db.attemptsOf id).map AttemptRow.attemptNo).max?.getD 0

/-- The row of `insertLeaseExpiredSQL`. -/
def leaseExpiredRow (r : TaskRow) (now : Time) : AttemptRow where
  taskId := r.id
  attemptNo := db.maxAttemptNo r.id + 1
  startedAt := r.leaseExpiresAt.getD now
  finishedAt := some now
  outcome := .leaseExpired
  errorType := some leaseExpiredType
  errorMessage := some leaseExpiredMessage

/-- The attempt statement of a claimed row, needed only for a reclaimed lease. -/
def recordReclaim (now : Time) (r : TaskRow) : Option Database :=
  if r.status = .inFlight then db.insertAttempt (db.leaseExpiredRow r now) else some db

/-- The `DELETE FROM rdq_attempt` of a purge. -/
def deleteAttempts (ids : List TaskID) : Database :=
  { db with attempt := db.attempt.deleteWhere fun a => a.taskId ∈ ids }

/-! ## The transactions -/

/-- `Enqueue`. -/
def enqueue (task : Envelope) : Database × Except StorageError Unit :=
  match db.lookupQueue task.id with
  | some queue => (db, if queue ≠ task.queue then .error .idConflict else .ok ())
  | none =>
    if (taskRowFromEnvelope task).Storable then
      let inserted := { db with task := db.task.insertNew (taskRowFromEnvelope task) }
      match (attemptRowsFromEnvelope task).foldlM insertAttempt inserted with
      | some db' => (db', .ok ())
      | none => (db, .error (.uniqueViolation "rdq/postgres: Enqueue recording attempt"))
    else (db, .error (.checkViolation "rdq/postgres: Enqueue insert"))

/-- `ClaimDue`. -/
def claimDue (queue : String) (limit : Int) (lease : Duration) (now : Time) (ch : Choice) :
    Database × Except StorageError (List Claimed) :=
  if limit ≤ 0 then (db, .ok [])
  else
    let rows := db.dueRows queue limit now ch.scan
    match rows.foldlM (fun db r => db.recordReclaim now r)
        { db with toTables := db.claimRows now lease ch.mint rows } with
    | none => (db, .error (.uniqueViolation "rdq/postgres: recording lease-expired attempt"))
    | some db' =>
      (db', .ok (rows.map fun r =>
        { task := envelopeFromRows (r.claim now lease (ch.mint r.id)) (db'.loadAttempts r.id)
          token := ch.mint r.id }))

/-- `ExtendLease`. -/
def extendLease (id : TaskID) (token : ClaimToken) (lease : Duration) (now : Time) :
    Database × Except StorageError Unit :=
  match (db.task.find? id).filter fun r => r.Fenced token with
  | none => (db, .error .staleClaim)
  | some _ =>
    ({ db with
        task := db.task.modify id (TaskRow.extendLease now lease)
          (TaskRow.id_extendLease now lease) },
      .ok ())

/-- `spendClaim`: a fenced update that keeps the id, and the attempt. -/
def spendClaim (id : TaskID) (token : ClaimToken) (att : Attempt) (f : TaskRow → TaskRow)
    (hf : ∀ r, (f r).id = r.id) : Database × Except StorageError Unit :=
  match (db.task.find? id).filter fun r => r.Fenced token with
  | none => (db, .error .staleClaim)
  | some _ =>
    let updated := { db with task := db.task.modify id f hf }
    match updated.insertAttempt (attemptRowFromAttempt id att) with
    | some db' => (db', .ok ())
    | none => (db, .error (.uniqueViolation "rdq/postgres: recording attempt"))

def reschedule (id : TaskID) (token : ClaimToken) (att : Attempt) (nextAt : Time) :
    Database × Except StorageError Unit :=
  db.spendClaim id token att (TaskRow.reschedule nextAt) (TaskRow.id_reschedule nextAt)

def complete (id : TaskID) (token : ClaimToken) (att : Attempt) :
    Database × Except StorageError Unit :=
  db.spendClaim id token att TaskRow.complete TaskRow.id_complete

/-- `DeadLetter`: the move between the tables, and the attempt. -/
def deadLetter (id : TaskID) (token : ClaimToken) (att : Attempt) (now : Time) :
    Database × Except StorageError Unit :=
  match (db.task.find? id).filter fun r => r.Fenced token with
  | none => (db, .error .staleClaim)
  | some r =>
    let dead := r.deadLetter now (errType att)
    if db.dlq.find? dead.id = none then
      let moved := { db with task := db.task.erase id, dlq := db.dlq.insertNew dead }
      match moved.insertAttempt (attemptRowFromAttempt id att) with
      | some db' => (db', .ok ())
      | none => (db, .error (.uniqueViolation "rdq/postgres: recording attempt"))
    else (db, .error (.uniqueViolation "rdq/postgres: dead-lettering"))

/-- `Redrive`: every selected row moves back, or none does. -/
def redrive (queue : String) (sel : Selector) (now : Time) :
    Database × Except StorageError Nat :=
  let moved := db.dlq.rows.filter (dlqSelects queue sel)
  if ∀ d ∈ moved, db.task.find? d.id = none then
    ({ db with
        dlq := db.dlq.deleteWhere (dlqSelects queue sel)
        task := moved.foldl (fun t d => t.insertNew (d.redrive now)) db.task },
      .ok moved.length)
  else (db, .error (.uniqueViolation "rdq/postgres: Redrive"))

/-- `Purge`: the selected rows and all attempts of their ids. -/
def purge (queue : String) (sel : Selector) : Database × Nat :=
  let purged := db.dlq.rows.filter (dlqSelects queue sel)
  ({ db with dlq := db.dlq.deleteWhere (dlqSelects queue sel) }.deleteAttempts
    (purged.map DlqRow.id), purged.length)

/-- When a task counts as completed: the latest `finished_at`, else `created_at`. -/
def completedAt (r : TaskRow) : Time :=
  ((db.attemptsOf r.id).filterMap AttemptRow.finishedAt).max?.getD r.createdAt

/-- The rows `PurgeSucceeded` removes. -/
def isExpired (queue : String) (olderThan : Time) (r : TaskRow) : Bool :=
  decide (r.queue = queue) && decide (r.status = .succeeded) &&
    decide (db.completedAt r < olderThan)

def purgeSucceeded (queue : String) (olderThan : Time) : Database × Nat :=
  let purged := db.task.rows.filter (db.isExpired queue olderThan)
  ({ db with task := db.task.deleteWhere (db.isExpired queue olderThan) }.deleteAttempts
    (purged.map TaskRow.id), purged.length)

end Database

def Reply.ofCount : Except StorageError Nat → Reply
  | .ok n => .count n
  | .error e => .failed e

/-- Perform one call. -/
def step (db : Database) (ch : Choice) : Op → Database × Reply
  | .enqueue task => (db.enqueue task).map id Reply.ofUnit
  | .claimDue queue limit lease now =>
    (db.claimDue queue limit lease now ch).map id Reply.ofClaims
  | .extendLease i token lease now => (db.extendLease i token lease now).map id Reply.ofUnit
  | .reschedule i token att nextAt => (db.reschedule i token att nextAt).map id Reply.ofUnit
  | .complete i token att _ => (db.complete i token att).map id Reply.ofUnit
  | .deadLetter i token att now => (db.deadLetter i token att now).map id Reply.ofUnit
  | .redrive queue sel now => (db.redrive queue sel now).map id Reply.ofCount
  | .purge queue sel => (db.purge queue sel).map id Reply.count
  | .purgeSucceeded queue olderThan => (db.purgeSucceeded queue olderThan).map id Reply.count

end Rdq.Postgres
