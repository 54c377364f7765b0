import Rdq.Foundation.Trace
import Rdq.Postgres.Transition

/-!
# The transactions of the Go store, statement by statement

`storage/postgres/{enqueue,claim,mutations,dlq,stats}.go` under READ COMMITTED, with
the attempts. Any number of transactions run side by side. A statement sees the rows
that are committed and those its own transaction has written. It skips rows that
another open transaction has locked (`SKIP LOCKED`) or waits for them; a transaction
that waits takes no step.

## Implementation notes

The first writing statement of a transaction decides what happens to the task tables.
`Tx` keeps this `Write`, the attempts written so far, and what is left to do: attempts
to record, histories to load, or the commit. Counting a reclaimed lease is part of the
claim, because both update the locked row. The DELETE of a Redrive or a Purge works on
the rows that are committed when it begins: it waits until none of those that are left
is locked, takes these and misses the rows that came meanwhile. A dead letter is told
from a later one of the same id by its columns, the time of death among them.
PurgeSucceeded selects by the history of the rows and is taken as one step with its
commit. The wakeup notifications touch no table and are left out.
-/

namespace Rdq.Postgres

open Rdq.Foundation

/-- The database with more attempts, each unless its number is taken. -/
def Database.addAttempts (db : Database) (as : List AttemptRow) : Database :=
  { db with attempt := as.foldl KeyedTable.insertNew db.attempt }

namespace Statements

/-- One execution of `claimSQL`: the rows as they were before. -/
structure Claim where
  rows : List TaskRow
  now : Time
  lease : Duration
  mint : TaskID → ClaimToken

/-- What a claim hands out for a row. -/
def Claim.grant (c : Claim) (r : TaskRow) (attempts : List AttemptRow) : Claimed where
  task := envelopeFromRows (r.claim c.now c.lease (c.mint r.id)) attempts
  token := c.mint r.id

/-- The effect of the first writing statement of an open transaction. -/
inductive Write
  | insertTask (row : TaskRow)
  | claim (c : Claim)
  | extendLease (id : TaskID) (lease : Duration) (now : Time)
  | reschedule (id : TaskID) (nextAt : Time)
  | complete (id : TaskID)
  | deadLetter (dead : DlqRow)
  | redrive (ids : List TaskID) (now : Time)
  | purge (ids : List TaskID)

namespace Write

/-- The ids of `rdq_task` that stay locked until the transaction ends. -/
def taskIds : Write → List TaskID
  | insertTask row => [row.id]
  | claim c => c.rows.map TaskRow.id
  | extendLease id _ _ => [id]
  | reschedule id _ => [id]
  | complete id => [id]
  | deadLetter dead => [dead.id]
  | redrive ids _ => ids
  | purge _ => []

/-- The ids of `rdq_dlq_task` that stay locked until the transaction ends. -/
def dlqIds : Write → List TaskID
  | deadLetter dead => [dead.id]
  | redrive ids _ => ids
  | purge ids => ids
  | _ => []

/-- The database with the write in it. -/
def apply (db : Database) : Write → Database
  | insertTask row => { db with task := db.task.insertNew row }
  | claim c => { db with toTables := db.claimRows c.now c.lease c.mint c.rows }
  | extendLease id lease now =>
    { db with
      task := db.task.modify id (TaskRow.extendLease now lease)
        (TaskRow.id_extendLease now lease) }
  | reschedule id nextAt =>
    { db with
      task := db.task.modify id (TaskRow.reschedule nextAt) (TaskRow.id_reschedule nextAt) }
  | complete id => { db with task := db.task.modify id TaskRow.complete TaskRow.id_complete }
  | deadLetter dead =>
    { db with task := db.task.erase dead.id, dlq := db.dlq.insertNew dead }
  | redrive ids now =>
    { db with
      dlq := db.dlq.deleteWhere fun d => decide (d.id ∈ ids)
      task := (db.dlq.rows.filter fun d => decide (d.id ∈ ids)).foldl
        (fun t d => t.insertNew (d.redrive now)) db.task }
  | purge ids =>
    Database.deleteAttempts { db with dlq := db.dlq.deleteWhere fun d => decide (d.id ∈ ids) } ids

end Write

/-- What an open transaction still has to do before it commits. -/
inductive Rest
  /-- Attempts to insert, then the answer is that all is done. -/
  | attempts (todo : List AttemptRow)
  /-- Claimed rows whose lost leases are not recorded yet. -/
  | reclaims (c : Claim) (todo : List TaskRow)
  /-- Claimed rows whose histories are not loaded yet, and what will be handed out so far. -/
  | loads (c : Claim) (todo : List TaskRow) (claimed : List Claimed)
  | answer (reply : Reply)

/-- The answer of a transaction that has only its commit left. -/
def Rest.reply? : Rest → Option Reply
  | attempts [] => some .done
  | loads _ [] claimed => some (.claimed claimed)
  | answer reply => some reply
  | _ => none

/-- An open transaction that has written. -/
structure Tx where
  op : Op
  write : Write
  added : List AttemptRow
  rest : Rest

/-- The database as the transaction sees it, and leaves it if it commits. -/
def Tx.apply (tx : Tx) (db : Database) : Database := (tx.write.apply db).addAttempts tx.added

/-- Where a transaction stands. -/
inductive Session
  /-- Before the first statement. -/
  | begun (op : Op)
  /-- Enqueue: the lookup found nothing, and the INSERT is next. -/
  | insert (task : Envelope)
  /-- Enqueue: the INSERT did nothing, and the second lookup is next. -/
  | relookup (task : Envelope)
  /-- Redrive: the rows that were there when its DELETE began. -/
  | redriving (queue : String) (sel : Selector) (now : Time) (found : List DlqRow)
  /-- Purge: the rows that were there when its DELETE began. -/
  | purging (queue : String) (sel : Selector) (found : List DlqRow)
  | opened (tx : Tx)
  | ended (reply : Reply)
  /-- The connection was lost. -/
  | aborted

/-- The text of the error when an attempt cannot be recorded. -/
def recordingContext : Op → String
  | .enqueue _ => "rdq/postgres: Enqueue recording attempt"
  | .claimDue _ _ _ _ => "rdq/postgres: recording lease-expired attempt"
  | _ => "rdq/postgres: recording attempt"

/-- The answer to an enqueue of an id that is already stored in `queue`. -/
def resubmitted (task : Envelope) (queue : String) : Reply :=
  if queue ≠ task.queue then .failed .idConflict else .done

/-- The next statement of a transaction that has written, or its commit. -/
def Tx.next (tx : Tx) (db : Database) : Session :=
  match tx.rest with
  | .attempts [] => .ended .done
  | .attempts (a :: todo) =>
    match (tx.apply db).insertAttempt a with
    | some _ => .opened { tx with added := tx.added ++ [a], rest := .attempts todo }
    | none => .ended (.failed (.uniqueViolation (recordingContext tx.op)))
  | .reclaims c [] => .opened { tx with rest := .loads c c.rows [] }
  | .reclaims c (r :: todo) =>
    match (tx.apply db).recordReclaim c.now r with
    | some _ =>
      .opened { tx with
        added := tx.added ++ reclaimed (tx.apply db) r c.now, rest := .reclaims c todo }
    | none => .ended (.failed (.uniqueViolation (recordingContext tx.op)))
  | .loads _ [] claimed => .ended (.claimed claimed)
  | .loads c (r :: todo) claimed =>
    .opened { tx with
      rest := .loads c todo (claimed ++ [c.grant r ((tx.apply db).loadAttempts r.id)]) }
  | .answer reply => .ended reply

namespace Session

/-- A fenced statement needs the claim, and waits for the row. -/
def fenced (db : Database) (lockedTask : List TaskID) (op : Op) (id : TaskID) (token : ClaimToken)
    (write : TaskRow → Session) : Session :=
  match (db.task.find? id).filter fun r => r.Fenced token with
  | none => ended (.failed .staleClaim)
  | some r => if id ∈ lockedTask then begun op else write r

/-- The rows a DELETE takes: those it found that are still there. -/
def left (db : Database) (queue : String) (sel : Selector) (found : List DlqRow) : List TaskID :=
  (db.dlq.rows.filter fun d => dlqSelects queue sel d && decide (d ∈ found)).map DlqRow.id

/-- The statement of a transaction that is next, on the committed database `db` and with the
ids that other transactions have locked. -/
def next (db : Database) (lockedTask lockedDlq : List TaskID) (ch : Choice) : Session → Session
  | begun (.enqueue task) =>
    match db.lookupQueue task.id with
    | some queue => ended (resubmitted task queue)
    | none => insert task
  | insert task =>
    let row := taskRowFromEnvelope task
    if ¬ row.Storable then ended (.failed (.checkViolation "rdq/postgres: Enqueue insert"))
    else if row.id ∈ lockedTask then insert task
    else if db.task.find? row.id = none then
      opened ⟨.enqueue task, .insertTask row, [], .attempts (attemptRowsFromEnvelope task)⟩
    else relookup task
  | relookup task => ended (resubmitted task ((db.lookupQueue task.id).getD ""))
  | begun (.claimDue queue limit lease now) =>
    if limit ≤ 0 then ended (.claimed [])
    else
      -- SKIP LOCKED
      let scan := ch.scan.filter fun id => decide (id ∉ lockedTask)
      let c : Claim := ⟨db.dueRows queue limit now scan, now, lease, ch.mint⟩
      opened ⟨.claimDue queue limit lease now, .claim c, [], .reclaims c c.rows⟩
  | begun (.extendLease id token lease now) =>
    fenced db lockedTask (.extendLease id token lease now) id token fun _ =>
      opened ⟨.extendLease id token lease now, .extendLease id lease now, [], .answer .done⟩
  | begun (.reschedule id token att nextAt) =>
    fenced db lockedTask (.reschedule id token att nextAt) id token fun _ =>
      opened ⟨.reschedule id token att nextAt, .reschedule id nextAt, [],
        .attempts [attemptRowFromAttempt id att]⟩
  | begun (.complete id token att now) =>
    fenced db lockedTask (.complete id token att now) id token fun _ =>
      opened ⟨.complete id token att now, .complete id, [],
        .attempts [attemptRowFromAttempt id att]⟩
  | begun (.deadLetter id token att now) =>
    fenced db lockedTask (.deadLetter id token att now) id token fun r =>
      let dead := r.deadLetter now (errType att)
      if dead.id ∈ lockedDlq then begun (.deadLetter id token att now)
      else if db.dlq.find? dead.id = none then
        opened ⟨.deadLetter id token att now, .deadLetter dead, [],
          .attempts [attemptRowFromAttempt id att]⟩
      else ended (.failed (.uniqueViolation "rdq/postgres: dead-lettering"))
  | begun (.redrive queue sel now) =>
    redriving queue sel now (db.dlq.rows.filter (dlqSelects queue sel))
  | redriving queue sel now found =>
    let ids := left db queue sel found
    if ∃ id ∈ ids, id ∈ lockedTask ∨ id ∈ lockedDlq then redriving queue sel now found
    else if ∀ id ∈ ids, db.task.find? id = none then
      opened ⟨.redrive queue sel now, .redrive ids now, [], .answer (.count ids.length)⟩
    else ended (.failed (.uniqueViolation "rdq/postgres: Redrive"))
  | begun (.purge queue sel) => purging queue sel (db.dlq.rows.filter (dlqSelects queue sel))
  | purging queue sel found =>
    let ids := left db queue sel found
    if ∃ id ∈ ids, id ∈ lockedDlq then purging queue sel found
    else opened ⟨.purge queue sel, .purge ids, [], .answer (.count ids.length)⟩
  | begun (.purgeSucceeded queue olderThan) =>
    if ∃ r ∈ db.task.rows.filter (db.isExpired queue olderThan), r.id ∈ lockedTask then
      begun (.purgeSucceeded queue olderThan)
    else ended (.count (db.purgeSucceeded queue olderThan).2)
  | opened tx => tx.next db
  | ended reply => ended reply
  | aborted => aborted

/-- What the step of a transaction commits. -/
def commit (db : Database) (lockedTask : List TaskID) : Session → Database
  | opened tx => if tx.rest.reply?.isSome then tx.apply db else db
  | begun (.purgeSucceeded queue olderThan) =>
    if ∃ r ∈ db.task.rows.filter (db.isExpired queue olderThan), r.id ∈ lockedTask then db
    else (db.purgeSucceeded queue olderThan).1
  | _ => db

/-- A client that gets no answer: the transaction is rolled back, if it is still open. -/
def abort : Session → Session
  | ended reply => ended reply
  | _ => aborted

def tx? : Session → Option Tx
  | opened tx => some tx
  | _ => none

def reply? : Session → Option Reply
  | ended reply => some reply
  | _ => none

end Session

/-- The committed database and all transactions, in the order in which they began. -/
structure State where
  committed : Database
  sessions : List Session

/-- What happens next. -/
inductive Event
  | begin (op : Op)
  | advance (i : Nat) (ch : Choice)
  | abort (i : Nat)

namespace State
variable (s : State)

/-- An empty database and no transactions. -/
def new : State := ⟨Database.new, []⟩

/-- The transactions that have written. -/
def txs (i : Nat) : Option Tx := s.sessions[i]?.bind Session.tx?

def lockedTask : List TaskID :=
  s.sessions.flatMap fun x => x.tx?.elim [] fun tx => tx.write.taskIds

def lockedDlq : List TaskID :=
  s.sessions.flatMap fun x => x.tx?.elim [] fun tx => tx.write.dlqIds

/-- Perform one event. -/
def step (s : State) : Event → State × Unit
  | .begin op => ({ s with sessions := s.sessions ++ [.begun op] }, ())
  | .advance i ch =>
    match s.sessions[i]? with
    | none => (s, ())
    | some x =>
      (⟨x.commit s.committed s.lockedTask,
        s.sessions.set i (x.next s.committed s.lockedTask s.lockedDlq ch)⟩, ())
  | .abort i => ({ s with sessions := s.sessions.modify i Session.abort }, ())

/-- The state after a list of events from an empty database. -/
def after (evs : List Event) : State := run step new evs

/-- The transaction that an event ends with an answer, and the answer. -/
def answer? (e : Entry State Event Unit) : Option (Nat × Reply) :=
  match e.input with
  | .advance i _ =>
    if (e.pre.sessions[i]?.bind Session.reply?).isSome then none
    else (e.post.sessions[i]?.bind Session.reply?).map fun reply => (i, reply)
  | .begin _ | .abort _ => none

end State

def Event.call? : Event → Option Op
  | .begin op => some op
  | .advance _ _ | .abort _ => none

/-- The calls that begin, in their order. -/
def calls (evs : List Event) : List Op := evs.filterMap Event.call?

/-- The answers of the transactions, in the order in which they are given. -/
def answers (evs : List Event) : List (Nat × Reply) :=
  (trace State.step State.new evs).filterMap State.answer?

/-- Nobody gets between the statements of an Enqueue: an INSERT that is refused, or finds its
id free in `rdq_task`, finds it free everywhere, and the second lookup finds the task. -/
def Session.Clear (db : Database) (lockedTask : List TaskID) : Session → Prop
  | insert task =>
    (¬ (taskRowFromEnvelope task).Storable ∨
      task.id ∉ lockedTask ∧ db.task.find? task.id = none) → db.lookupQueue task.id = none
  | relookup task => db.lookupQueue task.id ≠ none
  | _ => True

instance (db : Database) (lockedTask : List TaskID) : (x : Session) →
    Decidable (x.Clear db lockedTask)
  | .insert _ => inferInstanceAs (Decidable (_ → _))
  | .relookup _ => inferInstanceAs (Decidable (_ ≠ _))
  | .begun _ | .redriving _ _ _ _ | .purging _ _ _ | .opened _ | .ended _ | .aborted =>
    instDecidableTrue

def EnqueueClear (s : State) : Event → Prop
  | .advance i _ => ∀ x ∈ s.sessions[i]?, x.Clear s.committed s.lockedTask
  | .begin _ | .abort _ => True

instance (s : State) : (ev : Event) → Decidable (EnqueueClear s ev)
  | .advance _ _ => inferInstanceAs (Decidable (∀ x ∈ _, _))
  | .begin _ | .abort _ => instDecidableTrue

end Statements

end Rdq.Postgres
