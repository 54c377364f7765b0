import Rdq.Foundation.Trace
import Rdq.Postgres.Store

/-!
# Transactions, statement by statement

Any number of transactions run side by side under READ COMMITTED. A statement
sees the rows that were committed when it started, and its own writes stay
invisible to the others until the transaction commits. A statement that would
write a row another open transaction has written waits; here it takes no step
until that transaction has ended. An INSERT is checked against the primary key
of its own table only.

## Implementation notes

Every transaction of the backend writes the task tables with one statement, so
an open transaction holds either nothing or the effect of one `Write`. The
statements on `rdq_attempt` do not decide which rows the task tables hold and
are left out; where one of them is refused, the transaction ends by `abort`,
which is possible at any time. A statement that waits is performed when it wakes
up, on the rows it then locks. DELETE finds the rows it locks one by one, so a
redrive or a purge may miss rows that appear while it runs: `Choice.scan` names
the ids it gets to see. The tasks and counts that calls return are left out.
-/

namespace Rdq.Postgres.ReadCommitted

open Rdq.Foundation

/-- The effect of the writing statement of an open transaction. -/
inductive Write
  /-- The row of an Enqueue. -/
  | insertTask (row : TaskRow)
  /-- The rows of a ClaimDue. -/
  | claim (rows : List TaskRow) (now : Time) (lease : Duration) (mint : TaskID → ClaimToken)
  /-- The row a DeadLetter moves to `rdq_dlq_task`. -/
  | deadLetter (dead : DlqRow)
  /-- The rows a Redrive moves to `rdq_task`. -/
  | redrive (rows : List DlqRow) (now : Time)
  /-- The rows a Purge deletes from `rdq_dlq_task`. -/
  | purge (rows : List DlqRow)

namespace Write

/-- The ids of `rdq_task` that stay locked until the transaction ends. -/
def taskIds : Write → List TaskID
  | insertTask row => [row.id]
  | claim rows _ _ _ => rows.map TaskRow.id
  | deadLetter dead => [dead.id]
  | redrive rows _ => rows.map DlqRow.id
  | purge _ => []

/-- The ids of `rdq_dlq_task` that stay locked until the transaction ends. -/
def dlqIds : Write → List TaskID
  | insertTask _ => []
  | claim _ _ _ _ => []
  | deadLetter dead => [dead.id]
  | redrive rows _ => rows.map DlqRow.id
  | purge rows => rows.map DlqRow.id

/-- The tables once the write is committed. -/
def apply (t : Tables) : Write → Tables
  | insertTask row => { t with task := t.task.insertNew row }
  | claim rows now lease mint => t.claimRows now lease mint rows
  | deadLetter dead => ⟨t.task.erase dead.id, t.dlq.insertNew dead⟩
  | redrive rows now =>
    ⟨(rows.map (DlqRow.redrive now)).foldl KeyedTable.insertNew t.task,
      t.dlq.deleteWhere fun d => decide (d.id ∈ rows.map DlqRow.id)⟩
  | purge rows => { t with dlq := t.dlq.deleteWhere fun d => decide (d.id ∈ rows.map DlqRow.id) }

end Write

/-- A transaction a client may start. -/
inductive Call
  /-- `Store.Enqueue` of the Go binding. -/
  | goEnqueue (task : Envelope)
  /-- `PostgresStorage.enqueue` of the Java binding. -/
  | javaEnqueue (task : Envelope)
  | claimDue (queue : String) (limit : Int) (lease : Duration) (now : Time)
  | deadLetter (id : TaskID) (token : ClaimToken) (attempt : Attempt) (now : Time)
  | redrive (queue : String) (sel : Selector) (now : Time)
  | purge (queue : String) (sel : Selector)

/-- The task a call enqueues. -/
def Call.enqueue? : Call → Option Envelope
  | .goEnqueue task => some task
  | .javaEnqueue task => some task
  | _ => none

/-- Where a transaction stands. -/
inductive Session
  /-- Before the first statement. -/
  | begun (call : Call)
  /-- Go: the lookup found nothing, and the INSERT is next. -/
  | insert (task : Envelope)
  /-- Go: the INSERT did nothing, and the second lookup is next. -/
  | relookup (task : Envelope)
  /-- Java: the snapshot of the INSERT has no row of the id, and the row is not written yet. -/
  | absent (task : Envelope)
  /-- Java: the INSERT had nothing to insert, and `existingQueue` is next. -/
  | existingQueue (task : Envelope)
  /-- The writing statement is done, and the commit is next. -/
  | written (w : Write)
  | ended (result : Except StorageError Unit)
  /-- The connection was lost, or a statement outside this model was refused. -/
  | aborted

/-- The row `insertIfAbsent` inserts; the Java binding never writes a payload reference. -/
def javaTaskRow (task : Envelope) : TaskRow :=
  { taskRowFromEnvelope task with payloadRef := none }

/-- The answer to an enqueue of an id that is already stored in `queue`. -/
def resubmitted (task : Envelope) (queue : String) : Except StorageError Unit :=
  if queue ≠ task.queue then .error .idConflict else .ok ()

namespace Session

/-- The statement of a transaction that is next, on the committed tables `t` and with the ids
that other transactions have locked. -/
def next (t : Tables) (lockedTask lockedDlq : List TaskID) (ch : Choice) : Session → Session
  | begun (.goEnqueue task) =>
    match t.lookupQueue task.id with
    | some queue => ended (resubmitted task queue)
    | none => insert task
  | insert task =>
    let row := taskRowFromEnvelope task
    if ¬ row.Storable then ended (.error (.checkViolation "rdq/postgres: Enqueue insert"))
    else if row.id ∈ lockedTask then insert task
    else if t.task.find? row.id = none then written (.insertTask row)
    else relookup task
  | relookup task => ended (resubmitted task ((t.lookupQueue task.id).getD ""))
  | begun (.javaEnqueue task) =>
    match t.taskRow? task.id with
    | some _ => existingQueue task
    | none => absent task
  | absent task =>
    let row := javaTaskRow task
    if ¬ row.Storable then ended (.error (.checkViolation "rdq/postgres: transaction failed"))
    else if row.id ∈ lockedTask then absent task
    else if t.task.find? row.id = none then written (.insertTask row)
    else ended (.error (.uniqueViolation "rdq/postgres: transaction failed"))
  | existingQueue task =>
    match t.lookupQueue task.id with
    | some queue => ended (resubmitted task queue)
    | none => ended (.ok ())
  | begun (.claimDue queue limit lease now) =>
    if limit ≤ 0 then ended (.ok ())
    else
      -- SKIP LOCKED
      let scan := ch.scan.filter fun id => decide (id ∉ lockedTask)
      written (.claim (t.dueRows queue limit now scan) now lease ch.mint)
  | begun (.deadLetter id token att now) =>
    if id ∈ lockedTask then begun (.deadLetter id token att now)
    else
      match (t.task.find? id).filter fun r => r.Fenced token with
      | none => ended (.error .staleClaim)
      | some r =>
        let dead := r.deadLetter now (errType att)
        if dead.id ∈ lockedDlq then begun (.deadLetter id token att now)
        else if t.dlq.find? dead.id = none then written (.deadLetter dead)
        else ended (.error (.uniqueViolation "rdq/postgres: dead-lettering"))
  | begun (.redrive queue sel now) =>
    let rows := t.dlq.rows.filter fun d => dlqSelects queue sel d && decide (d.id ∈ ch.scan)
    if ∃ d ∈ rows, d.id ∈ lockedTask ∨ d.id ∈ lockedDlq then begun (.redrive queue sel now)
    else if ∀ d ∈ rows, t.task.find? d.id = none then written (.redrive rows now)
    else ended (.error (.uniqueViolation "rdq/postgres: Redrive"))
  | begun (.purge queue sel) =>
    let rows := t.dlq.rows.filter fun d => dlqSelects queue sel d && decide (d.id ∈ ch.scan)
    if ∃ d ∈ rows, d.id ∈ lockedDlq then begun (.purge queue sel)
    else written (.purge rows)
  | written _ => ended (.ok ())
  | ended result => ended result
  | aborted => aborted

/-- The task a transaction is about to insert. -/
def inserting? : Session → Option Envelope
  | insert task => some task
  | absent task => some task
  | _ => none

/-- What the step of a transaction commits. -/
def commit (t : Tables) : Session → Tables
  | written w => w.apply t
  | _ => t

/-- A client that gets no answer: the transaction is rolled back, if it is still open. -/
def abort : Session → Session
  | ended result => ended result
  | _ => aborted

/-- The ids of `rdq_task` a transaction has locked. -/
def taskIds : Session → List TaskID
  | written w => w.taskIds
  | _ => []

/-- The ids of `rdq_dlq_task` a transaction has locked. -/
def dlqIds : Session → List TaskID
  | written w => w.dlqIds
  | _ => []

end Session

/-- The committed tables and all transactions, in the order in which they began, with the calls
they began with. -/
structure State where
  committed : Tables
  calls : List Call
  sessions : List Session

/-- What happens next. -/
inductive Event
  | begin (call : Call)
  | advance (i : Nat) (ch : Choice)
  | abort (i : Nat)

namespace State
variable (s : State)

/-- No transactions. -/
def start (t : Tables) : State := ⟨t, [], []⟩

/-- Empty tables and no transactions. -/
def new : State := start Tables.new

def lockedTask : List TaskID := s.sessions.flatMap Session.taskIds

def lockedDlq : List TaskID := s.sessions.flatMap Session.dlqIds

/-- Perform one event. -/
def step (s : State) : Event → State × Unit
  | .begin call =>
    ({ s with calls := s.calls ++ [call], sessions := s.sessions ++ [.begun call] }, ())
  | .advance i ch =>
    match s.sessions[i]? with
    | none => (s, ())
    | some x =>
      (⟨x.commit s.committed, s.calls,
        s.sessions.set i (x.next s.committed s.lockedTask s.lockedDlq ch)⟩, ())
  | .abort i => ({ s with sessions := s.sessions.modify i Session.abort }, ())

/-- The state after a list of events from empty tables. -/
def after (evs : List Event) : State := run step new evs

end State

/-! ## What a statement writes -/

/-- A statement writes only rows that no other transaction has locked; an INSERT writes a row that
its table does not hold, and nothing but DeadLetter writes to `rdq_dlq_task`. -/
theorem next_eq_written {t : Tables} {lockedTask lockedDlq : List TaskID} {ch : Choice}
    {x : Session} {w : Write} (h : x.next t lockedTask lockedDlq ch = .written w) :
    (∃ task row, x.inserting? = some task ∧ w = .insertTask row ∧ row.id = task.id ∧
        row.queue = task.queue ∧ task.id ∉ lockedTask ∧ t.task.find? task.id = none) ∨
      (∃ dead, w = .deadLetter dead ∧ dead.id ∉ lockedTask) ∨
      (∀ row, w ≠ .insertTask row) ∧ ∀ dead, w ≠ .deadLetter dead := by
  cases x with
  | begun call =>
    cases call with
    | goEnqueue task | javaEnqueue task =>
      simp only [Session.next] at h
      split at h <;> cases h
    | claimDue =>
      simp only [Session.next] at h
      split at h <;> cases h
      exact Or.inr (Or.inr ⟨(fun _ hc => by cases hc), (fun _ hc => by cases hc)⟩)
    | deadLetter id token att now =>
      simp only [Session.next] at h
      split at h
      · cases h
      · rename_i hfree
        split at h
        · cases h
        · rename_i r hr
          have hid : r.id = id :=
            KeyedTable.key_of_find? (Option.filter_eq_some_iff.mp hr).1
          split at h
          · cases h
          · split at h <;> cases h
            refine Or.inr (Or.inl ⟨_, rfl, ?_⟩)
            rw [← hid] at hfree
            exact hfree
    | redrive =>
      simp only [Session.next] at h
      split at h
      · cases h
      · split at h <;> cases h
        exact Or.inr (Or.inr ⟨(fun _ hc => by cases hc), (fun _ hc => by cases hc)⟩)
    | purge =>
      simp only [Session.next] at h
      split at h <;> cases h
      exact Or.inr (Or.inr ⟨(fun _ hc => by cases hc), (fun _ hc => by cases hc)⟩)
  | insert task | absent task =>
    simp only [Session.next] at h
    split at h
    · cases h
    · split at h
      · cases h
      · rename_i hfree
        split at h
        · rename_i hnone
          cases h
          exact Or.inl ⟨task, _, rfl, rfl, rfl, rfl, hfree, hnone⟩
        · cases h
  | relookup => cases h
  | existingQueue =>
    simp only [Session.next] at h
    split at h <;> cases h
  | written | ended | aborted => cases h

/-! ## What a commit changes -/

section Apply
variable {t : Tables} {w : Write} {id : TaskID}

/-- Only DeadLetter adds a row to `rdq_dlq_task`. -/
theorem dlq_apply_eq_none (h : t.dlq.find? id = none)
    (hw : ∀ dead, w = .deadLetter dead → dead.id ≠ id) : (w.apply t).dlq.find? id = none := by
  cases w with
  | insertTask | claim => exact h
  | deadLetter dead =>
    exact (KeyedTable.find?_insertNew_of_ne t.dlq (hw dead rfl)).trans h
  | redrive rows | purge rows =>
    refine (KeyedTable.find?_deleteWhere t.dlq _ id).trans ?_
    rw [h]
    rfl

/-- A commit leaves the rows of `rdq_task` alone that the transaction did not lock. -/
theorem task_apply_of_not_mem (h : id ∉ w.taskIds) :
    (w.apply t).task.find? id = t.task.find? id := by
  cases w with
  | insertTask row =>
    exact KeyedTable.find?_insertNew_of_ne t.task fun hid => h (by simp [Write.taskIds, hid])
  | claim rows now lease mint => exact Tables.find?_claimRows_of_not_mem h
  | deadLetter dead =>
    exact KeyedTable.find?_erase_of_ne t.task fun hid => h (by simp [Write.taskIds, hid])
  | redrive rows now =>
    refine KeyedTable.find?_foldl_insertNew_of_not_mem t.task _ ?_
    rw [map_id_redrive]
    exact h
  | purge => rfl

/-- Only Enqueue and Redrive add a row to `rdq_task`. -/
theorem task_apply_eq_none (h : t.task.find? id = none)
    (hins : ∀ row, w = .insertTask row → row.id ≠ id)
    (hred : ∀ rows now, w = .redrive rows now → id ∉ rows.map DlqRow.id) :
    (w.apply t).task.find? id = none := by
  cases w with
  | insertTask row => exact (KeyedTable.find?_insertNew_of_ne t.task (hins row rfl)).trans h
  | claim rows now lease mint =>
    rw [Write.apply, Tables.claimRows, KeyedTable.find?_updateWhere, h]
    rfl
  | deadLetter dead =>
    refine (KeyedTable.find?_deleteWhere t.task _ id).trans ?_
    rw [h]
    rfl
  | redrive rows now =>
    refine (KeyedTable.find?_foldl_insertNew_of_not_mem t.task _ ?_).trans h
    rw [map_id_redrive]
    exact hred rows now rfl
  | purge => exact h

end Apply

/-! ## One event -/

namespace State
variable {s : State}

theorem mem_lockedTask {i : Nat} {w : Write} (h : s.sessions[i]? = some (.written w)) {id : TaskID}
    (hid : id ∈ w.taskIds) : id ∈ s.lockedTask :=
  List.mem_flatMap.mpr ⟨_, List.mem_of_getElem? h, hid⟩

/-- The tables change only by the commit of a transaction that has written. -/
theorem step_committed (s : State) (ev : Event) :
    (s.step ev).1.committed = s.committed ∨
      ∃ i ch w, ev = .advance i ch ∧ s.sessions[i]? = some (.written w) ∧
        (s.step ev).1.committed = w.apply s.committed := by
  cases ev with
  | begin | abort => exact Or.inl rfl
  | advance i ch =>
    simp only [step]
    split
    · exact Or.inl rfl
    · rename_i x hx
      cases x with
      | written w => exact Or.inr ⟨i, ch, w, rfl, hx, rfl⟩
      | _ => exact Or.inl rfl

/-- A transaction after an event was there before, has just begun, made one statement, or was
aborted. -/
theorem session_origin {ev : Event} {j : Nat} {y : Session}
    (h : (s.step ev).1.sessions[j]? = some y) :
    s.sessions[j]? = some y ∨ (∃ call, ev = .begin call ∧ y = .begun call) ∨
      (∃ ch x, ev = .advance j ch ∧ s.sessions[j]? = some x ∧
        y = x.next s.committed s.lockedTask s.lockedDlq ch) ∨
      ∃ x, ev = .abort j ∧ s.sessions[j]? = some x ∧ y = x.abort := by
  cases ev with
  | begin call =>
    simp only [step] at h
    rw [List.getElem?_append] at h
    split at h
    · exact Or.inl h
    · have hy := List.mem_of_getElem? h
      exact Or.inr (Or.inl ⟨call, rfl, List.mem_singleton.mp hy⟩)
  | advance i ch =>
    simp only [step] at h
    split at h
    · exact Or.inl h
    · rename_i x hx
      rw [List.getElem?_set] at h
      split at h
      · rename_i hij
        subst hij
        split at h
        · exact Or.inr (Or.inr (Or.inl ⟨ch, x, rfl, hx, (Option.some.inj h).symm⟩))
        · cases h
      · exact Or.inl h
  | abort i =>
    simp only [step, List.getElem?_modify] at h
    obtain ⟨x, hx, rfl⟩ := Option.map_eq_some_iff.mp h
    by_cases hij : i = j
    · subst hij
      exact Or.inr (Or.inr (Or.inr ⟨x, rfl, hx, by simp⟩))
    · simp only [if_neg hij]
      exact Or.inl hx

/-- A transaction that has written had written before, or did so in this event. -/
theorem written_origin {ev : Event} {j : Nat} {w : Write}
    (h : (s.step ev).1.sessions[j]? = some (.written w)) :
    s.sessions[j]? = some (.written w) ∨
      ∃ ch x, ev = .advance j ch ∧ s.sessions[j]? = some x ∧
        x.next s.committed s.lockedTask s.lockedDlq ch = .written w := by
  rcases session_origin h with hold | ⟨call, _, hy⟩ | ⟨ch, x, hev, hx, hy⟩ | ⟨x, _, _, hy⟩
  · exact Or.inl hold
  · cases hy
  · exact Or.inr ⟨ch, x, hev, hx, hy.symm⟩
  · cases x <;> cases hy

/-- The calls stay on record. -/
theorem calls_step {i : Nat} {call : Call} (h : s.calls[i]? = some call) (ev : Event) :
    (s.step ev).1.calls[i]? = some call := by
  cases ev with
  | begin call' =>
    obtain ⟨hi, _⟩ := List.getElem?_eq_some_iff.mp h
    simp only [step]
    rw [List.getElem?_append_left hi, h]
  | abort => exact h
  | advance =>
    simp only [step]
    split <;> exact h

/-- One statement moves one transaction. -/
theorem sessions_advance {i : Nat} {x : Session} (hx : s.sessions[i]? = some x) (ch : Choice)
    (j : Nat) :
    (s.step (.advance i ch)).1.sessions[j]? =
      if j = i then some (x.next s.committed s.lockedTask s.lockedDlq ch)
      else s.sessions[j]? := by
  simp only [step, hx, List.getElem?_set]
  split
  · rename_i hij
    subst hij
    simp [(List.getElem?_eq_some_iff.mp hx).1]
  · rename_i hij
    rw [if_neg (Ne.symm hij)]

theorem committed_advance {i : Nat} {x : Session} (hx : s.sessions[i]? = some x) (ch : Choice) :
    (s.step (.advance i ch)).1.committed = x.commit s.committed := by
  simp only [step, hx]

/-- A call and its transaction after a begin were there before, or are the new ones. -/
theorem begin_cases (hpaired : s.calls.length = s.sessions.length) {call call' : Call} {j : Nat}
    {y : Session} (hcall : (s.step (.begin call)).1.calls[j]? = some call')
    (hy : (s.step (.begin call)).1.sessions[j]? = some y) :
    (s.calls[j]? = some call' ∧ s.sessions[j]? = some y) ∨ call' = call ∧ y = .begun call := by
  simp only [step] at hcall hy
  by_cases hj : j < s.calls.length
  · rw [List.getElem?_append_left hj] at hcall
    rw [List.getElem?_append_left (hpaired ▸ hj)] at hy
    exact Or.inl ⟨hcall, hy⟩
  · rw [List.getElem?_append_right (by omega)] at hcall hy
    exact Or.inr ⟨List.mem_singleton.mp (List.mem_of_getElem? hcall),
      List.mem_singleton.mp (List.mem_of_getElem? hy)⟩

end State

end Rdq.Postgres.ReadCommitted
