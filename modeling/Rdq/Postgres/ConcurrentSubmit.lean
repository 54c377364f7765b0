import Rdq.Postgres.ReadCommitted

/-!
# Concurrent submits of one task

Any number of clients enqueue the same fresh id at once, through the Go or the
Java binding. The first INSERT wins; the others should answer as a submit that
comes later: success in the same queue, an id conflict in another one. The Go
binding waits for the winner and looks the queue up again. The Java binding
checks and inserts in one statement, whose check sees only what was committed
when the statement started. It answers correctly when no winner commits while
the statement runs, and otherwise runs into the primary key.
-/

namespace Rdq.Postgres.ReadCommitted

open Rdq.Foundation

/-- The call enqueues the task `id`. -/
def Call.enqueues (id : TaskID) (call : Call) : Bool :=
  call.enqueue?.any fun task => decide (task.id = id)

/-- The statement of a Java enqueue of `id` is under way. -/
def Session.waits (id : TaskID) : Session → Bool
  | absent task => decide (task.id = id)
  | _ => false

/-- The next step of transaction `i` commits an inserted row of `id`. -/
def State.commitsRow (s : State) (id : TaskID) (i : Nat) : Bool :=
  match s.sessions[i]? with
  | some (.written (.insertTask row)) => decide (row.id = id)
  | _ => false

/-- Tasks are storable, enqueues of `id` are not aborted, and no other transaction writes a row
of `id`. -/
def Submits (id : TaskID) (s : State) : Event → Prop
  | .begin call => ∀ task ∈ call.enqueue?, task.id = id → (taskRowFromEnvelope task).Storable
  | .advance i ch => ∀ call ∈ s.calls[i]?, call.enqueues id = false →
      ∀ x ∈ s.sessions[i]?, id ∉ (x.next s.committed s.lockedTask s.lockedDlq ch).taskIds
  | .abort i => ∀ call ∈ s.calls[i]?, call.enqueues id = false

/-- No row of `id` is committed while the statement of a Java enqueue of `id` is under way. -/
def NoneWaiting (id : TaskID) (s : State) : Event → Prop
  | .advance i _ => s.commitsRow id i = true → ∀ x ∈ s.sessions, x.waits id = false
  | _ => True

instance (id : TaskID) (s : State) : (ev : Event) → Decidable (Submits id s ev)
  | .begin _ => inferInstanceAs (Decidable (∀ task ∈ _, _))
  | .advance _ _ | .abort _ => inferInstanceAs (Decidable (∀ call ∈ _, _))

instance (id : TaskID) (s : State) : (ev : Event) → Decidable (NoneWaiting id s ev)
  | .advance _ _ => inferInstanceAs (Decidable (_ → _))
  | .begin _ | .abort _ => instDecidableTrue

/-- A bound on the statements an open enqueue still has to make, its commit included. -/
def Session.remaining : Session → Nat
  | begun _ => 3
  | insert _ | absent _ => 2
  | relookup _ | existingQueue _ | written _ => 1
  | ended _ | aborted => 0

/-! ## The stages of an enqueue -/

/-- Where an enqueue of `task` can stand, given the committed tables. -/
inductive Stage (t : Tables) (task : Envelope) : Session → Prop
  | begun (call : Call) (hcall : call.enqueue? = some task) : Stage t task (.begun call)
  | insert : Stage t task (.insert task)
  | absent (hnone : t.task.find? task.id = none) : Stage t task (.absent task)
  | relookup (row : TaskRow) (hrow : t.task.find? task.id = some row) :
      Stage t task (.relookup task)
  | existingQueue (row : TaskRow) (hrow : t.task.find? task.id = some row) :
      Stage t task (.existingQueue task)
  | written (row : TaskRow) (hid : row.id = task.id) (hqueue : row.queue = task.queue)
      (hnone : t.task.find? task.id = none) : Stage t task (.written (.insertTask row))
  | ended (row : TaskRow) (hrow : t.task.find? task.id = some row) :
      Stage t task (.ended (resubmitted task row.queue))

namespace Stage
variable {t : Tables} {task : Envelope} {x : Session}

/-- Each statement of an enqueue leads to a stage, as long as the task has no dead letter. -/
theorem next (h : Stage t task x) (hdead : t.dlq.find? task.id = none)
    (hstorable : (taskRowFromEnvelope task).Storable) (hopen : ∀ w, x ≠ .written w)
    (lockedTask lockedDlq : List TaskID) (ch : Choice) :
    Stage t task (x.next t lockedTask lockedDlq ch) := by
  cases h with
  | begun call hcall =>
    cases call with
    | goEnqueue task' =>
      cases hcall
      simp only [Session.next]
      cases hf : t.task.find? task.id with
      | none =>
        rw [Tables.lookupQueue_eq_none_iff.mpr ⟨hf, hdead⟩]
        exact .insert
      | some row =>
        rw [Tables.lookupQueue_of_task hf]
        exact .ended row hf
    | javaEnqueue task' =>
      cases hcall
      simp only [Session.next]
      cases hf : t.task.find? task.id with
      | none =>
        rw [Tables.taskRow?_eq_none_iff.mpr ⟨hf, hdead⟩]
        exact .absent hf
      | some row =>
        simp only [Tables.taskRow?, hf]
        exact .existingQueue row hf
    | _ => cases hcall
  | insert =>
    simp only [Session.next, not_true_eq_false, hstorable, if_false]
    split
    · exact .insert
    · split
      · rename_i hnone
        exact .written _ rfl rfl hnone
      · rename_i hsome
        obtain ⟨row, hrow⟩ := Option.ne_none_iff_exists'.mp hsome
        exact .relookup row hrow
  | absent hnone =>
    have hstorable' : (javaTaskRow task).Storable := hstorable
    simp only [Session.next, hstorable', not_true_eq_false, if_false]
    split
    · exact .absent hnone
    · rw [if_pos (show t.task.find? (javaTaskRow task).id = none from hnone)]
      exact .written _ rfl rfl hnone
  | relookup row hrow =>
    simp only [Session.next, Tables.lookupQueue_of_task hrow, Option.getD_some]
    exact .ended row hrow
  | existingQueue row hrow =>
    simp only [Session.next, Tables.lookupQueue_of_task hrow]
    exact .ended row hrow
  | written row => exact absurd rfl (hopen _)
  | ended row hrow => exact .ended row hrow

/-- An open enqueue waits for a transaction that has written its id, or gets closer to its end. -/
theorem progress (h : Stage t task x) (hopen : ∀ result, x ≠ .ended result)
    (lockedTask lockedDlq : List TaskID) (ch : Choice) :
    (x.inserting?.isSome = true ∧ task.id ∈ lockedTask) ∨
      (x.next t lockedTask lockedDlq ch).remaining < x.remaining := by
  cases h with
  | begun call hcall =>
    right
    cases call with
    | goEnqueue | javaEnqueue =>
      simp only [Session.next]
      split <;> simp [Session.remaining]
    | _ => cases hcall
  | insert | absent =>
    by_cases hlocked : task.id ∈ lockedTask
    · exact Or.inl ⟨rfl, hlocked⟩
    · right
      simp only [Session.next]
      split
      · simp [Session.remaining]
      · rw [if_neg (by exact hlocked)]
        split <;> simp [Session.remaining]
  | existingQueue row hrow =>
    right
    simp only [Session.next, Tables.lookupQueue_of_task hrow]
    simp [Session.remaining]
  | relookup | written => exact Or.inr Nat.zero_lt_one
  | ended => exact absurd rfl (hopen _)

/-- A commit that does not concern the task leaves the stage in place. -/
theorem mono {t' : Tables} (h : Stage t task x)
    (hsame : t'.task.find? task.id = t.task.find? task.id) : Stage t' task x := by
  cases h with
  | begun call hcall => exact .begun call hcall
  | insert => exact .insert
  | absent hnone => exact .absent (hsame.trans hnone)
  | relookup row hrow => exact .relookup row (hsame.trans hrow)
  | existingQueue row hrow => exact .existingQueue row (hsame.trans hrow)
  | written row hid hqueue hnone => exact .written row hid hqueue (hsame.trans hnone)
  | ended row hrow => exact .ended row (hsame.trans hrow)

/-- The commit of a winner moves no loser that has not written and is not in a Java statement. -/
theorem won {t' : Tables} (h : Stage t task x) (hnone : t.task.find? task.id = none)
    (hwaits : x.waits task.id = false) (hopen : ∀ w, x ≠ .written w) : Stage t' task x := by
  cases h with
  | begun call hcall => exact .begun call hcall
  | insert => exact .insert
  | absent => simp [Session.waits] at hwaits
  | written row => exact absurd rfl (hopen _)
  | relookup row hrow | existingQueue row hrow | ended row hrow =>
    rw [hnone] at hrow
    cases hrow

end Stage

/-! ## The invariant -/

/-- The enqueues of `id` stand at a stage, and at most one transaction has written the id without
having committed it, which is one of them. -/
structure SubmitInv (id : TaskID) (s : State) : Prop where
  paired : s.calls.length = s.sessions.length
  alive : s.committed.dlq.find? id = none
  storable : ∀ (i : Nat) (call : Call) (task : Envelope), s.calls[i]? = some call →
    call.enqueue? = some task → task.id = id → (taskRowFromEnvelope task).Storable
  stage : ∀ (i : Nat) (call : Call) (task : Envelope) (x : Session), s.calls[i]? = some call →
    call.enqueue? = some task → task.id = id → s.sessions[i]? = some x → Stage s.committed task x
  holder : ∀ (i : Nat) (w : Write), s.sessions[i]? = some (.written w) → id ∈ w.taskIds →
    ∃ call task, s.calls[i]? = some call ∧ call.enqueue? = some task ∧ task.id = id
  single : ∀ (i j : Nat) (w w' : Write), s.sessions[i]? = some (.written w) → id ∈ w.taskIds →
    s.sessions[j]? = some (.written w') → id ∈ w'.taskIds → i = j

variable {call : Call} {w : Write} {ch : Choice} {i : Nat} {task : Envelope}

theorem Call.enqueues_eq_true {id : TaskID} (h : call.enqueues id = true) :
    ∃ task, call.enqueue? = some task ∧ task.id = id := by
  simpa [Call.enqueues, Option.any_eq_true] using h

namespace SubmitInv
variable {id : TaskID} {s : State} {ev : Event}

theorem start {t : Tables} (h : t.dlq.find? id = none) : SubmitInv id (State.start t) where
  paired := rfl
  alive := h
  storable := by
    intro i call task hi
    cases hi
  stage := by
    intro i call task x hi
    cases hi
  holder := by
    intro i w hi
    cases hi
  single := by
    intro i j w w' hi
    cases hi

/-- The one transaction that has written `id` inserts a row of a free id. -/
theorem holder_row (h : SubmitInv id s) (hw : s.sessions[i]? = some (.written w))
    (hid : id ∈ w.taskIds) :
    ∃ row task, w = .insertTask row ∧ row.id = id ∧ row.queue = task.queue ∧
      s.committed.task.find? id = none ∧
      ∃ call, s.calls[i]? = some call ∧ call.enqueue? = some task ∧ task.id = id := by
  obtain ⟨call, task, hcall, henq, rfl⟩ := h.holder i w hw hid
  cases h.stage i call task _ hcall henq rfl hw with
  | written row hrow hqueue hnone =>
    exact ⟨row, task, rfl, hrow, hqueue, hnone, call, hcall, henq, rfl⟩

/-- No commit gives the task a dead letter. -/
theorem alive_step (h : SubmitInv id s) (ev : Event) :
    (s.step ev).1.committed.dlq.find? id = none := by
  rcases s.step_committed ev with hsame | ⟨i, ch, w, _, hw, happly⟩
  · rw [hsame]
    exact h.alive
  · rw [happly]
    refine dlq_apply_eq_none h.alive ?_
    rintro dead rfl heq
    obtain ⟨row, _, hrow, _⟩ := h.holder_row hw (by simp [Write.taskIds, heq])
    cases hrow

theorem paired_step (h : SubmitInv id s) (ev : Event) :
    (s.step ev).1.calls.length = (s.step ev).1.sessions.length := by
  cases ev with
  | begin call => simp [State.step, h.paired]
  | abort i => simp [State.step, h.paired]
  | advance i ch =>
    simp only [State.step]
    split <;> simp [h.paired]

theorem storable_step (h : SubmitInv id s) (hs : Submits id s ev)
    (hcall : (s.step ev).1.calls[i]? = some call) (henq : call.enqueue? = some task)
    (hid : task.id = id) :
    (taskRowFromEnvelope task).Storable := by
  cases ev with
  | begin call' =>
    rcases List.mem_append.mp (List.mem_of_getElem? hcall) with hold | hnew
    · obtain ⟨j, hj⟩ := List.mem_iff_getElem?.mp hold
      exact h.storable j call task hj henq hid
    · obtain rfl := List.mem_singleton.mp hnew
      exact hs task henq hid
  | abort j => exact h.storable i call task hcall henq hid
  | advance j ch =>
    simp only [State.step] at hcall
    split at hcall <;> exact h.storable i call task hcall henq hid

/-- The commit of a winner: it answers success, and every other enqueue can go on. -/
theorem stage_commit (h : SubmitInv id s) {i j : Nat} (hn : NoneWaiting id s (.advance i ch))
    (hw : s.sessions[i]? = some (.written w)) (hid : id ∈ w.taskIds) {y : Session}
    (hcall : s.calls[j]? = some call) (henq : call.enqueue? = some task) (htask : task.id = id)
    (hy : (s.step (.advance i ch)).1.sessions[j]? = some y) :
    Stage (w.apply s.committed) task y := by
  obtain ⟨row, task₀, rfl, hrow, hqueue, hnone, call₀, hcall₀, henq₀, _⟩ := h.holder_row hw hid
  have hcommits : s.commitsRow id i = true := by simp [State.commitsRow, hw, hrow]
  rw [State.sessions_advance hw] at hy
  subst htask
  by_cases hj : j = i
  · subst hj
    rw [if_pos rfl] at hy
    cases hy
    obtain rfl := Option.some.inj (hcall₀.symm.trans hcall)
    obtain rfl := Option.some.inj (henq₀.symm.trans henq)
    have hnew : ((Write.insertTask row).apply s.committed).task.find? task₀.id = some row := by
      rw [← hrow] at hnone ⊢
      exact KeyedTable.find?_insertNew_self hnone
    have hok : resubmitted task₀ row.queue = .ok () := by simp [resubmitted, hqueue]
    have hended := Stage.ended row hnew
    rw [hok] at hended
    exact hended
  · rw [if_neg hj] at hy
    have hstage := h.stage j call task y hcall henq rfl hy
    refine hstage.won hnone (hn hcommits y (List.mem_of_getElem? hy)) ?_
    rintro w' rfl
    cases hstage with
    | written row' hrow' =>
      exact hj (h.single j i _ _ hy (by simp [Write.taskIds, hrow']) hw hid)

theorem stage_advance (h : SubmitInv id s) {i j : Nat} {x : Session}
    (hn : NoneWaiting id s (.advance i ch)) (hx : s.sessions[i]? = some x) {y : Session}
    (hcall : s.calls[j]? = some call) (henq : call.enqueue? = some task) (htask : task.id = id)
    (hy : (s.step (.advance i ch)).1.sessions[j]? = some y) :
    Stage (s.step (.advance i ch)).1.committed task y := by
  rw [State.committed_advance hx]
  by_cases hopen : ∃ w, x = .written w
  · obtain ⟨w, rfl⟩ := hopen
    by_cases hid : id ∈ w.taskIds
    · exact h.stage_commit hn hx hid hcall henq htask hy
    · have hsame : (w.apply s.committed).task.find? task.id =
          s.committed.task.find? task.id := by
        rw [htask]
        exact task_apply_of_not_mem hid
      rw [State.sessions_advance hx] at hy
      by_cases hj : j = i
      · -- an enqueue of the id that has written holds its id
        subst hj
        cases h.stage j call task _ hcall henq htask hx with
        | written row hrow => exact absurd (by simp [Write.taskIds, hrow, htask]) hid
      · rw [if_neg hj] at hy
        exact (h.stage j call task y hcall henq htask hy).mono hsame
  · push Not at hopen
    have hcommit : x.commit s.committed = s.committed := by
      cases x with
      | written w => exact absurd rfl (hopen w)
      | _ => rfl
    rw [hcommit]
    rw [State.sessions_advance hx] at hy
    by_cases hj : j = i
    · subst hj
      rw [if_pos rfl] at hy
      cases hy
      exact (h.stage j call task x hcall henq htask hx).next (htask ▸ h.alive)
        (h.storable j call task hcall henq htask) hopen _ _ ch
    · rw [if_neg hj] at hy
      exact h.stage j call task y hcall henq htask hy

theorem stage_step (h : SubmitInv id s) (hs : Submits id s ev) (hn : NoneWaiting id s ev) {j : Nat}
    {y : Session} (hcall : (s.step ev).1.calls[j]? = some call) (henq : call.enqueue? = some task)
    (htask : task.id = id) (hy : (s.step ev).1.sessions[j]? = some y) :
    Stage (s.step ev).1.committed task y := by
  cases ev with
  | begin call' =>
    rcases State.begin_cases h.paired hcall hy with ⟨hcall, hy⟩ | ⟨rfl, rfl⟩
    · exact h.stage j call task y hcall henq htask hy
    · exact .begun call henq
  | abort i =>
    have hne : i ≠ j := by
      rintro rfl
      have hfalse := hs call hcall
      simp [Call.enqueues, henq, htask] at hfalse
    simp only [State.step, List.getElem?_modify, if_neg hne, Option.map_eq_map,
      Option.map_id_fun', id_eq] at hy
    exact h.stage j call task y hcall henq htask hy
  | advance i ch =>
    cases hx : s.sessions[i]? with
    | none =>
      simp only [State.step, hx] at hcall hy ⊢
      exact h.stage j call task y hcall henq htask hy
    | some x =>
      have hcall' : s.calls[j]? = some call := by
        simpa only [State.step, hx] using hcall
      exact h.stage_advance hn hx hcall' henq htask hy

/-- Only an enqueue of `id` comes to hold it. -/
theorem enqueues_of_next (h : SubmitInv id s) {x : Session} (hs : Submits id s (.advance i ch))
    (hx : s.sessions[i]? = some x)
    (hnext : x.next s.committed s.lockedTask s.lockedDlq ch = .written w) (hid : id ∈ w.taskIds) :
    ∃ call task, s.calls[i]? = some call ∧ call.enqueue? = some task ∧ task.id = id := by
  obtain ⟨hi, _⟩ := List.getElem?_eq_some_iff.mp hx
  rw [← h.paired] at hi
  have hcall : s.calls[i]? = some s.calls[i] := List.getElem?_eq_getElem hi
  by_cases henq : s.calls[i].enqueues id = true
  · obtain ⟨task, htask, hid⟩ := Call.enqueues_eq_true henq
    exact ⟨_, task, hcall, htask, hid⟩
  · have hnot := hs _ hcall (Bool.eq_false_iff.mpr henq) x hx
    rw [hnext] at hnot
    exact absurd hid hnot

theorem holder_step (h : SubmitInv id s) (hs : Submits id s ev)
    (hw : (s.step ev).1.sessions[i]? = some (.written w)) (hid : id ∈ w.taskIds) :
    ∃ call task, (s.step ev).1.calls[i]? = some call ∧ call.enqueue? = some task ∧
      task.id = id := by
  rcases State.written_origin hw with hold | ⟨ch, x, rfl, hx, hnext⟩
  · obtain ⟨call, task, hcall, hrest⟩ := h.holder i w hold hid
    exact ⟨call, task, State.calls_step hcall ev, hrest⟩
  · obtain ⟨call, task, hcall, hrest⟩ := h.enqueues_of_next hs hx hnext hid
    exact ⟨call, task, State.calls_step hcall _, hrest⟩

/-- The id is free when a transaction comes to hold it. -/
theorem free_of_next (h : SubmitInv id s) {x : Session} (hs : Submits id s (.advance i ch))
    (hx : s.sessions[i]? = some x)
    (hnext : x.next s.committed s.lockedTask s.lockedDlq ch = .written w) (hid : id ∈ w.taskIds) :
    id ∉ s.lockedTask := by
  obtain ⟨call, task, hcall, henq, rfl⟩ := h.enqueues_of_next hs hx hnext hid
  have hopen : ∀ w', x ≠ .written w' := by
    rintro w' rfl
    cases hnext
  have hstage := (h.stage i call task x hcall henq rfl hx).next h.alive
    (h.storable i call task hcall henq rfl) hopen s.lockedTask s.lockedDlq ch
  rw [hnext] at hstage
  cases hstage with
  | written row hrow =>
    rcases next_eq_written hnext with
      ⟨task', row', _, hw, hid', _, hfree, _⟩ | ⟨dead, hdead, _⟩ | ⟨hno, _⟩
    · cases hw
      rw [← hrow, hid']
      exact hfree
    · cases hdead
    · exact absurd rfl (hno row)

theorem single_step (h : SubmitInv id s) (hs : Submits id s ev) {i j : Nat} {w w' : Write}
    (hi : (s.step ev).1.sessions[i]? = some (.written w)) (hid : id ∈ w.taskIds)
    (hj : (s.step ev).1.sessions[j]? = some (.written w')) (hid' : id ∈ w'.taskIds) : i = j := by
  rcases State.written_origin hi with holdi | ⟨ch, x, rfl, hx, hnext⟩
  · rcases State.written_origin hj with holdj | ⟨ch, x, rfl, hx, hnext⟩
    · exact h.single i j w w' holdi hid holdj hid'
    · exact absurd (State.mem_lockedTask holdi hid) (h.free_of_next hs hx hnext hid')
  · rcases State.written_origin hj with holdj | ⟨_, _, hev, _, _⟩
    · exact absurd (State.mem_lockedTask holdj hid') (h.free_of_next hs hx hnext hid)
    · cases hev
      rfl

theorem step (h : SubmitInv id s) (hs : Submits id s ev) (hn : NoneWaiting id s ev) :
    SubmitInv id (s.step ev).1 where
  paired := h.paired_step ev
  alive := h.alive_step ev
  storable := fun _ _ _ hcall henq hid => h.storable_step hs hcall henq hid
  stage := fun _ _ _ _ hcall henq hid hy => h.stage_step hs hn hcall henq hid hy
  holder := fun _ _ hw hid => h.holder_step hs hw hid
  single := fun _ _ _ _ hi hid hj hid' => h.single_step hs hi hid hj hid'

end SubmitInv

/-! ## Exactly one insert -/

/-- The event commits an inserted row of `id`. -/
def State.inserts (s : State) (id : TaskID) : Event → Bool
  | .advance i _ => s.commitsRow id i
  | _ => false

/-- How many transactions of a trace inserted the task. -/
def insertions (id : TaskID) (tr : List (Entry State Event Unit)) : Nat :=
  tr.countP fun e => e.pre.inserts id e.input

namespace SubmitInv
variable {id : TaskID} {s : State} {ev : Event}

/-- An insert is committed only while the task is not stored, and stores it. -/
theorem find?_of_inserts (h : SubmitInv id s) (hins : s.inserts id ev = true) :
    s.committed.task.find? id = none ∧ (s.step ev).1.committed.task.find? id ≠ none := by
  cases ev with
  | advance i ch =>
    simp only [State.inserts, State.commitsRow] at hins
    split at hins
    · rename_i row hw
      have hrow : row.id = id := of_decide_eq_true hins
      obtain ⟨_, _, _, _, _, hnone, _⟩ := h.holder_row hw (by simp [Write.taskIds, hrow])
      refine ⟨hnone, ?_⟩
      rw [State.committed_advance hw]
      subst hrow
      have hnew : ((Write.insertTask row).apply s.committed).task.find? row.id = some row :=
        KeyedTable.find?_insertNew_self hnone
      rw [Session.commit, hnew]
      exact Option.some_ne_none row
    · cases hins
  | begin | abort => cases hins

/-- Nothing else touches the row of the task. -/
theorem find?_of_not_inserts (h : SubmitInv id s) (hins : s.inserts id ev = false) :
    (s.step ev).1.committed.task.find? id = s.committed.task.find? id := by
  rcases s.step_committed ev with hsame | ⟨i, ch, w, rfl, hw, happly⟩
  · rw [hsame]
  · rw [happly]
    apply task_apply_of_not_mem
    intro hid
    obtain ⟨row, _, rfl, hrow, _⟩ := h.holder_row hw hid
    simp [State.inserts, State.commitsRow, hw, hrow] at hins

end SubmitInv

/-- Fresh ids, concurrent enqueues of which no Java statement is under way when the winner commits:
an enqueue that has ended answers as a later submit of the one inserted row would, and one that has
not ended waits for a transaction that has written the id, or gets closer to its end. -/
theorem concurrent_submit (id : TaskID) (t : Tables) (hfresh : t.taskRow? id = none)
    (evs : List Event)
    (hall : AllSteps State.step (fun s ev => Submits id s ev ∧ NoneWaiting id s ev)
      (State.start t) evs) (i : Nat) (call : Call) (task : Envelope) (x : Session)
    (hcall : (run State.step (State.start t) evs).calls[i]? = some call)
    (henq : call.enqueue? = some task) (hid : task.id = id)
    (hx : (run State.step (State.start t) evs).sessions[i]? = some x) :
    (∀ result, x = .ended result →
        insertions id (trace State.step (State.start t) evs) = 1 ∧
        ∃ row, (run State.step (State.start t) evs).committed.task.find? id = some row ∧
          (task.queue = row.queue → result = .ok ()) ∧
          (task.queue ≠ row.queue → result = .error .idConflict)) ∧
      ((∃ result, x = .ended result) ∨
        (x.inserting?.isSome = true ∧ id ∈ (run State.step (State.start t) evs).lockedTask) ∨
        ∀ ch, (x.next (run State.step (State.start t) evs).committed
          (run State.step (State.start t) evs).lockedTask
          (run State.step (State.start t) evs).lockedDlq ch).remaining < x.remaining) := by
  obtain ⟨hnone, hdead⟩ := Tables.taskRow?_eq_none_iff.mp hfresh
  -- the count follows the row of the task: none before the insert, one afterwards
  have hinv : SubmitInv id (run State.step (State.start t) evs) ∧
      insertions id (trace State.step (State.start t) evs) =
        if (run State.step (State.start t) evs).committed.task.find? id = none then 0 else 1 := by
    refine trace_invariant (P := fun tr s => SubmitInv id s ∧
      insertions id tr = if s.committed.task.find? id = none then 0 else 1)
      ⟨SubmitInv.start hdead, by simp [insertions, State.start, hnone]⟩ ?_ hall
    rintro tr s ev ⟨h, hcount⟩ ⟨hs, hn⟩
    refine ⟨h.step hs hn, ?_⟩
    have hadd : insertions id (tr ++ [entry State.step s ev]) =
        insertions id tr + if s.inserts id ev = true then 1 else 0 := by
      simp [insertions, List.countP_append, List.countP_singleton, entry]
    rw [hadd, hcount]
    cases hins : s.inserts id ev with
    | true =>
      obtain ⟨hbefore, hafter⟩ := h.find?_of_inserts hins
      simp [hbefore, hafter]
    | false => simp [h.find?_of_not_inserts hins]
  obtain ⟨h, hcount⟩ := hinv
  have hstage := h.stage i call task x hcall henq hid hx
  constructor
  · rintro result rfl
    subst hid
    cases hstage with
    | ended row hrow =>
      refine ⟨by simp [hcount, hrow], row, hrow, ?_, ?_⟩
      · intro hqueue
        simp [resubmitted, hqueue]
      · intro hqueue
        simp [resubmitted, Ne.symm hqueue]
  · by_cases hended : ∃ result, x = .ended result
    · exact Or.inl hended
    · right
      push Not at hended
      by_cases hwait : x.inserting?.isSome = true ∧
          id ∈ (run State.step (State.start t) evs).lockedTask
      · exact Or.inl hwait
      · right
        intro ch
        subst hid
        exact (hstage.progress hended _ _ ch).resolve_left hwait

/-- Two Go enqueues race for an id, and a Java enqueue for another queue comes after them. -/
def goRace : List Event :=
  let ch : Choice := ⟨[], fun _ => ""⟩
  [.begin (.goEnqueue (.submitted "t" "q" "h" 0)), .begin (.goEnqueue (.submitted "t" "q" "h" 0)),
    .advance 0 ch, .advance 1 ch, .advance 0 ch, .advance 1 ch, .advance 0 ch, .advance 1 ch,
    .advance 1 ch, .begin (.javaEnqueue (.submitted "t" "other" "h" 0)), .advance 2 ch,
    .advance 2 ch]

theorem concurrent_submit_goRace :
    AllSteps State.step (fun s ev => Submits "t" s ev ∧ NoneWaiting "t" s ev)
        (State.start Tables.new) goRace ∧
      insertions "t" (trace State.step (State.start Tables.new) goRace) = 1 := by
  have hall : AllSteps State.step (fun s ev => Submits "t" s ev ∧ NoneWaiting "t" s ev)
      (State.start Tables.new) goRace := by decide
  exact ⟨hall, ((concurrent_submit "t" Tables.new rfl goRace hall 2
    (.javaEnqueue (.submitted "t" "other" "h" 0)) _ (.ended (.error .idConflict)) rfl rfl rfl
    rfl).1 _ rfl).1⟩

/-- Two Java enqueues of one task in one queue: both statements start before the first one
commits. -/
def javaRace : List Event :=
  let ch : Choice := ⟨[], fun _ => ""⟩
  [.begin (.javaEnqueue (.submitted "t" "q" "h" 0)),
    .begin (.javaEnqueue (.submitted "t" "q" "h" 0)), .advance 0 ch, .advance 1 ch, .advance 0 ch,
    .advance 1 ch, .advance 0 ch, .advance 1 ch]

/-- The second enqueue fails on the primary key instead of answering success. -/
theorem java_race_fails_on_primary_key :
    AllSteps State.step (Submits "t") (State.start Tables.new) javaRace ∧
      (run State.step (State.start Tables.new) javaRace).sessions[1]? =
        some (.ended (.error (.uniqueViolation "rdq/postgres: transaction failed"))) :=
  ⟨by decide, rfl⟩

end Rdq.Postgres.ReadCommitted
