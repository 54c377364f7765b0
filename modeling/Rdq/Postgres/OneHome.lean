import Rdq.Postgres.ReadCommitted

/-!
# One home per task

Nothing in the schema keeps a task out of both tables at once. DeadLetter and
Redrive move a row in one statement, so only an Enqueue can give a dead letter a
second home: it looks for the id in both tables, and inserts in a later
statement that is checked against `rdq_task` alone. As long as every such INSERT
finds the id free in `rdq_dlq_task` as well, no committed state holds a task
twice. A task that is dead-lettered between the two statements comes back as a
second, fresh copy.
-/

namespace Rdq.Postgres.ReadCommitted

open Rdq.Foundation

/-- No task is in both tables. -/
def OneHome (t : Tables) : Prop :=
  ∀ id, t.task.find? id = none ∨ t.dlq.find? id = none

/-- An Enqueue whose INSERT finds its id free in `rdq_task` finds it free in `rdq_dlq_task`. -/
def InsertClear (s : State) : Event → Prop
  | .advance i _ => ∀ task ∈ s.sessions[i]?.bind Session.inserting?,
      task.id ∉ s.lockedTask → s.committed.task.find? task.id = none →
        s.committed.dlq.find? task.id = none
  | _ => True

instance (s : State) : (ev : Event) → Decidable (InsertClear s ev)
  | .advance _ _ => inferInstanceAs (Decidable (∀ task ∈ _, _))
  | .begin _ | .abort _ => instDecidableTrue

/-- While an inserted task is not committed, it has no dead letter and none is on its way. -/
structure HomeInv (s : State) : Prop where
  home : OneHome s.committed
  inserted : ∀ (i : Nat) (row : TaskRow), s.sessions[i]? = some (.written (.insertTask row)) →
    s.committed.dlq.find? row.id = none
  apart : ∀ (i j : Nat) (row : TaskRow) (dead : DlqRow),
    s.sessions[i]? = some (.written (.insertTask row)) →
    s.sessions[j]? = some (.written (.deadLetter dead)) → dead.id ≠ row.id

namespace HomeInv
variable {s : State} {ev : Event}

theorem new : HomeInv State.new where
  home := fun _ => Or.inl rfl
  inserted := by
    intro i row h
    cases h
  apart := by
    intro i j row dead h
    cases h

/-- The commit of a write keeps every task in one table. -/
theorem apply_home (h : HomeInv s) {i : Nat} {w : Write}
    (hw : s.sessions[i]? = some (.written w)) : OneHome (w.apply s.committed) := by
  intro id
  cases w with
  | insertTask row =>
    by_cases hid : row.id = id
    · subst hid
      exact Or.inr (h.inserted i row hw)
    · rcases h.home id with ht | hd
      · left
        exact task_apply_eq_none ht (by rintro _ ⟨⟩; exact hid) (fun _ _ hc => by cases hc)
      · exact Or.inr hd
  | deadLetter dead =>
    by_cases hid : dead.id = id
    · subst hid
      exact Or.inl (KeyedTable.find?_erase_self _ _)
    · rcases h.home id with ht | hd
      · left
        exact task_apply_eq_none ht (fun _ hc => by cases hc) (fun _ _ hc => by cases hc)
      · right
        exact dlq_apply_eq_none hd (by rintro _ ⟨⟩; exact hid)
  | redrive rows now =>
    by_cases hid : id ∈ rows.map DlqRow.id
    · right
      refine (KeyedTable.find?_deleteWhere _ _ id).trans ?_
      rw [Option.filter_eq_none_iff]
      intro d hd
      have hkey : d.id = id := KeyedTable.key_of_find? hd
      simpa [hkey] using hid
    · rcases h.home id with ht | hd
      · left
        exact task_apply_eq_none ht (fun _ hc => by cases hc) (by rintro _ _ ⟨⟩; exact hid)
      · right
        exact dlq_apply_eq_none hd (fun _ hc => by cases hc)
  | claim | purge =>
    rcases h.home id with ht | hd
    · left
      exact task_apply_eq_none ht (fun _ hc => by cases hc) (fun _ _ hc => by cases hc)
    · right
      exact dlq_apply_eq_none hd (fun _ hc => by cases hc)

theorem home_step (h : HomeInv s) (ev : Event) : OneHome (s.step ev).1.committed := by
  rcases s.step_committed ev with hsame | ⟨i, ch, w, _, hw, happly⟩
  · rw [hsame]
    exact h.home
  · rw [happly]
    exact h.apply_home hw

/-- What is known of the id of an inserted row before the event that leaves it uncommitted. -/
theorem inserted_before (h : HomeInv s) (hc : InsertClear s ev) {i : Nat} {row : TaskRow}
    (hi : (s.step ev).1.sessions[i]? = some (.written (.insertTask row))) :
    s.committed.dlq.find? row.id = none ∧
      ∀ (j : Nat) (dead : DlqRow), s.sessions[j]? = some (.written (.deadLetter dead)) →
        dead.id ≠ row.id := by
  rcases State.written_origin hi with hold | ⟨ch, x, rfl, hx, hnext⟩
  · exact ⟨h.inserted i row hold, fun j dead hj => h.apart i j row dead hold hj⟩
  · rcases next_eq_written hnext with
      ⟨task, row', hins, hrow, hid, _, hfree, hnone⟩ | ⟨dead, hdead, _⟩ | ⟨hno, _⟩
    · cases hrow
      rw [hid]
      refine ⟨hc task (by simp [hx, hins]) hfree hnone, ?_⟩
      intro j dead hj heq
      exact hfree (State.mem_lockedTask hj (by simp [Write.taskIds, heq]))
    · cases hdead
    · exact absurd rfl (hno row)

theorem inserted_step (h : HomeInv s) (hc : InsertClear s ev) {i : Nat} {row : TaskRow}
    (hi : (s.step ev).1.sessions[i]? = some (.written (.insertTask row))) :
    (s.step ev).1.committed.dlq.find? row.id = none := by
  obtain ⟨hnone, hapart⟩ := h.inserted_before hc hi
  rcases s.step_committed ev with hsame | ⟨j, ch, w, _, hw, happly⟩
  · rw [hsame]
    exact hnone
  · rw [happly]
    refine dlq_apply_eq_none hnone ?_
    rintro dead rfl
    exact hapart j dead hw

theorem apart_step (h : HomeInv s) (hc : InsertClear s ev) {i j : Nat} {row : TaskRow}
    {dead : DlqRow} (hi : (s.step ev).1.sessions[i]? = some (.written (.insertTask row)))
    (hj : (s.step ev).1.sessions[j]? = some (.written (.deadLetter dead))) :
    dead.id ≠ row.id := by
  rcases State.written_origin hj with hold | ⟨ch, x, rfl, _, hnext⟩
  · exact (h.inserted_before hc hi).2 j dead hold
  · -- the dead letter is new, so it took its lock while the inserted row held one
    rcases next_eq_written hnext with ⟨_, _, _, hc, _⟩ | ⟨dead', hdead, hfree⟩ | ⟨_, hno⟩
    · cases hc
    · cases hdead
      rcases State.written_origin hi with hold | ⟨_, _, hev, _, _⟩
      · intro heq
        exact hfree (State.mem_lockedTask hold (by simp [Write.taskIds, heq]))
      · cases hev
        cases hi.symm.trans hj
    · exact absurd rfl (hno dead)

theorem step (h : HomeInv s) (hc : InsertClear s ev) : HomeInv (s.step ev).1 where
  home := h.home_step ev
  inserted := fun _ _ hi => h.inserted_step hc hi
  apart := fun _ _ _ _ hi hj => h.apart_step hc hi hj

end HomeInv

/-- In every interleaving of statements in which each INSERT of an Enqueue finds its id free among
the dead letters, no committed state holds a task in both tables. -/
theorem one_home (evs : List Event) (hall : AllSteps State.step InsertClear State.new evs) :
    OneHome (State.after evs).committed :=
  (run_invariant HomeInv.new (fun _ _ h hc => h.step hc) hall).home

/-! ## A retry that overtakes a dead letter -/

/-- One Enqueue of a task starts and makes its lookup. A second one submits the task, and the task
is claimed and dead-lettered. -/
def overtaken : List Event :=
  let ch : Choice := ⟨["t"], fun _ => "u1"⟩
  let task := Envelope.submitted "t" "q" "h" 0
  let failure : Attempt :=
    { attemptNo := 1, startedAt := 0, finishedAt := some 1, outcome := .permanentFailure
      error := none, residual := StringMap.empty }
  [.begin (.goEnqueue task), .advance 0 ch,
    .begin (.goEnqueue task), .advance 1 ch, .advance 1 ch, .advance 1 ch,
    .begin (.claimDue "q" 1 10 0), .advance 2 ch, .advance 2 ch,
    .begin (.deadLetter "t" "u1" failure 1), .advance 3 ch, .advance 3 ch]

theorem one_home_overtaken :
    ((State.after overtaken).committed.dlq.find? "t").isSome = true ∧
      OneHome (State.after overtaken).committed :=
  ⟨by decide, one_home overtaken (by decide)⟩

/-- The first Enqueue goes on: its INSERT meets no row of `rdq_task`, and it commits. -/
theorem overtaken_enqueue_gives_second_home :
    ¬ OneHome (State.after (overtaken ++
      [.advance 0 ⟨[], fun _ => ""⟩, .advance 0 ⟨[], fun _ => ""⟩])).committed := by
  intro h
  rcases h "t" with ht | hd
  · revert ht
    decide
  · revert hd
    decide

end Rdq.Postgres.ReadCommitted
