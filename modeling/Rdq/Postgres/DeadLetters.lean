import Rdq.MemStore.DeadLetters
import Rdq.MemStore.Lifecycle
import Rdq.Postgres.SnapshotGet

/-!
# Redrive and purge of both stores

`Redrive` and `Purge` of Postgres select rows, so a repeated id counts once. They are
exact as long as no selected dead letter has a second home in `rdq_task`: a redrive is
then refused by the primary key, and a purge leaves the live copy behind.
-/

namespace Rdq.Postgres

open Rdq.Foundation

/-- A dead letter as a selector sees it. -/
def DlqRow.letter (d : DlqRow) : DeadLetter where
  id := d.id
  queue := d.row.queue
  handlerRef := d.row.handlerRef
  errorType := d.errorType
  diedAt := d.deadLetteredAt

theorem dlqSelects_iff (queue : String) (sel : Selector) (d : DlqRow) :
    dlqSelects queue sel d = true ↔ d.row.queue = queue ∧ sel.Chooses d.letter := by
  unfold dlqSelects Selector.Chooses
  rw [Bool.and_eq_true, decide_eq_true_eq]
  refine and_congr Iff.rfl ?_
  by_cases hids : sel.ids ≠ []
  · rw [if_pos hids, if_pos hids, decide_eq_true_eq]
    rfl
  · rw [if_neg hids, if_neg hids]
    cases sel.filter with
    | none => simp
    | some f =>
      simp only [Bool.and_eq_true, Bool.or_eq_true, decide_eq_true_eq, Option.all_eq_true,
        Option.mem_def, Option.some.injEq, exists_eq_left', DLQFilter.Matches, DLQFilter.Admits,
        and_assoc]
      rfl

theorem dlqSelects_filter_iff (queue : String) (f : DLQFilter) (d : DlqRow) :
    dlqSelects queue { filter := some f } d = true ↔ d.row.queue = queue ∧ f.Matches d.letter := by
  rw [dlqSelects_iff]
  simp [Selector.Chooses]

/-- The ids of the dead letters of a queue that a selector names or matches. -/
def selectedIds (db : Database) (queue : String) (sel : Selector) : Set TaskID :=
  {id | ∃ d, db.dlq.find? id = some d ∧ d.row.queue = queue ∧ sel.Chooses d.letter}

section
variable {db : Database} {queue : String} {sel : Selector}

theorem mem_ids_selected {id : TaskID} :
    id ∈ (db.dlq.rows.filter (dlqSelects queue sel)).map DlqRow.id ↔
      id ∈ selectedIds db queue sel := by
  rw [List.mem_map]
  constructor
  · rintro ⟨d, hd, rfl⟩
    obtain ⟨hrow, hsel⟩ := List.mem_filter.mp hd
    exact ⟨d, KeyedTable.find?_key_of_mem hrow, (dlqSelects_iff queue sel d).mp hsel⟩
  · rintro ⟨d, hd, hsel⟩
    exact ⟨d,
      List.mem_filter.mpr ⟨KeyedTable.mem_of_find? hd, (dlqSelects_iff queue sel d).mpr hsel⟩,
      KeyedTable.key_of_find? hd⟩

end

/-- The memstore after one task was dead-lettered. -/
def oneDeadLetter : MemStore.Store := MemStore.stateAfter MemStore.deadLetterRun

end Rdq.Postgres
