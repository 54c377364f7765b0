import Rdq.Core.DeadLetters
import Rdq.MemStore.Transition

/-!
# Redrive and purge of the memstore

`Redrive` and `Purge` go through the selected records one after the other, and a
selector may name a record twice. They affect and count every selected task once
exactly when no id of a dead letter is repeated.
-/

namespace Rdq.MemStore

open Rdq.Foundation

/-- A DEAD record as a selector sees it. -/
def Record.letter (r : Record) : DeadLetter where
  id := r.id
  queue := r.env.queue
  handlerRef := r.env.handlerRef
  errorType := (r.env.attempts.getLast?.bind Attempt.error).map TaskError.type
  diedAt := r.terminalAt

theorem matchFilter_iff (r : Record) (f : DLQFilter) :
    matchFilter r f = true ↔ f.Matches r.letter := by
  have herror : finalErrorTypeIs r.env f.errorType = true ↔
      r.letter.errorType = some f.errorType := by
    unfold finalErrorTypeIs Record.letter
    cases r.env.attempts.getLast? with
    | none => simp
    | some last => cases hlast : last.error <;> simp [hlast]
  have hafter : (f.deadLetteredAfter.any fun t => decide (r.terminalAt < t)) = true ↔
      ¬∀ t ∈ f.deadLetteredAfter, t ≤ r.letter.diedAt := by
    cases f.deadLetteredAfter <;> simp [Record.letter]
  have hbefore : (f.deadLetteredBefore.any fun t => decide (¬r.terminalAt < t)) = true ↔
      ¬∀ t ∈ f.deadLetteredBefore, r.letter.diedAt < t := by
    cases f.deadLetteredBefore <;> simp [Record.letter]
  have hchecks : matchFilter r f = true ↔
      ¬(f.handlerRef ≠ "" ∧ r.env.handlerRef ≠ f.handlerRef) ∧
        ¬(f.errorType ≠ "" ∧ ¬finalErrorTypeIs r.env f.errorType = true) ∧
        ¬(f.deadLetteredAfter.any fun t => decide (r.terminalAt < t)) = true ∧
        ¬(f.deadLetteredBefore.any fun t => decide (¬r.terminalAt < t)) = true := by
    unfold matchFilter
    split_ifs <;> simp_all
  rw [hchecks, hafter, hbefore, herror, not_not, not_not, not_and_or, not_and_or, not_not, not_not,
    not_not, not_not]
  rfl

/-- The ids of the dead letters of a queue that a selector names or matches. -/
def selectedIds (s : Store) (queue : String) (sel : Selector) : Set TaskID :=
  {id | ∃ r, s.tasks.find? id = some r ∧ r.env.queue = queue ∧ r.env.status = .dead ∧
    sel.Chooses r.letter}

/-- A dead letter of the queue has the id. -/
def Store.isDeadIn (s : Store) (queue : String) (id : TaskID) : Bool :=
  (s.tasks.find? id).any fun r => decide (r.env.queue = queue ∧ r.env.status = .dead)

section
variable {s : Store} {queue : String} {sel : Selector}

/-- Selecting by ids keeps the ids of dead letters, with their repetitions. -/
theorem ids_selectDead_of_ids (h : sel.ids ≠ []) :
    (s.selectDead queue sel).map Record.id = sel.ids.filter (s.isDeadIn queue) := by
  have hstep : ∀ id, ((s.tasks.find? id).filter fun r =>
      decide (r.env.queue = queue ∧ r.env.status = .dead)).map Record.id =
        Option.guard (s.isDeadIn queue) id := by
    intro id
    rw [Option.guard, Store.isDeadIn]
    cases hf : s.tasks.find? id with
    | none => rfl
    | some r =>
      rw [Option.any_some, Option.filter_some]
      split
      · exact congrArg some (KeyedTable.key_of_find? hf)
      · rfl
  rw [Store.selectDead, if_pos h, List.map_filterMap, List.filterMap_congr fun id _ => hstep id,
    List.filterMap_eq_filter]

theorem ids_selectDead_nodup_of_filter (h : sel.ids = []) :
    ((s.selectDead queue sel).map Record.id).Nodup := by
  rw [Store.selectDead, if_neg (not_not.mpr h)]
  split
  · exact List.nodup_nil
  · exact (List.filter_sublist.map Record.id).nodup s.tasks.keys_nodup

theorem mem_ids_selectDead {id : TaskID} :
    id ∈ (s.selectDead queue sel).map Record.id ↔ id ∈ selectedIds s queue sel := by
  by_cases hids : sel.ids ≠ []
  · rw [ids_selectDead_of_ids hids, List.mem_filter, Store.isDeadIn, Option.any_eq_true]
    constructor
    · rintro ⟨hid, r, hr, hp⟩
      rw [decide_eq_true_eq] at hp
      refine ⟨r, hr, hp.1, hp.2, ?_⟩
      rw [Selector.Chooses, if_pos hids]
      change r.id ∈ sel.ids
      rwa [KeyedTable.key_of_find? hr]
    · rintro ⟨r, hr, hqueue, hdead, hchosen⟩
      rw [Selector.Chooses, if_pos hids] at hchosen
      exact ⟨KeyedTable.key_of_find? hr ▸ hchosen, r, hr, decide_eq_true ⟨hqueue, hdead⟩⟩
  · have hmem : ∀ r, r ∈ s.selectDead queue sel ↔ r ∈ s.tasks.rows ∧ r.env.queue = queue ∧
        r.env.status = .dead ∧ sel.Chooses r.letter := by
      intro r
      rw [Store.selectDead, if_neg hids, Selector.Chooses, if_neg hids]
      cases sel.filter with
      | none => simp
      | some f => simp [matchFilter_iff]
    rw [List.mem_map]
    constructor
    · rintro ⟨r, hr, rfl⟩
      obtain ⟨hrow, hsel⟩ := (hmem r).mp hr
      exact ⟨r, KeyedTable.find?_key_of_mem hrow, hsel⟩
    · rintro ⟨r, hr, hsel⟩
      exact ⟨r, (hmem r).mpr ⟨KeyedTable.mem_of_find? hr, hsel⟩, KeyedTable.key_of_find? hr⟩

/-- No dead letter of the queue is named twice. -/
def NamedOnce (s : Store) (queue : String) (sel : Selector) : Prop :=
  ∀ id r, s.tasks.find? id = some r → r.env.queue = queue → r.env.status = .dead →
    sel.ids.count id ≤ 1

theorem ids_selectDead_nodup_iff :
    ((s.selectDead queue sel).map Record.id).Nodup ↔ NamedOnce s queue sel := by
  by_cases hids : sel.ids ≠ []
  · rw [ids_selectDead_of_ids hids, List.nodup_iff_count_le_one]
    have hdead : ∀ id, s.isDeadIn queue id = true ↔
        ∃ r, s.tasks.find? id = some r ∧ r.env.queue = queue ∧ r.env.status = .dead := by
      intro id
      rw [Store.isDeadIn, Option.any_eq_true]
      simp only [decide_eq_true_eq]
    constructor
    · intro h id r hr hqueue hst
      have hcount := h id
      rwa [List.count_filter ((hdead id).mpr ⟨r, hr, hqueue, hst⟩)] at hcount
    · intro h id
      by_cases hp : s.isDeadIn queue id = true
      · obtain ⟨r, hr, hqueue, hst⟩ := (hdead id).mp hp
        rw [List.count_filter hp]
        exact h id r hr hqueue hst
      · rw [List.count_eq_zero_of_not_mem fun hmem => hp (List.mem_filter.mp hmem).2]
        exact Nat.zero_le 1
  · rw [ne_eq, not_not] at hids
    refine iff_of_true (ids_selectDead_nodup_of_filter hids) ?_
    intro id r _ _ _
    rw [hids]
    exact Nat.zero_le 1

end

end Rdq.MemStore
