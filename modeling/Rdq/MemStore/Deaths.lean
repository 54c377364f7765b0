import Rdq.MemStore.Lifecycle

/-!
# The deaths of a history

A death is one accepted `DeadLetter` call. It is numbered by its place among the
accepted calls of the history, without looking at the store; `DeathsOk` says that
the store numbers deaths alike. Between its death and a redrive or purge the record
of a task does not change, so a DEAD record tells since when it has been there.
-/

namespace Rdq.MemStore

open Rdq.Foundation

/-! ## Numbering the deaths -/

/-- The task a call dead-lettered, if it did. -/
def death? (e : Call) : Option TaskID :=
  match e.input, e.output with
  | .deadLetter id _ _ _, .done => some id
  | _, _ => none

/-- The accepted dead-letter calls, as the ids of their tasks, oldest first. -/
def deaths (tr : List Call) : List TaskID := tr.filterMap death?

/-- The number of the last death of a task; zero when it never died. -/
def deathNumber (ds : List TaskID) (id : TaskID) : Nat := ds.length - ds.reverse.idxOf id

theorem deathNumber_concat_self (ds : List TaskID) (id : TaskID) :
    deathNumber (ds ++ [id]) id = ds.length + 1 := by
  simp [deathNumber]

theorem deathNumber_concat_of_ne (ds : List TaskID) {id id' : TaskID} (h : id' ≠ id) :
    deathNumber (ds ++ [id']) id = deathNumber ds id := by
  simp [deathNumber, List.idxOf_cons_ne _ h]

/-- The counter moves with the accepted dead-letter calls. -/
theorem dlqSeq_step_eq (s : Store) (op : Op) :
    (step s op).1.dlqSeq = s.dlqSeq + (death? (entry step s op)).toList.length := by
  cases op with
  | deadLetter i token att now =>
    simp only [step, Store.deadLetter, death?, entry]
    cases s.resolveClaim i token <;> rfl
  | _ =>
    rcases step_dlqSeq s _ with h | ⟨-, id, token, att, now, hop⟩
    · exact h
    · cases hop

theorem death?_deadLetter (s : Store) (id : TaskID) (token : ClaimToken) (att : Attempt)
    (now : Time) :
    death? (entry step s (.deadLetter id token att now)) = none ∨
      death? (entry step s (.deadLetter id token att now)) = some id := by
  simp only [death?, entry]
  cases (step s (.deadLetter id token att now)).2 <;> simp

/-- A DEAD record was there before a call, or the call dead-lettered it. -/
theorem dead_step {s : Store} {op : Op} {id : TaskID} {r : Record}
    (hop : ∀ task, op = .enqueue task → task.SubmitShaped)
    (hr : (step s op).1.tasks.find? id = some r) (hdead : r.env.status = .dead) :
    s.tasks.find? id = some r ∨
      r.dlqSeq = s.dlqSeq + 1 ∧ death? (entry step s op) = some id := by
  have hch := step_change s id op
  rw [hr] at hch
  cases hf : s.tasks.find? id with
  | none =>
    rw [hf] at hch
    cases hch with
    | admitted task htask =>
      rw [(hop task htask).pending] at hdead
      cases hdead
  | some r₀ =>
    rw [hf] at hch
    have hid : r₀.id = id := KeyedTable.key_of_find? hf
    cases hch with
    | keep => exact Or.inl rfl
    | claim => cases hdead
    | extend _ token lease now _ hst =>
      rw [show (r₀.extendLease now lease).env.status = r₀.env.status from rfl, hst] at hdead
      cases hdead
    | reschedule | complete => cases hdead
    | deadLetter _ token att now hcall _ _ _ hseq =>
      refine Or.inr ⟨hseq, ?_⟩
      have hmoved := dlqSeq_step_eq s op
      rw [hcall] at hmoved hseq ⊢
      rcases death?_deadLetter s r₀.id token att now with hnone | hsome
      · rw [hnone, hseq] at hmoved
        exact absurd hmoved (Nat.succ_ne_self _)
      · rw [hsome, hid]
    | redrive _ n queue sel now =>
      rw [Function.iterate_succ_apply'] at hdead
      cases hdead

/-- The store numbers the deaths in the order of the accepted calls. -/
structure DeathsOk (tr : List Call) (s : Store) : Prop where
  count : s.dlqSeq = (deaths tr).length
  number : ∀ id r, s.tasks.find? id = some r → r.env.status = .dead →
    r.dlqSeq = deathNumber (deaths tr) id

theorem deaths_concat (tr : List Call) (e : Call) :
    deaths (tr ++ [e]) = deaths tr ++ (death? e).toList := by
  simp only [deaths, List.filterMap_append, List.filterMap_cons, List.filterMap_nil]
  cases death? e <;> rfl

theorem DeathsOk.step {tr : List Call} {s : Store} {op : Op} (h : DeathsOk tr s)
    (hop : ∀ task, op = .enqueue task → task.SubmitShaped) :
    DeathsOk (tr ++ [entry MemStore.step s op]) (MemStore.step s op).1 where
  count := by
    rw [dlqSeq_step_eq, deaths_concat, List.length_append, h.count]
  number := by
    intro id r hr hdead
    rw [deaths_concat]
    rcases dead_step hop hr hdead with hold | ⟨hnew, hdeath⟩
    · rw [h.number id r hold hdead]
      cases hd : death? (entry MemStore.step s op) with
      | none => simp
      | some id' =>
        -- an accepted call finds its task in flight, so it is on another task
        refine (deathNumber_concat_of_ne _ ?_).symm
        rintro rfl
        cases op with
        | deadLetter i token att now =>
          simp only [death?, entry] at hd
          split at hd
          · rename_i hin hout
            obtain ⟨rfl, rfl, rfl, rfl⟩ := Op.deadLetter.inj hin
            cases hd
            obtain ⟨r₀, hr₀, hst, -⟩ := live_of_step_done rfl hout
            rw [hold] at hr₀
            cases hr₀
            rw [hdead] at hst
            cases hst
          · cases hd
        | _ => cases hd
    · rw [hdeath, hnew, h.count]
      exact (deathNumber_concat_self _ id).symm

/-! ## Reachable stores -/

/-- A history whose enqueued tasks are all Submit-shaped. -/
def Shaped (past : List Op) : Prop := ∀ task, Op.enqueue task ∈ past → task.SubmitShaped

namespace Shaped
variable {past ops : List Op}

theorem append (h : Shaped past) (h' : Shaped ops) : Shaped (past ++ ops) := by
  intro task ht
  rcases List.mem_append.mp ht with ht | ht
  · exact h task ht
  · exact h' task ht

theorem shorten (h : Shaped ops) (hp : past <+: ops) : Shaped past :=
  fun task ht => h task (hp.mem ht)

theorem lifecycleInv (h : Shaped past) : LifecycleInv (stateAfter past) :=
  run_invariant LifecycleInv.new (fun _ _ hinv hop => hinv.step hop)
    (allSteps_enqueue h Store.new)

theorem deathsOk (h : Shaped past) : DeathsOk (history past) (stateAfter past) := by
  refine trace_invariant ?_ (fun _ _ _ hok hop => hok.step hop) (allSteps_enqueue h Store.new)
  exact ⟨rfl, fun id r hr => by cases hr⟩

/-- The counter never goes back. -/
theorem dlqSeq_mono (past ops : List Op) :
    (stateAfter past).dlqSeq ≤ (stateAfter (past ++ ops)).dlqSeq := by
  rw [stateAfter, stateAfter, run_append]
  generalize run step Store.new past = s
  induction ops generalizing s with
  | nil => exact le_rfl
  | cons op ops ih => exact (dlqSeq_le_step s op).trans (ih (step s op).1)

/-- A DEAD record was there at an earlier moment, or its number was not given out then. -/
theorem dead_earlier (h : Shaped (past ++ ops)) {id : TaskID} {r : Record}
    (hr : (stateAfter (past ++ ops)).tasks.find? id = some r) (hdead : r.env.status = .dead) :
    (stateAfter past).tasks.find? id = some r ∨ (stateAfter past).dlqSeq < r.dlqSeq := by
  induction ops using List.reverseRecOn with
  | nil =>
    left
    simpa using hr
  | append_singleton ops op ih =>
    rw [← List.append_assoc] at h hr
    rw [stateAfter, run_concat] at hr
    have hop : ∀ task, op = .enqueue task → task.SubmitShaped := by
      rintro task rfl
      exact h task (by simp)
    rcases dead_step hop hr hdead with hold | ⟨hnew, -⟩
    · exact ih (h.shorten (List.prefix_append _ _)) hold
    · right
      have hle := dlqSeq_mono past ops
      rw [hnew]
      exact Nat.lt_succ_of_le hle

end Shaped

/-- A task that stays DEAD keeps its record. -/
theorem dead_stays {past ops : List Op} {id : TaskID}
    (h : ∀ p, past <+: p → p <+: past ++ ops →
      ∃ r, (stateAfter p).tasks.find? id = some r ∧ r.env.status = .dead) :
    (stateAfter (past ++ ops)).tasks.find? id = (stateAfter past).tasks.find? id := by
  induction ops using List.reverseRecOn with
  | nil => rw [List.append_nil]
  | append_singleton ops op ih =>
    rw [← List.append_assoc] at h ⊢
    rw [← ih fun p hp hp' => h p hp (hp'.trans (List.prefix_append _ _))]
    obtain ⟨r, hr, hdead⟩ := h (past ++ ops) (List.prefix_append _ _) (List.prefix_append _ _)
    obtain ⟨r', hr', hdead'⟩ :=
      h (past ++ ops ++ [op]) (by simp) List.prefix_rfl
    rw [hr', hr]
    have hch := step_change (stateAfter (past ++ ops)) id op
    rw [stateAfter, run_concat, ← stateAfter] at hr'
    rw [hr, hr'] at hch
    cases hch with
    | keep => rfl
    | claim | reschedule | complete => cases hdead'
    | extend _ token lease now _ hst | deadLetter _ token att now _ hst =>
      rw [hdead] at hst
      cases hst
    | redrive _ n queue sel now =>
      rw [Function.iterate_succ_apply'] at hdead'
      cases hdead'

end Rdq.MemStore
