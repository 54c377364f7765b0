import Rdq.MemStore.Lifecycle

/-!
# Claims and recorded attempts

The grants of a task since its admission are counted over the history and
compared with the stored record: every grant but a running one has left exactly
one attempt, whether it ended by an outcome or by an expired lease. The count
starts again when the id is admitted anew after a removal.
-/

namespace Rdq.MemStore

open Rdq.Foundation

/-- The call brought the task into the store. -/
def Admits (e : Call) (id : TaskID) : Prop :=
  e.pre.tasks.find? id = none ∧ e.post.tasks.find? id ≠ none

instance (e : Call) (id : TaskID) : Decidable (Admits e id) :=
  inferInstanceAs (Decidable (_ ∧ _))

/-- How often the call granted the task. -/
def grantCount (e : Call) (id : TaskID) : Nat :=
  (e.output.claims.map fun c => c.task.id).count id

/-- How often the task was granted since its latest admission. -/
def claimsSinceAdmission (tr : List Call) (id : TaskID) : Nat :=
  tr.foldl (fun n e => if Admits e id then 0 else n + grantCount e id) 0

theorem claimsSinceAdmission_concat (tr : List Call) (e : Call) (id : TaskID) :
    claimsSinceAdmission (tr ++ [e]) id =
      if Admits e id then 0 else claimsSinceAdmission tr id + grantCount e id := by
  simp only [claimsSinceAdmission, List.foldl_append, List.foldl_cons, List.foldl_nil]

/-- The claims a record accounts for: its attempts, and the running claim of an
IN_FLIGHT task. -/
def Record.claims (r : Record) : Nat :=
  r.env.attempts.length + if r.env.status = .inFlight then 1 else 0

section Records
variable (r : Record)

theorem Record.claims_claim (now : Time) (lease : Duration) (token : ClaimToken) :
    (r.claim now lease token).claims = r.claims + 1 := by
  by_cases hst : r.env.status = .inFlight <;>
    simp [Record.claims, Record.claim, appendAttempt, hst]

theorem Record.claims_reschedule (att : Attempt) (nextAt : Time)
    (hst : r.env.status = .inFlight) : (r.reschedule att nextAt).claims = r.claims := by
  simp [Record.claims, Record.reschedule, appendAttempt, hst]

theorem Record.claims_complete (att : Attempt) (now : Time)
    (hst : r.env.status = .inFlight) : (r.complete att now).claims = r.claims := by
  simp [Record.claims, Record.complete, appendAttempt, hst]

theorem Record.claims_deadLetter (att : Attempt) (now : Time) (seq : Nat)
    (hst : r.env.status = .inFlight) : (r.deadLetter att now seq).claims = r.claims := by
  simp [Record.claims, Record.deadLetter, appendAttempt, hst]

theorem Record.claims_redrive_iterate (now : Time) (n : Nat) (hst : r.env.status = .dead) :
    ((Record.redrive now)^[n + 1] r).claims = r.claims := by
  have hpend : ((Record.redrive now)^[n + 1] r).env.status = .pending := by
    rw [Function.iterate_succ_apply']
    rfl
  simp only [Record.claims, attempts_redrive_iterate, hpend, hst, reduceCtorEq, if_false]

end Records

/-! ## One call -/

theorem grantCount_of_granted {s : Store} {op : Op} {c : Claimed}
    (hc : c ∈ (step s op).2.claims) : grantCount (entry step s op) c.task.id = 1 :=
  List.count_eq_one_of_mem (step_grants s op).2.2 (List.mem_map_of_mem hc)

theorem grantCount_of_not_granted {e : Call} {id : TaskID}
    (h : ∀ c ∈ e.output.claims, c.task.id ≠ id) : grantCount e id = 0 := by
  apply List.count_eq_zero_of_not_mem
  intro hid
  obtain ⟨c, hc, hcid⟩ := List.mem_map.mp hid
  exact h c hc hcid

/-- A call that does not grant the task leaves the claims it accounts for. -/
theorem claims_of_not_granted {s : Store} {op : Op} {id : TaskID} {r r' : Record}
    (hr : s.tasks.find? id = some r) (hr' : (step s op).1.tasks.find? id = some r')
    (hng : ∀ c ∈ (step s op).2.claims, c.task.id ≠ id) : r'.claims = r.claims := by
  have hid : r.id = id := KeyedTable.key_of_find? hr
  have hch := step_change s id op
  rw [hr, hr'] at hch
  cases hch with
  | keep | extend => rfl
  | claim _ c seq queue limit lease now _ _ _ hc hcid => exact absurd (hcid.trans hid) (hng c hc)
  | reschedule _ token att nextAt _ hst => exact r.claims_reschedule att nextAt hst
  | complete _ token att now _ hst => exact r.claims_complete att now hst
  | deadLetter _ token att now _ hst => exact r.claims_deadLetter att now _ hst
  | redrive _ n queue sel now _ hdead => exact r.claims_redrive_iterate now n hdead

/-- One call adds to the claims a kept record accounts for what it granted. -/
theorem claims_step {s : Store} {op : Op} {id : TaskID} {r r' : Record}
    (hr : s.tasks.find? id = some r) (hr' : (step s op).1.tasks.find? id = some r') :
    r'.claims = r.claims + grantCount (entry step s op) id := by
  by_cases hg : ∃ c ∈ (step s op).2.claims, c.task.id = id
  · obtain ⟨c, hc, rfl⟩ := hg
    obtain ⟨r₀, queue, limit, lease, now, _, hold, _, _, _, hnew⟩ := step_granted hc
    obtain rfl := Option.some.inj (hold.symm.trans hr)
    obtain rfl := Option.some.inj (hnew.symm.trans hr')
    rw [grantCount_of_granted hc, Record.claims_claim]
  · push Not at hg
    rw [grantCount_of_not_granted hg, claims_of_not_granted hr hr' hg]
    rfl

/-- A task comes in with no claim to account for. -/
theorem claims_of_admitted {s : Store} {op : Op} {id : TaskID} {r : Record}
    (hop : ∀ task, op = Op.enqueue task → task.status = .pending ∧ task.attempts = [])
    (hnone : s.tasks.find? id = none) (hr : (step s op).1.tasks.find? id = some r) :
    r.claims = 0 := by
  have hch := step_change s id op
  rw [hnone, hr] at hch
  cases hch with
  | admitted task htask =>
    obtain ⟨hst, hatt⟩ := hop task htask
    simp [Record.claims, hst, hatt]

/-- In every reachable state of tasks enqueued PENDING with an empty history,
the grants of a task since its admission are its recorded attempts and, while
it is IN_FLIGHT, the running claim. -/
theorem claims_accounted (ops : List Op)
    (hfresh : ∀ task, Op.enqueue task ∈ ops → task.status = .pending ∧ task.attempts = [])
    (id : TaskID) (r : Record) (hr : (stateAfter ops).tasks.find? id = some r) :
    claimsSinceAdmission (history ops) id =
      r.env.attempts.length + if r.env.status = .inFlight then 1 else 0 := by
  suffices h : ∀ id r, (stateAfter ops).tasks.find? id = some r →
      claimsSinceAdmission (history ops) id = r.claims from h id r hr
  refine trace_invariant
    (P := fun tr s => ∀ id r, s.tasks.find? id = some r → claimsSinceAdmission tr id = r.claims)
    ?_ ?_ (allSteps_enqueue hfresh Store.new)
  · intro id r h
    cases h
  · intro tr s op ih hop id r h
    rw [claimsSinceAdmission_concat]
    cases hpre : s.tasks.find? id with
    | none =>
      have hadm : Admits (entry step s op) id := by
        refine ⟨hpre, ?_⟩
        simp [entry, h]
      rw [if_pos hadm, claims_of_admitted hop hpre h]
    | some r₀ =>
      have hadm : ¬ Admits (entry step s op) id := by
        rintro ⟨hnone, _⟩
        cases hpre.symm.trans hnone
      rw [if_neg hadm, ih id r₀ hpre, claims_step hpre h]

/-- A task whose first lease expired and which was claimed again. -/
def reclaimRun : List Op :=
  [.enqueue (.submitted "t" "q" "h" 0), .claimDue "q" 1 10 0, .claimDue "q" 1 10 20]

theorem claims_accounted_reclaimRun :
    claimsSinceAdmission (history reclaimRun) "t" = 1 + 1 := by
  refine claims_accounted reclaimRun ?_ "t" _ rfl
  intro task htask
  simp only [reclaimRun, List.mem_cons, List.not_mem_nil, Op.enqueue.injEq, reduceCtorEq,
    or_false] at htask
  rw [htask]
  exact ⟨rfl, rfl⟩

end Rdq.MemStore
