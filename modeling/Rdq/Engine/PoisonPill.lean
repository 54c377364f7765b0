import Mathlib
import Rdq.Engine.MemFleet

/-!
# The poison-pill bound

How often the handler of one task is invoked between two redrives. The guard of
`process` reads the retry budget of its claimed snapshot, which may be out of
date; the store charges the budget for every outcome and for every reclaimed
lease. While a task is neither redriven nor removed, the budgets of its
successive claims therefore increase strictly, and at most `MaxAttempts` of
them pass the guard.

A run that was claimed earlier and has not invoked its handler yet is not covered,
whether it has passed the guard or not: its snapshot may be from before a redrive.
Every such run adds at most its one invocation.
-/

namespace Rdq.Engine

open Rdq.Foundation
open MemStore (Record Store step_change)

/-! ## The budget in the store -/

/-- A claim with budget `n` has been charged, or is the running one. -/
def Charged (n : Int) (r : Record) : Prop :=
  n < r.env.attemptCount ∨ r.env.status = .inFlight ∧ n ≤ r.env.attemptCount

theorem attemptCount_claim (r : Record) (now : Time) (lease : Duration) (token : ClaimToken) :
    (r.claim now lease token).env.attemptCount =
      r.env.attemptCount + if r.env.status = .inFlight then 1 else 0 := by
  by_cases hst : r.env.status = .inFlight <;> simp [Record.claim, MemStore.appendAttempt, hst]

theorem status_claim (r : Record) (now : Time) (lease : Duration) (token : ClaimToken) :
    (r.claim now lease token).env.status = .inFlight := by
  by_cases hst : r.env.status = .inFlight <;> simp [Record.claim, hst]

theorem status_redrive_iterate (now : Time) (n : Nat) (r : Record) :
    ((Record.redrive now)^[n + 1] r).env.status = .pending := by
  rw [Function.iterate_succ_apply']
  rfl

theorem attemptCount_redrive_iterate (now : Time) (n : Nat) (r : Record) :
    ((Record.redrive now)^[n + 1] r).env.attemptCount = 0 := by
  rw [Function.iterate_succ_apply']
  rfl

/-- A charged claim is below the budget of the next one. -/
theorem Charged.lt_claim {n : Int} {r : Record} (h : Charged n r) (now : Time)
    (lease : Duration) (token : ClaimToken) :
    n < (r.claim now lease token).env.attemptCount := by
  rw [attemptCount_claim]
  rcases h with h | ⟨hst, h⟩
  · split <;> omega
  · rw [if_pos hst]
    omega

/-- No call but a redrive gives a charge back. -/
theorem Charged.step {n : Int} {s : Store} {op : Op} {id : TaskID} {r r' : Record}
    (h : Charged n r) (hr : s.tasks.find? id = some r)
    (hr' : (MemStore.step s op).1.tasks.find? id = some r')
    (hkeep : ¬ (r.env.status = .dead ∧ r'.env.status = .pending)) : Charged n r' := by
  have hle : n ≤ r.env.attemptCount := by
    rcases h with h | ⟨_, h⟩ <;> omega
  have hch := step_change s id op
  rw [hr, hr'] at hch
  cases hch with
  | keep => exact h
  | claim _ c seq queue limit lease now => exact Or.inl (h.lt_claim now lease c.token)
  | extend _ token lease now _ hst => exact Or.inr ⟨hst, hle⟩
  | reschedule | complete | deadLetter => exact Or.inl (Int.lt_add_one_of_le hle)
  | redrive _ n queue sel now _ hdead =>
    exact absurd ⟨hdead, status_redrive_iterate now n r⟩ hkeep

/-- Every stored retry budget is non-negative. -/
def CountsNonneg (s : Store) : Prop :=
  ∀ id r, s.tasks.find? id = some r → 0 ≤ r.env.attemptCount

theorem CountsNonneg.step {s : Store} {op : Op} (h : CountsNonneg s)
    (hop : ∀ task, op = .enqueue task → 0 ≤ task.attemptCount) :
    CountsNonneg (MemStore.step s op).1 := by
  intro id r' hr'
  have hch := step_change s id op
  rw [hr'] at hch
  cases hr : s.tasks.find? id with
  | none =>
    rw [hr] at hch
    cases hch with
    | admitted task htask => exact hop task htask
  | some r =>
    have hnn := h id r hr
    rw [hr] at hch
    cases hch with
    | keep | extend => exact hnn
    | claim _ c seq queue limit lease now =>
      rw [attemptCount_claim]
      split <;> omega
    | reschedule | complete | deadLetter => exact Int.le_add_one hnn
    | redrive _ n queue sel now => exact (attemptCount_redrive_iterate now n r).ge

/-! ## Periods of a task -/

variable {ε : Type} [HandlerError ε]

/-- One recorded event. -/
abbrev Moment (ε : Type) := Entry (MemFleet (Worker ε)) (GoEvent ε) Note

/-- The event took the task out of the dead-letter queue for another round. -/
def Redrives (e : Moment ε) (id : TaskID) : Prop :=
  (e.pre.store.tasks.find? id).map (fun r => r.env.status) = some .dead ∧
    (e.post.store.tasks.find? id).map (fun r => r.env.status) = some .pending

/-- The event took the task out of the store. -/
def TakesOut (e : Moment ε) (id : TaskID) : Prop :=
  e.pre.store.tasks.find? id ≠ none ∧ e.post.store.tasks.find? id = none

instance (e : Moment ε) (id : TaskID) : Decidable (Redrives e id) :=
  inferInstanceAs (Decidable (_ ∧ _))

instance (e : Moment ε) (id : TaskID) : Decidable (TakesOut e id) :=
  inferInstanceAs (Decidable (_ ∧ _))

/-- The numbers of the runs that invoked the handler of the task, in order. -/
def invocations (tr : List (Moment ε)) (id : TaskID) : List Nat :=
  tr.filterMap fun e =>
    match e.output with
    | .invoked i id' => if id' = id then some i else none
    | _ => none

/-- The runs of the task that have not invoked its handler yet. -/
def uninvoked (f : MemFleet (Worker ε)) (id : TaskID) : List Nat :=
  (List.range f.runs.length).filter fun i =>
    f.runs[i]?.any fun r => r.phase.waits && decide (r.claim.task.id = id)

/-- All workers use the same bound, and tasks come in with a budget that is not
negative, as `Submit` gives them. -/
structure Admissible (M : Int) (ev : GoEvent ε) : Prop where
  uniform : ∀ w limit now, ev = .poll w limit now → w.spec.maxAttempts = M
  fresh : ∀ task, ev = .enqueue task → 0 ≤ task.attemptCount

/-- An event inside a period of the task: neither a redrive nor a removal of it. -/
structure WithinPeriod (M : Int) (id : TaskID) (e : Moment ε) : Prop where
  admissible : Admissible M e.input
  kept : ¬ Redrives e id ∧ ¬ TakesOut e id

variable {ev : GoEvent ε} {f : MemFleet (Worker ε)}

omit [HandlerError ε] in
theorem mem_uninvoked {id : TaskID} {i : Nat} {r : Run (Worker ε)} (hr : f.runs[i]? = some r)
    (hphase : r.phase.waits = true) (hid : r.claim.task.id = id) :
    i ∈ uninvoked f id := by
  refine List.mem_filter.mpr ⟨?_, ?_⟩
  · exact List.mem_range.mpr (List.getElem?_eq_some_iff.mp hr).1
  · simp [hr, hphase, hid]

omit [HandlerError ε] in
theorem invocations_concat (tr : List (Moment ε)) (e : Moment ε) (id : TaskID) :
    invocations (tr ++ [e]) id = invocations tr id ∨
      ∃ i, e.output = .invoked i id ∧ invocations (tr ++ [e]) id = invocations tr id ++ [i] := by
  unfold invocations
  rw [List.filterMap_append]
  cases ho : e.output with
  | invoked i id' =>
    by_cases hid : id' = id
    · exact Or.inr ⟨i, by rw [hid], by simp [ho, hid]⟩
    · exact Or.inl (by simp [ho, hid])
  | quiet | answered reply => exact Or.inl (by simp [ho])

/-! ## The budgets of the claims of one period -/

/-- The claims of the task since `f₁`: each is charged to the store, and their
budgets increase. -/
structure BudgetInv (f₁ : MemFleet (Worker ε)) (id : TaskID) (f : MemFleet (Worker ε)) : Prop where
  nonneg : CountsNonneg f.store
  charged : ∀ i r, f₁.runs.length ≤ i → f.runs[i]? = some r → r.claim.task.id = id →
    0 ≤ r.claim.task.attemptCount ∧
      ∃ rec, f.store.tasks.find? id = some rec ∧ Charged r.claim.task.attemptCount rec
  increasing : ∀ i j a b, f₁.runs.length ≤ i → i < j → f.runs[i]? = some a →
    f.runs[j]? = some b → a.claim.task.id = id → b.claim.task.id = id →
    a.claim.task.attemptCount < b.claim.task.attemptCount

theorem countsNonneg_step {M : Int} (h : CountsNonneg f.store) (hadm : Admissible M ev) :
    CountsNonneg (f.step ev).1.store := by
  rw [Fleet.stepWith_store]
  split
  · rename_i op hop
    refine h.step ?_
    rintro task rfl
    exact hadm.fresh task (Fleet.storeCall?_enqueue hop)
  · exact h

/-- Within a period no charge is given back. -/
theorem charged_step {id : TaskID} {n : Int} {rec : Record}
    (hrec : f.store.tasks.find? id = some rec) (h : Charged n rec)
    (hred : ¬ Redrives (entry MemFleet.step f ev) id)
    (hout : ¬ TakesOut (entry MemFleet.step f ev) id) :
    ∃ rec', (f.step ev).1.store.tasks.find? id = some rec' ∧ Charged n rec' := by
  cases hrec' : (f.step ev).1.store.tasks.find? id with
  | none =>
    refine absurd ⟨?_, hrec'⟩ hout
    simp [entry, hrec]
  | some rec' =>
    refine ⟨rec', rfl, ?_⟩
    have hkeep : ¬ (rec.env.status = .dead ∧ rec'.env.status = .pending) := by
      rintro ⟨hdead, hpend⟩
      refine hred ⟨?_, ?_⟩
      · simp [entry, hrec, hdead]
      · simp [entry, hrec', hpend]
    rw [Fleet.stepWith_store] at hrec'
    split at hrec'
    · exact h.step hrec hrec' hkeep
    · obtain rfl := Option.some.inj (hrec.symm.trans hrec')
      exact h

namespace BudgetInv
variable {f₁ f : MemFleet (Worker ε)} {id : TaskID}

omit [HandlerError ε] in
theorem init (f₁ : MemFleet (Worker ε)) (id : TaskID) (h : CountsNonneg f₁.store) :
    BudgetInv f₁ id f₁ where
  nonneg := h
  charged := by
    intro i r hi hr
    obtain ⟨hlt, _⟩ := List.getElem?_eq_some_iff.mp hr
    omega
  increasing := by
    intro i j a b hi hij ha
    obtain ⟨hlt, _⟩ := List.getElem?_eq_some_iff.mp ha
    omega

/-- The budget of a newly granted claim exceeds all earlier ones of the period. -/
theorem lt_granted (h : BudgetInv f₁ id f) {c : Claimed} (hc : c ∈ f.claims ev)
    (hcid : c.task.id = id) {i : Nat} {a : Run (Worker ε)} (hi : f₁.runs.length ≤ i)
    (ha : f.runs[i]? = some a) (haid : a.claim.task.id = id) :
    a.claim.task.attemptCount < c.task.attemptCount := by
  obtain ⟨_, rec, hrec, hch⟩ := h.charged i a hi ha haid
  obtain ⟨r, lease, now, hr, _, htask, _⟩ := MemFleet.granted_spec hc
  rw [hcid] at hr
  obtain rfl := Option.some.inj (hrec.symm.trans hr)
  rw [htask]
  exact hch.lt_claim now lease c.token

theorem charged_granted (h : BudgetInv f₁ id f) {c : Claimed} (hc : c ∈ f.claims ev)
    (hcid : c.task.id = id) :
    0 ≤ c.task.attemptCount ∧
      ∃ rec, (f.step ev).1.store.tasks.find? id = some rec ∧
        Charged c.task.attemptCount rec := by
  obtain ⟨r, lease, now, hr, _, htask, hr'⟩ := MemFleet.granted_spec hc
  have hnn := h.nonneg _ r hr
  rw [hcid] at hr'
  refine ⟨?_, _, hr', ?_⟩
  · rw [htask, attemptCount_claim]
    split <;> omega
  · rw [htask]
    exact Or.inr ⟨status_claim r now lease c.token, le_rfl⟩

theorem step {M : Int} (h : BudgetInv f₁ id f) (hadm : Admissible M ev)
    (hred : ¬ Redrives (entry MemFleet.step f ev) id)
    (hout : ¬ TakesOut (entry MemFleet.step f ev) id) : BudgetInv f₁ id (f.step ev).1 where
  nonneg := countsNonneg_step h.nonneg hadm
  charged := by
    intro i r' hi hr' hid
    rcases f.run_origin _ ev hr' with ⟨r, hr, hcont⟩ | ⟨w, limit, now, c, _, _, hc, rfl⟩
    · rw [hcont.claim] at hid ⊢
      obtain ⟨hnn, rec, hrec, hch⟩ := h.charged i r hi hr hid
      exact ⟨hnn, charged_step hrec hch hred hout⟩
    · exact h.charged_granted (List.mem_of_getElem? hc) hid
  increasing := by
    intro i j a' b' hi hij ha' hb' haid hbid
    rcases f.run_origin _ ev ha' with ⟨a, ha, hca⟩ | ⟨_, _, _, c, _, hli, hc, rfl⟩
    · rw [hca.claim] at haid ⊢
      rcases f.run_origin _ ev hb' with ⟨b, hb, hcb⟩ | ⟨_, _, _, d, _, _, hd, rfl⟩
      · rw [hcb.claim] at hbid ⊢
        exact h.increasing i j a b hi hij ha hb haid hbid
      · exact h.lt_granted (List.mem_of_getElem? hd) hbid hi ha haid
    · rcases f.run_origin _ ev hb' with ⟨b, hb, _⟩ | ⟨_, _, _, d, _, hlj, hd, rfl⟩
      · obtain ⟨hlt, _⟩ := List.getElem?_eq_some_iff.mp hb
        omega
      · -- one poll grants a task at most once
        exfalso
        have hids : ((f.claims ev).map fun c => c.task.id)[i - f.runs.length]? =
            ((f.claims ev).map fun c => c.task.id)[j - f.runs.length]? := by
          rw [List.getElem?_map, List.getElem?_map, hc, hd]
          exact congrArg some (haid.trans hbid.symm)
        have hlt : i - f.runs.length < ((f.claims ev).map fun c => c.task.id).length := by
          rw [List.length_map]
          exact (List.getElem?_eq_some_iff.mp hc).1
        have heq := (List.getElem?_inj hlt (f.claims_ids_nodup ev)).mp hids
        omega

end BudgetInv

/-! ## The invocations of one period -/

/-- All started runs belong to workers with the same bound. -/
def Uniform (M : Int) (f : MemFleet (Worker ε)) : Prop :=
  ∀ (i : Nat) (r : Run (Worker ε)), f.runs[i]? = some r → r.worker.spec.maxAttempts = M

/-- The invocations since `f₁` come from different runs, each within the budget
of its snapshot; the runs from before `f₁` had not invoked the handler then. -/
structure InvocationInv (f₁ : MemFleet (Worker ε)) (M : Int) (id : TaskID) (tr : List (Moment ε))
    (f : MemFleet (Worker ε)) : Prop where
  uniform : Uniform M f
  guarded : f.Guarded
  older : ∀ (i : Nat) (r : Run (Worker ε)), i < f₁.runs.length → f.runs[i]? = some r →
    ∃ r₁, f₁.runs[i]? = some r₁ ∧ r₁.Continues r
  length_le : f₁.runs.length ≤ f.runs.length
  nodup : (invocations tr id).Nodup
  invoked : ∀ i ∈ invocations tr id, ∃ r, f.runs[i]? = some r ∧ r.phase.waits = false ∧
    r.claim.task.id = id ∧ r.claim.task.attemptCount < M
  waiting : ∀ i ∈ invocations tr id, i < f₁.runs.length → i ∈ uninvoked f₁ id

theorem Uniform.step {M : Int} (h : Uniform M f) (hadm : Admissible M ev) :
    Uniform M (f.step ev).1 := by
  intro i r' hr'
  rcases f.run_origin _ ev hr' with ⟨r, hr, hcont⟩ | ⟨w, limit, now, c, hev, _, _, rfl⟩
  · rw [hcont.worker]
    exact h i r hr
  · exact hadm.uniform w limit now hev

namespace InvocationInv
variable {f₁ f : MemFleet (Worker ε)} {M : Int} {id : TaskID} {tr : List (Moment ε)}

theorem init (f₁ : MemFleet (Worker ε)) (id : TaskID) (h : Uniform M f₁) (hg : f₁.Guarded) :
    InvocationInv f₁ M id [] f₁ where
  uniform := h
  guarded := hg
  older := fun _ r _ hr => ⟨r, hr, Run.Continues.refl r⟩
  length_le := le_rfl
  nodup := List.nodup_nil
  invoked := by simp [invocations]
  waiting := by simp [invocations]

theorem invoked_kept (h : InvocationInv f₁ M id tr f) (ev : GoEvent ε) {i : Nat}
    (hi : i ∈ invocations tr id) :
    ∃ r, (f.step ev).1.runs[i]? = some r ∧ r.phase.waits = false ∧ r.claim.task.id = id ∧
      r.claim.task.attemptCount < M := by
  obtain ⟨r, hr, hphase, hid, hlt⟩ := h.invoked i hi
  obtain ⟨r', hr', hcont⟩ := f.run_continues _ ev hr
  refine ⟨r', hr', Bool.eq_false_iff.mpr fun hw => ?_, ?_, ?_⟩
  · exact Bool.eq_false_iff.mp hphase (hcont.waits hw)
  · rw [hcont.claim, hid]
  · rw [hcont.claim]
    exact hlt

/-- What a new invocation adds to the invariant. -/
theorem invoked_step (h : InvocationInv f₁ M id tr f) {i : Nat}
    (hout : (f.step ev).2 = .invoked i id) :
    i ∉ invocations tr id ∧
      (∃ r, (f.step ev).1.runs[i]? = some r ∧ r.phase.waits = false ∧ r.claim.task.id = id ∧
        r.claim.task.attemptCount < M) ∧
      (i < f₁.runs.length → i ∈ uninvoked f₁ id) := by
  obtain ⟨r, hr, hphase, hid, hafter⟩ := Fleet.stepWith_invoked hout
  obtain ⟨r', hr', hcont⟩ := f.run_continues (MemStore.step f.store) ev hr
  have hwaits : r.phase.waits = true := by
    rw [hphase]
    rfl
  -- the guard has let the snapshot through, then or earlier
  obtain ⟨now, hroute⟩ := h.guarded i r hr hphase
  have hlt := Worker.attemptCount_lt_of_route_none hroute
  rw [h.uniform i r hr] at hlt
  refine ⟨?_, ⟨r', hr', hafter r' hr', ?_, ?_⟩, ?_⟩
  · intro hi
    obtain ⟨r₀, hr₀, hdone, _⟩ := h.invoked i hi
    obtain rfl := Option.some.inj (hr.symm.trans hr₀)
    exact Bool.eq_false_iff.mp hdone hwaits
  · rw [hcont.claim, hid]
  · rw [hcont.claim]
    exact hlt
  · intro hi
    obtain ⟨r₁, hr₁, hc₁⟩ := h.older i r hi hr
    refine mem_uninvoked hr₁ (hc₁.waits hwaits) ?_
    rw [← hc₁.claim, hid]

theorem step (h : InvocationInv f₁ M id tr f) (hadm : Admissible M ev) :
    InvocationInv f₁ M id (tr ++ [entry MemFleet.step f ev]) (f.step ev).1 := by
  have hguarded := h.guarded.stepWith (MemStore.step f.store) ev
  have holder : ∀ (i : Nat) (r : Run (Worker ε)), i < f₁.runs.length →
      (f.step ev).1.runs[i]? = some r → ∃ r₁, f₁.runs[i]? = some r₁ ∧ r₁.Continues r := by
    intro i r' hi hr'
    rcases f.run_origin _ ev hr' with ⟨r, hr, hcont⟩ | ⟨_, _, _, _, _, hle, _⟩
    · obtain ⟨r₁, hr₁, hc₁⟩ := h.older i r hi hr
      exact ⟨r₁, hr₁, hc₁.trans hcont⟩
    · have := h.length_le
      omega
  have hlen : f₁.runs.length ≤ (f.step ev).1.runs.length := by
    rcases f.length_stepWith (MemStore.step f.store) ev with hl | ⟨w, limit, now, _, hruns⟩
    · exact h.length_le.trans hl.ge
    · rw [hruns, List.length_append]
      exact h.length_le.trans (Nat.le_add_right _ _)
  rcases invocations_concat tr (entry MemFleet.step f ev) id with hsame | ⟨i, hout, hadd⟩
  · exact ⟨h.uniform.step hadm, hguarded, holder, hlen, hsame ▸ h.nodup,
      fun i hi => h.invoked_kept ev (hsame ▸ hi), fun i hi => h.waiting i (hsame ▸ hi)⟩
  · obtain ⟨hnew, hinvoked, hwaiting⟩ := h.invoked_step hout
    refine ⟨h.uniform.step hadm, hguarded, holder, hlen, ?_, ?_, ?_⟩
    · rw [hadd]
      exact List.nodup_append.mpr ⟨h.nodup, List.nodup_singleton i, by
        rintro a ha b hb rfl
        exact hnew (List.mem_singleton.mp hb ▸ ha)⟩
    · intro j hj
      rw [hadd, List.mem_append, List.mem_singleton] at hj
      rcases hj with hj | rfl
      · exact h.invoked_kept ev hj
      · exact hinvoked
    · intro j hj
      rw [hadd, List.mem_append, List.mem_singleton] at hj
      rcases hj with hj | rfl
      · exact h.waiting j hj
      · exact hwaiting

/-- Different runs of the period have different budgets below the bound. -/
theorem length_new_le (h : InvocationInv f₁ M id tr f) (hb : BudgetInv f₁ id f) (hM : 0 ≤ M) :
    (((invocations tr id).filter fun i => f₁.runs.length ≤ i).length : Int) ≤ M := by
  let new := (invocations tr id).filter fun i => decide (f₁.runs.length ≤ i)
  let budget : Nat → Int := fun i => (f.runs[i]?.map fun r => r.claim.task.attemptCount).getD 0
  have hnew : ∀ i ∈ new, f₁.runs.length ≤ i ∧ ∃ r, f.runs[i]? = some r ∧
      r.claim.task.id = id ∧ budget i = r.claim.task.attemptCount ∧ budget i < M := by
    intro i hi
    obtain ⟨hmem, hle⟩ := List.mem_filter.mp hi
    obtain ⟨r, hr, _, hid, hlt⟩ := h.invoked i hmem
    have hbudget : budget i = r.claim.task.attemptCount := by simp [budget, hr]
    exact ⟨of_decide_eq_true hle, r, hr, hid, hbudget, hbudget ▸ hlt⟩
  have hrange : Set.MapsTo budget (new.toFinset : Set Nat) (Finset.Ico 0 M : Set Int) := by
    intro i hi
    obtain ⟨hle, r, hr, hid, hbudget, hlt⟩ := hnew i (List.mem_toFinset.mp hi)
    have hnn := (hb.charged i r hle hr hid).1
    exact Finset.mem_coe.mpr (Finset.mem_Ico.mpr ⟨hbudget ▸ hnn, hlt⟩)
  have hinj : Set.InjOn budget (new.toFinset : Set Nat) := by
    intro i hi j hj heq
    obtain ⟨hli, a, ha, haid, hba, _⟩ := hnew i (List.mem_toFinset.mp hi)
    obtain ⟨hlj, b, hb', hbid, hbb, _⟩ := hnew j (List.mem_toFinset.mp hj)
    rw [hba, hbb] at heq
    rcases Nat.lt_trichotomy i j with hlt | rfl | hlt
    · exact absurd heq (hb.increasing i j a b hli hlt ha hb' haid hbid).ne
    · rfl
    · exact absurd heq.symm (hb.increasing j i b a hlj hlt hb' ha hbid haid).ne
  have hcard : new.length ≤ (M - 0).toNat := by
    rw [← List.toFinset_card_of_nodup (h.nodup.filter _), ← Int.card_Ico]
    exact Finset.card_le_card_of_injOn budget hrange hinj
  change (new.length : Int) ≤ M
  omega

/-- Every earlier run adds at most its one invocation. -/
theorem length_older_le (h : InvocationInv f₁ M id tr f) :
    ((invocations tr id).filter fun i => ¬ f₁.runs.length ≤ i).length ≤
      (uninvoked f₁ id).length := by
  refine (List.subperm_of_subset (h.nodup.filter _) ?_).length_le
  intro i hi
  obtain ⟨hmem, hlt⟩ := List.mem_filter.mp hi
  exact h.waiting i hmem (Nat.not_le.mp (of_decide_eq_true hlt))

end InvocationInv

/-- While a task is neither redriven nor removed, the runs claimed in that time
invoke its handler at most `M` times, and all runs together at most `M` times
and once for every earlier run that had not invoked it at the start. -/
theorem handler_invocations_le (M : Int) (hM : 1 ≤ M) (before during : List (GoEvent ε))
    (id : TaskID) (hadm : ∀ ev ∈ before ++ during, Admissible M ev)
    (hperiod : ∀ e ∈ trace MemFleet.step (MemFleet.after before) during,
      ¬ Redrives e id ∧ ¬ TakesOut e id) :
    (((invocations (trace MemFleet.step (MemFleet.after before) during) id).filter
        fun i => (MemFleet.after before).runs.length ≤ i).length : Int) ≤ M ∧
      ((invocations (trace MemFleet.step (MemFleet.after before) during) id).length : Int) ≤
        M + (uninvoked (MemFleet.after before) id).length := by
  have hbefore : CountsNonneg (MemFleet.after before).store ∧ Uniform M (MemFleet.after before) ∧
      (MemFleet.after before).Guarded := by
    refine run_invariant
      (P := fun f : MemFleet (Worker ε) => CountsNonneg f.store ∧ Uniform M f ∧ f.Guarded)
      (c := fun _ ev => Admissible M ev) ⟨?_, ?_, ?_⟩ ?_ ?_
    · intro id r hr
      cases hr
    · intro i r hr
      cases hr
    · intro i r hr
      cases hr
    · intro f ev hf hev
      exact ⟨countsNonneg_step hf.1 hev, hf.2.1.step hev,
        hf.2.2.stepWith (MemStore.step f.store) ev⟩
    · exact allSteps_of_forall (fun ev hev => hadm ev (List.mem_append_left _ hev)) _
  have hsteps : AllSteps MemFleet.step
      (fun f ev => WithinPeriod M id (entry MemFleet.step f ev)) (MemFleet.after before)
        during := by
    refine allSteps_of_trace (c := WithinPeriod M id) ?_
    intro e he
    refine ⟨hadm e.input (List.mem_append_right _ ?_), hperiod e he⟩
    exact input_mem_of_mem_trace he
  obtain ⟨hb, hi⟩ : BudgetInv (MemFleet.after before) id
        (run MemFleet.step (MemFleet.after before) during) ∧
      InvocationInv (MemFleet.after before) M id
        (trace MemFleet.step (MemFleet.after before) during)
        (run MemFleet.step (MemFleet.after before) during) := by
    refine trace_invariant (P := fun tr f => BudgetInv (MemFleet.after before) id f ∧
      InvocationInv (MemFleet.after before) M id tr f) ⟨?_, ?_⟩ ?_ hsteps
    · exact BudgetInv.init _ id hbefore.1
    · exact InvocationInv.init _ id hbefore.2.1 hbefore.2.2
    · intro tr f ev h hev
      exact ⟨h.1.step hev.admissible hev.kept.1 hev.kept.2, h.2.step hev.admissible⟩
  have hnew := hi.length_new_le hb (by omega)
  have holder := hi.length_older_le
  have hsplit := List.length_eq_length_filter_add
    (l := invocations (trace MemFleet.step (MemFleet.after before) during) id)
    fun i => decide ((MemFleet.after before).runs.length ≤ i)
  refine ⟨hnew, ?_⟩
  simp only [decide_not] at holder
  omega

/-! ## A run that outlives a redrive -/

/-- A run is claimed, passes the guard and stalls, its lease expires, a second run
dead-letters the task by the guard, and the task is redriven. -/
def stalledRun : List (GoEvent ErrorString) :=
  [.enqueue (.submitted "t" "q" "h" 0), .poll oneShotWorker 1 0, .route 0 0,
    .poll oneShotWorker 1 20, .route 1 20, .write 1 20, .redrive "q" { ids := ["t"] } 30]

/-- The stalled run goes on, and a third one is claimed. -/
def resumedRun : List (GoEvent ErrorString) :=
  [.invoke 0 31, .poll oneShotWorker 1 32, .route 2 32, .invoke 2 32]

theorem admissible_stalledRun (ev : GoEvent ErrorString) (h : ev ∈ stalledRun ++ resumedRun) :
    Admissible 1 ev := by
  simp only [stalledRun, resumedRun, List.cons_append, List.nil_append, List.mem_cons,
    List.not_mem_nil, or_false] at h
  rcases h with rfl | rfl | rfl | rfl | rfl | rfl | rfl | rfl | rfl | rfl | rfl
  all_goals
    constructor
    · rintro w limit now heq
      cases heq
      try rfl
    · rintro task heq
      cases heq
      try decide

/-- With a bound of one the handler is invoked twice after a redrive, without
another redrive or a removal in between. -/
theorem stalled_run_exceeds_bound :
    (∀ ev ∈ stalledRun ++ resumedRun, Admissible 1 ev) ∧
      (∀ e ∈ trace MemFleet.step (MemFleet.after stalledRun) resumedRun,
        ¬ Redrives e "t" ∧ ¬ TakesOut e "t") ∧
      ((MemFleet.after stalledRun).store.tasks.find? "t").map
        (fun r => (r.env.status, r.env.redriveCount)) = some (.pending, 1) ∧
      invocations (trace MemFleet.step (MemFleet.after stalledRun) resumedRun) "t" = [0, 2] := by
  refine ⟨admissible_stalledRun, ?_, ?_, ?_⟩
  · decide
  · decide
  · decide

/-- In the same history one run has not invoked the handler at the redrive, and the bound
with its correction is met. -/
theorem handler_invocations_le_stalledRun :
    (uninvoked (MemFleet.after stalledRun) "t").length = 1 ∧
      ((invocations (trace MemFleet.step (MemFleet.after stalledRun) resumedRun) "t").length :
        Int) ≤ 1 + (uninvoked (MemFleet.after stalledRun) "t").length := by
  refine ⟨by decide, ?_⟩
  refine (handler_invocations_le 1 le_rfl stalledRun resumedRun "t" admissible_stalledRun ?_).2
  decide

end Rdq.Engine
