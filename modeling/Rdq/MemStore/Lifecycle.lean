import Rdq.MemStore.Fencing

/-!
# The lifecycle invariant

What the status of a stored task says about its other fields, how the
dead-letter sequence numbers are handed out, and how the retry budget relates
to the attempt history. The conjuncts are proved together: a redrive keeps the
token field, so that a redriven task has an empty token only because a DEAD
one has.
-/

namespace Rdq.MemStore

open Rdq.Foundation

/-- The fields of one record agree with its status; `bound` is the store's
dead-letter counter. -/
structure RecordOk (bound : Nat) (r : Record) : Prop where
  pending : r.env.status = .pending →
    r.env.nextAttemptAt.isSome = true ∧ r.env.leaseExpiresAt = none ∧ r.token = ""
  inFlight : r.env.status = .inFlight → r.env.leaseExpiresAt.isSome = true ∧ r.token ≠ ""
  terminal : r.env.status = .succeeded ∨ r.env.status = .dead →
    r.env.nextAttemptAt = none ∧ r.env.leaseExpiresAt = none ∧ r.token = ""
  dlqSeq_ne_zero : r.dlqSeq ≠ 0 ↔ r.env.status = .dead
  dlqSeq_le : r.dlqSeq ≤ bound
  count_le : r.env.attemptCount ≤ r.env.attempts.length
  count_eq : r.env.redriveCount = 0 → r.env.attemptCount = r.env.attempts.length
  redriveCount_nonneg : 0 ≤ r.env.redriveCount

/-- Every record is well formed, and no two tasks share a dead-letter number. -/
structure LifecycleInv (s : Store) : Prop where
  records : ∀ id r, s.tasks.find? id = some r → RecordOk s.dlqSeq r
  dlqSeq_unique : ∀ id id' r r', s.tasks.find? id = some r → s.tasks.find? id' = some r' →
    r.dlqSeq ≠ 0 → r.dlqSeq = r'.dlqSeq → id = id'

namespace RecordOk
variable {bound : Nat} {r : Record}

theorem mono (h : RecordOk bound r) {bound' : Nat} (hb : bound ≤ bound') :
    RecordOk bound' r :=
  { h with dlqSeq_le := h.dlqSeq_le.trans hb }

theorem dlqSeq_eq_zero (h : RecordOk bound r) (hst : r.env.status ≠ .dead) : r.dlqSeq = 0 := by
  by_contra hne
  exact hst (h.dlqSeq_ne_zero.mp hne)

theorem of_submitShaped {task : Envelope} (h : task.SubmitShaped) (bound : Nat) :
    RecordOk bound { env := task } where
  pending := fun _ => ⟨h.due, h.unleased, rfl⟩
  inFlight := by simp [h.pending]
  terminal := by simp [h.pending]
  dlqSeq_ne_zero := by simp [h.pending]
  dlqSeq_le := Nat.zero_le _
  count_le := by simp [h.no_count, h.no_attempts]
  count_eq := by simp [h.no_count, h.no_attempts]
  redriveCount_nonneg := by simp [h.no_redrive]

theorem claim (h : RecordOk bound r) {now : Time} (lease : Duration) (seq : Nat)
    (hdue : isDue r now = true) : RecordOk bound (r.claim now lease (mintToken seq)) := by
  have hst : r.env.status ≠ .dead := by
    intro hd
    simp [isDue, hd] at hdue
  have hz := h.dlqSeq_eq_zero hst
  have hle := h.count_le
  have heq := h.count_eq
  have hnn := h.redriveCount_nonneg
  simp only [Record.claim]
  split
  · constructor <;> simp [appendAttempt, mintToken_ne_empty, hz]
    · exact hle
    · exact heq
    · exact hnn
  · constructor <;> simp [mintToken_ne_empty, hz]
    · exact hle
    · exact heq
    · exact hnn

theorem extendLease (h : RecordOk bound r) (now : Time) (lease : Duration)
    (hst : r.env.status = .inFlight) : RecordOk bound (r.extendLease now lease) where
  pending := by simp [Record.extendLease, hst]
  inFlight := fun _ => ⟨rfl, (h.inFlight hst).2⟩
  terminal := by simp [Record.extendLease, hst]
  dlqSeq_ne_zero := h.dlqSeq_ne_zero
  dlqSeq_le := h.dlqSeq_le
  count_le := h.count_le
  count_eq := h.count_eq
  redriveCount_nonneg := h.redriveCount_nonneg

theorem reschedule (h : RecordOk bound r) (att : Attempt) (nextAt : Time)
    (hst : r.env.status = .inFlight) : RecordOk bound (r.reschedule att nextAt) where
  pending := fun _ => ⟨rfl, rfl, rfl⟩
  inFlight := by simp [Record.reschedule]
  terminal := by simp [Record.reschedule]
  dlqSeq_ne_zero := by
    simp [Record.reschedule, appendAttempt, h.dlqSeq_eq_zero (by simp [hst])]
  dlqSeq_le := h.dlqSeq_le
  count_le := by simpa [Record.reschedule, appendAttempt] using h.count_le
  count_eq := by simpa [Record.reschedule, appendAttempt] using h.count_eq
  redriveCount_nonneg := h.redriveCount_nonneg

theorem complete (h : RecordOk bound r) (att : Attempt) (now : Time)
    (hst : r.env.status = .inFlight) : RecordOk bound (r.complete att now) where
  pending := by simp [Record.complete]
  inFlight := by simp [Record.complete]
  terminal := fun _ => ⟨rfl, rfl, rfl⟩
  dlqSeq_ne_zero := by
    simp [Record.complete, appendAttempt, h.dlqSeq_eq_zero (by simp [hst])]
  dlqSeq_le := h.dlqSeq_le
  count_le := by simpa [Record.complete, appendAttempt] using h.count_le
  count_eq := by simpa [Record.complete, appendAttempt] using h.count_eq
  redriveCount_nonneg := h.redriveCount_nonneg

theorem deadLetter (h : RecordOk bound r) (att : Attempt) (now : Time) :
    RecordOk (bound + 1) (r.deadLetter att now (bound + 1)) where
  pending := by simp [Record.deadLetter]
  inFlight := by simp [Record.deadLetter]
  terminal := fun _ => ⟨rfl, rfl, rfl⟩
  dlqSeq_ne_zero := by simp [Record.deadLetter]
  dlqSeq_le := le_rfl
  count_le := by simpa [Record.deadLetter, appendAttempt] using h.count_le
  count_eq := by simpa [Record.deadLetter, appendAttempt] using h.count_eq
  redriveCount_nonneg := h.redriveCount_nonneg

/-- A redrive needs no more than the empty token of the record it starts from,
so that a repeated redrive is as good as one. -/
theorem redrive (now : Time) (bound : Nat) (ht : r.token = "")
    (hn : 0 ≤ r.env.redriveCount) : RecordOk bound (r.redrive now) where
  pending := fun _ => ⟨rfl, rfl, ht⟩
  inFlight := by simp [Record.redrive]
  terminal := by simp [Record.redrive]
  dlqSeq_ne_zero := by simp [Record.redrive]
  dlqSeq_le := Nat.zero_le _
  count_le := by simp [Record.redrive]
  count_eq := by
    intro hz
    simp only [Record.redrive] at hz
    omega
  redriveCount_nonneg := by
    simp only [Record.redrive]
    omega

theorem redrive_iterate (h : RecordOk bound r) (now : Time) (hst : r.env.status = .dead)
    (n : Nat) : RecordOk bound ((Record.redrive now)^[n + 1] r) := by
  induction n with
  | zero => exact redrive now bound (h.terminal (Or.inr hst)).2.2 h.redriveCount_nonneg
  | succ n ih =>
    rw [Function.iterate_succ_apply']
    refine redrive now bound ?_ ih.redriveCount_nonneg
    rw [token_redrive_iterate]
    exact (h.terminal (Or.inr hst)).2.2

end RecordOk

/-! ## One call -/

theorem dlqSeq_le_step (s : Store) (op : Op) : s.dlqSeq ≤ (step s op).1.dlqSeq := by
  rcases step_dlqSeq s op with h | ⟨h, _⟩ <;> omega

variable {s : Store} {op : Op}

theorem recordOk_step (hinv : LifecycleInv s) (hop : ∀ task, op = .enqueue task → task.SubmitShaped)
    {id : TaskID} {r : Record} (hr : (step s op).1.tasks.find? id = some r) :
    RecordOk (step s op).1.dlqSeq r := by
  have hch := step_change s id op
  have hb := dlqSeq_le_step s op
  rw [hr] at hch
  cases hf : s.tasks.find? id with
  | none =>
    rw [hf] at hch
    cases hch with
    | admitted task htask => exact RecordOk.of_submitShaped (hop task htask) _
  | some r₀ =>
    rw [hf] at hch
    have h := hinv.records id r₀ hf
    cases hch with
    | keep => exact h.mono hb
    | claim _ c seq queue limit lease now _ hdue _ _ _ htoken =>
      rw [htoken]
      exact (h.claim lease seq hdue).mono hb
    | extend _ token lease now _ hst => exact (h.extendLease now lease hst).mono hb
    | reschedule _ token att nextAt _ hst => exact (h.reschedule att nextAt hst).mono hb
    | complete _ token att now _ hst => exact (h.complete att now hst).mono hb
    | deadLetter _ token att now _ hst _ _ hseq =>
      rw [hseq]
      exact h.deadLetter att now
    | redrive _ n queue sel now _ hdead => exact (h.redrive_iterate now hdead n).mono hb

theorem dlqSeq_redrive_iterate (now : Time) (n : Nat) (r : Record) :
    ((Record.redrive now)^[n + 1] r).dlqSeq = 0 := by
  rw [Function.iterate_succ_apply']
  rfl

/-- A dead-letter number was there before the call, or the call assigned it. -/
theorem dlqSeq_step {id : TaskID} {r : Record} (hr : (step s op).1.tasks.find? id = some r)
    (hne : r.dlqSeq ≠ 0) :
    (∃ r₀, s.tasks.find? id = some r₀ ∧ r₀.dlqSeq = r.dlqSeq) ∨
      (r.dlqSeq = s.dlqSeq + 1 ∧ ∃ token att now, op = .deadLetter id token att now) := by
  have hch := step_change s id op
  rw [hr] at hch
  cases hf : s.tasks.find? id with
  | none =>
    rw [hf] at hch
    cases hch with
    | admitted => exact absurd rfl hne
  | some r₀ =>
    rw [hf] at hch
    have hid : r₀.id = id := KeyedTable.key_of_find? hf
    cases hch with
    | keep | extend | reschedule | complete => exact Or.inl ⟨_, rfl, rfl⟩
    | claim _ c seq queue limit lease now =>
      refine Or.inl ⟨r₀, rfl, ?_⟩
      simp only [Record.claim]
      split <;> rfl
    | deadLetter _ token att now hop _ _ _ hseq =>
      refine Or.inr ⟨hseq, token, att, now, ?_⟩
      rw [hop, hid]
    | redrive _ n queue sel now => exact absurd (dlqSeq_redrive_iterate now n r₀) hne

theorem LifecycleInv.new : LifecycleInv Store.new where
  records := by
    intro id r hr
    cases hr
  dlqSeq_unique := by
    intro id id' r r' hr
    cases hr

theorem LifecycleInv.step (hinv : LifecycleInv s)
    (hop : ∀ task, op = .enqueue task → task.SubmitShaped) :
    LifecycleInv (MemStore.step s op).1 where
  records := fun _ _ hr => recordOk_step hinv hop hr
  dlqSeq_unique := by
    intro id id' r r' hr hr' hne heq
    have hne' : r'.dlqSeq ≠ 0 := heq ▸ hne
    rcases dlqSeq_step hr hne with ⟨r₀, hr₀, h₀⟩ | ⟨hnew, token, att, now, ho⟩
    · rcases dlqSeq_step hr' hne' with ⟨r₁, hr₁, h₁⟩ | ⟨hnew', _⟩
      · exact hinv.dlqSeq_unique id id' r₀ r₁ hr₀ hr₁ (h₀ ▸ hne) (by rw [h₀, heq, h₁])
      · have hle := (hinv.records id r₀ hr₀).dlqSeq_le
        omega
    · rcases dlqSeq_step hr' hne' with ⟨r₁, hr₁, h₁⟩ | ⟨_, token', att', now', ho'⟩
      · have hle := (hinv.records id' r₁ hr₁).dlqSeq_le
        omega
      · rw [ho] at ho'
        cases ho'
        rfl

theorem attempts_redrive_iterate (now : Time) (n : Nat) (r : Record) :
    ((Record.redrive now)^[n] r).env.attempts = r.env.attempts := by
  induction n generalizing r with
  | zero => rfl
  | succ n ih =>
    rw [Function.iterate_succ_apply, ih]
    rfl

/-- No call rewrites the history of a task it keeps. -/
theorem attempts_prefix_step {id : TaskID} {r r' : Record} (hr : s.tasks.find? id = some r)
    (hr' : (step s op).1.tasks.find? id = some r') :
    r.env.attempts <+: r'.env.attempts := by
  have hch := step_change s id op
  rw [hr, hr'] at hch
  cases hch with
  | keep | extend => exact List.prefix_rfl
  | reschedule _ token att | complete _ token att | deadLetter _ token att =>
    exact List.prefix_append _ [att]
  | claim _ c seq queue limit lease now =>
    simp only [Record.claim]
    split
    · exact List.prefix_append _ [leaseExpiredAttempt r now]
    · exact List.prefix_rfl
  | redrive _ n queue sel now =>
    rw [attempts_redrive_iterate]

/-- A task leaves the store by a purge while DEAD, or by the retention sweep
while SUCCEEDED. -/
theorem removed_step {id : TaskID} {r : Record} (hr : s.tasks.find? id = some r)
    (hgone : (step s op).1.tasks.find? id = none) :
    (∃ queue sel, op = .purge queue sel ∧ r.env.status = .dead) ∨
      (∃ queue olderThan, op = .purgeSucceeded queue olderThan ∧ r.env.status = .succeeded) := by
  have hch := step_change s id op
  rw [hr, hgone] at hch
  cases hch with
  | purge _ queue sel hop hdead => exact Or.inl ⟨queue, sel, hop, hdead⟩
  | sweep _ queue olderThan hop hdone => exact Or.inr ⟨queue, olderThan, hop, hdone⟩

/-- A condition on the enqueued tasks is a condition on every call. -/
theorem allSteps_enqueue {shape : Envelope → Prop} {ops : List Op}
    (h : ∀ task, Op.enqueue task ∈ ops → shape task) (s : Store) :
    AllSteps step (fun _ op => ∀ task, op = Op.enqueue task → shape task) s ops := by
  refine allSteps_of_forall ?_ s
  rintro op hop task rfl
  exact h task hop

/-- The lifecycle invariant holds in every reachable state of Submit-shaped
tasks; every call extends the history of the tasks it keeps, and removes none
but DEAD tasks by a purge and SUCCEEDED tasks by the retention sweep. -/
theorem lifecycle (ops : List Op)
    (hshape : ∀ task, Op.enqueue task ∈ ops → task.SubmitShaped) :
    LifecycleInv (stateAfter ops) ∧
      ∀ e ∈ history ops,
        (∀ id r r', e.pre.tasks.find? id = some r → e.post.tasks.find? id = some r' →
          r.env.attempts <+: r'.env.attempts) ∧
        (∀ id r, e.pre.tasks.find? id = some r → e.post.tasks.find? id = none →
          (∃ queue sel, e.input = .purge queue sel ∧ r.env.status = .dead) ∨
            (∃ queue olderThan, e.input = .purgeSucceeded queue olderThan ∧
              r.env.status = .succeeded)) := by
  refine ⟨?_, ?_⟩
  · exact run_invariant LifecycleInv.new (fun s op hinv hop => hinv.step hop)
      (allSteps_enqueue hshape Store.new)
  · intro e he
    rw [entry_of_mem_trace he]
    exact ⟨fun _ _ _ => attempts_prefix_step, fun _ _ => removed_step⟩

/-- The run that submits a task, claims it and dead-letters it. -/
def deadLetterRun : List Op :=
  [.enqueue (.submitted "t" "q" "h" 0), .claimDue "q" 1 10 0,
    .deadLetter "t" (mintToken 1)
      { attemptNo := 1, startedAt := 0, finishedAt := some 5, outcome := .permanentFailure } 5]

theorem submitShaped_of_mem_deadLetterRun (task : Envelope)
    (h : Op.enqueue task ∈ deadLetterRun) : task.SubmitShaped := by
  simp only [deadLetterRun, List.mem_cons, List.not_mem_nil, Op.enqueue.injEq, reduceCtorEq,
    or_false] at h
  rw [h]
  exact Envelope.submitted_shaped "t" "q" "h" 0

/-- The dead-lettered task of a concrete run is well formed and holds the first
dead-letter number. -/
theorem lifecycle_deadLetterRun :
    ∃ r, (stateAfter deadLetterRun).tasks.find? "t" = some r ∧ r.env.status = .dead ∧
      r.dlqSeq = 1 ∧ RecordOk (stateAfter deadLetterRun).dlqSeq r := by
  refine ⟨_, rfl, by decide, by decide, ?_⟩
  exact (lifecycle deadLetterRun submitShaped_of_mem_deadLetterRun).1.records "t" _ rfl

end Rdq.MemStore
