import Rdq.Engine.Fleet
import Rdq.Engine.JavaProcess

/-!
# What an event does to one run, and the retry budget of a worker

An event moves at most the run it names (`Run.advance`). The claims of the runs
stay as they are, and a poll adds those it was granted.

Both engines give a task up for good: a task that is not started is
dead-lettered, and a failed one is scheduled again only while the next attempt
is within `MaxAttempts`.
-/

namespace Rdq.Engine

/-! ## One event, one run -/

namespace Run
variable {W ρ : Type} [WorkerCode W ρ] (ev : Event W ρ) (i : Nat) (r : Run W)

/-- What an event makes of the run with number `i`. -/
def advance : Run W :=
  match ev with
  | .route j now => if j = i then r.route now else r
  | .invoke j started => if j = i then r.invoke started else r
  | .finish j finished result => if j = i then r.finish finished result else r
  | .write j _ => if j = i then r.write else r
  | .stop j => if j = i then r.stop else r
  | _ => r

/-- What every stage preserves is preserved by every event. -/
theorem advance_rec {P : Run W → Prop} (hr : P r) (hroute : ∀ now, P (r.route now))
    (hinvoke : ∀ started, P (r.invoke started))
    (hfinish : ∀ finished result, P (r.finish finished result)) (hwrite : P r.write)
    (hstop : P r.stop) : P (r.advance ev i) := by
  unfold advance
  cases ev with
  | route j now =>
    dsimp only
    split
    · exact hroute now
    · exact hr
  | invoke j started =>
    dsimp only
    split
    · exact hinvoke started
    · exact hr
  | finish j finished result =>
    dsimp only
    split
    · exact hfinish finished result
    · exact hr
  | write j now =>
    dsimp only
    split
    · exact hwrite
    · exact hr
  | stop j =>
    dsimp only
    split
    · exact hstop
    · exact hr
  | enqueue | redrive | purge | purgeSucceeded | poll | heartbeat => exact hr

theorem continues_advance : r.Continues (r.advance ev i) :=
  advance_rec ev i r (Continues.refl r) r.continues_route r.continues_invoke r.continues_finish
    r.continues_write r.continues_stop

/-- A run that has ended stays so. -/
theorem ended_advance (h : r.phase = .ended) : (r.advance ev i).phase = .ended := by
  apply advance_rec ev i r (P := fun r' => r'.phase = .ended) h
  · intro now
    simp only [route, h]
  · intro started
    simp only [invoke, h]
  · intro finished result
    simp only [finish, h]
  · simp only [write, h]
  · rfl

/-- A run ends by its outcome call or because it is stopped. -/
theorem ends_advance (h : r.phase ≠ .ended) (hend : (r.advance ev i).phase = .ended) :
    ev = .stop i ∨ ∃ now call, ev = .write i now ∧ r.phase = .writing call := by
  unfold advance at hend
  cases ev with
  | route j now =>
    dsimp only at hend
    split at hend
    · unfold route at hend
      split at hend
      · split at hend <;> cases hend
      · exact absurd hend h
    · exact absurd hend h
  | invoke j started =>
    dsimp only at hend
    split at hend
    · unfold invoke at hend
      split at hend
      · cases hend
      · exact absurd hend h
    · exact absurd hend h
  | finish j finished result =>
    dsimp only at hend
    split at hend
    · unfold finish at hend
      split at hend
      · rename_i started hphase
        split at hend
        · cases hend
        · exact absurd hend h
      · exact absurd hend h
    · exact absurd hend h
  | write j now =>
    dsimp only at hend
    split at hend
    · rename_i hj
      subst hj
      unfold write at hend
      split at hend
      · rename_i call hphase
        exact Or.inr ⟨now, call, rfl, hphase⟩
      · exact absurd hend h
    · exact absurd hend h
  | stop j =>
    dsimp only at hend
    split at hend
    · rename_i hj
      exact Or.inl (congrArg Event.stop hj)
    · exact absurd hend h
  | enqueue | redrive | purge | purgeSucceeded | poll | heartbeat => exact absurd hend h

end Run

namespace Fleet
variable {σ W ρ : Type} [WorkerCode W ρ]

/-- A call that carries a claim was made by the run that has it: a heartbeat, or the
outcome call. -/
theorem storeCall?_fenced {f : Fleet σ W} {ev : Event W ρ} {op : Op} {x : TaskID × ClaimToken}
    (h : f.storeCall? ev = some op) (hop : op.fenced? = some x) :
    ∃ i now r, f.runs[i]? = some r ∧ x = (r.claim.task.id, r.claim.token) ∧
      (ev = .heartbeat i now ∧ op = .extendLease r.claim.task.id r.claim.token
          (WorkerCode.lease r.worker) now ∨ ev = .write i now) := by
  cases ev with
  | heartbeat i now =>
    obtain ⟨r, hr, hcall⟩ := Option.bind_eq_some_iff.mp h
    rw [fenced?_of_runCall (Or.inl hcall)] at hop
    refine ⟨i, now, r, hr, (Option.some.inj hop).symm, Or.inl ⟨rfl, ?_⟩⟩
    unfold Run.heartbeatCall? at hcall
    split at hcall
    · exact (Option.some.inj hcall).symm
    · cases hcall
  | write i now =>
    obtain ⟨r, hr, hcall⟩ := Option.bind_eq_some_iff.mp h
    rw [fenced?_of_runCall (Or.inr hcall)] at hop
    exact ⟨i, now, r, hr, (Option.some.inj hop).symm, Or.inr rfl⟩
  | enqueue | redrive | purge | purgeSucceeded | poll =>
    cases h
    cases hop
  | route | invoke | finish | stop => cases h

/-- An outcome call is written by the run that has decided on it. -/
theorem storeCall?_writing {f : Fleet σ W} {ev : Event W ρ} {op : Op} {x : TaskID × ClaimToken}
    (h : f.storeCall? ev = some op) (hop : op.outcome? = some x) :
    ∃ i now r call, ev = .write i now ∧ f.runs[i]? = some r ∧ r.phase = .writing call ∧
      op = call.op r.claim.task.id r.claim.token now := by
  obtain ⟨i, now, r, hr, -, ⟨-, rfl⟩ | rfl⟩ := storeCall?_fenced h (Op.fenced?_of_outcome? hop)
  · cases hop
  · have hcall : r.outcomeCall? now = some op := by
      simpa only [storeCall?, hr, Option.bind_some] using h
    unfold Run.outcomeCall? at hcall
    split at hcall
    · rename_i call hphase
      exact ⟨i, now, r, call, rfl, hr, hphase, (Option.some.inj hcall).symm⟩
    · cases hcall

theorem storeCall?_write (f : Fleet σ W) {ev : Event W ρ} {i : Nat} {now : Time} {r : Run W}
    {call : OutcomeCall} (hev : ev = .write i now) (hr : f.runs[i]? = some r)
    (hphase : r.phase = .writing call) :
    f.storeCall? ev = some (call.op r.claim.task.id r.claim.token now) := by
  simp only [hev, storeCall?, hr, Option.bind_some, Run.outcomeCall?, hphase]

variable (call : Op → σ × Reply) (f : Fleet σ W) (ev : Event W ρ)

theorem getElem?_stepWith {i : Nat} {r : Run W} (hr : f.runs[i]? = some r) :
    (f.stepWith call ev).1.runs[i]? = some (r.advance ev i) := by
  rw [stepWith_runs]
  cases ev with
  | poll w limit now =>
    obtain ⟨hi, _⟩ := List.getElem?_eq_some_iff.mp hr
    rw [nextRuns, List.getElem?_append_left hi, hr]
    rfl
  | route j now | invoke j started | finish j finished result | write j now | stop j =>
    rw [nextRuns, List.getElem?_modify, hr]
    simp only [Run.advance, Option.map_eq_map, Option.map_some]
  | enqueue | redrive | purge | purgeSucceeded | heartbeat => exact hr

/-- A run after an event is what the event made of one before, or was started by the event. -/
theorem run_advanced {i : Nat} {r' : Run W} (hr' : (f.stepWith call ev).1.runs[i]? = some r') :
    (∃ r, f.runs[i]? = some r ∧ r' = r.advance ev i) ∨
      ∃ w limit now c, ev = .poll w limit now ∧ f.runs.length ≤ i ∧
        (f.claims call ev)[i - f.runs.length]? = some c ∧ r' = Run.start w c := by
  rcases f.run_origin call ev hr' with ⟨r, hr, _⟩ | hstart
  · refine Or.inl ⟨r, hr, ?_⟩
    exact Option.some.inj (hr'.symm.trans (f.getElem?_stepWith call ev hr))
  · exact Or.inr hstart

/-- The claims of the runs, by the numbers of the runs. -/
def runClaims (f : Fleet σ W) : List Claimed := f.runs.map Run.claim

/-- The claims of the runs stay as they are, and a poll adds those it was granted. -/
theorem runClaims_stepWith :
    (f.stepWith call ev).1.runClaims = f.runClaims ∨
      ∃ w limit now, ev = .poll w limit now ∧
        (f.stepWith call ev).1.runClaims = f.runClaims ++ f.claims call ev := by
  rcases f.length_stepWith call ev with hlen | ⟨w, limit, now, hev, hruns⟩
  · left
    apply List.ext_getElem?
    intro i
    simp only [runClaims, List.getElem?_map]
    cases hr : f.runs[i]? with
    | none =>
      rw [List.getElem?_eq_none_iff] at hr
      rw [Option.map_none, Option.map_eq_none_iff, List.getElem?_eq_none_iff, hlen]
      exact hr
    | some r =>
      obtain ⟨r', hr', hcont⟩ := f.run_continues call ev hr
      rw [hr', Option.map_some, Option.map_some, hcont.claim]
  · right
    refine ⟨w, limit, now, hev, ?_⟩
    rw [runClaims, hruns, List.map_append, List.map_map]
    exact congrArg (f.runClaims ++ ·) (List.map_id _)

/-- Any property of the runs that every stage keeps is kept by every event. -/
theorem forall_runs_stepWith {P : Run W → Prop} (hstart : ∀ w c, P (Run.start w c))
    (hadvance : ∀ r i, P r → P (r.advance ev i)) (h : ∀ (i : Nat) r, f.runs[i]? = some r → P r) :
    ∀ (i : Nat) r, (f.stepWith call ev).1.runs[i]? = some r → P r := by
  intro i r' hr'
  rcases f.run_advanced call ev hr' with ⟨r, hr, rfl⟩ | ⟨w, _, _, c, _, _, _, rfl⟩
  · exact hadvance r i (h i r hr)
  · exact hstart w c

end Fleet

/-! ## Giving up -/

/-- Workers that give a task up: what is not started is dead-lettered, and what failed is
tried again only within a bound. -/
class BudgetedCode (W : Type) {ρ : outParam Type} [WorkerCode W ρ] where
  maxAttempts : W → Int
  route_deadLetters : ∀ {w : W} {task : Envelope} {now : Time} {call : OutcomeCall},
    WorkerCode.route w task now = some call → ∃ att, call = .deadLetter att
  reschedule_within : ∀ {w : W} {task : Envelope} {started finished : Time} {result : ρ}
    {att : Attempt} {nextAt : Time},
    WorkerCode.conclude w task started finished result = some (.reschedule att nextAt) →
      task.attemptCount + 1 < maxAttempts w

instance {ε : Type} [HandlerError ε] : BudgetedCode (Worker ε) where
  maxAttempts := fun w => w.spec.maxAttempts
  route_deadLetters := by
    intro w task now call h
    simp only [WorkerCode.route] at h
    split at h
    · cases h
    · exact ⟨_, (Option.some.inj h).symm⟩
  reschedule_within := by
    intro w task started finished result att nextAt h
    have h' : w.conclude task started finished result.1 result.2 = .reschedule att nextAt :=
      Option.some.inj h
    unfold Worker.conclude at h'
    split at h'
    · cases h'
    · dsimp only at h'
      split at h'
      · cases h'
      · rename_i hcont
        exact Int.not_le.mp fun hle => hcont (Or.inr hle)

instance {δ : Type} [Throwable δ] : BudgetedCode (JavaWorker δ) where
  maxAttempts := fun w => w.spec.maxAttempts
  route_deadLetters := by
    intro w task now call h
    simp only [WorkerCode.route] at h
    split at h
    · cases h
    · exact ⟨_, (Option.some.inj h).symm⟩
  reschedule_within := by
    intro w task started finished result att nextAt h
    have h' : w.conclude task started finished result.1 result.2 = .reschedule att nextAt :=
      Option.some.inj h
    unfold JavaWorker.conclude at h'
    split at h'
    · cases h'
    · dsimp only at h'
      split at h'
      · cases h'
      · rename_i hcont
        exact Int.not_le.mp fun hle => hcont (Or.inr hle)

instance {W V ρ π : Type} [WorkerCode W ρ] [WorkerCode V π] [BudgetedCode W] [BudgetedCode V] :
    BudgetedCode (W ⊕ V) where
  maxAttempts := Sum.elim BudgetedCode.maxAttempts BudgetedCode.maxAttempts
  route_deadLetters := by
    rintro (w | w) task now call h
    · exact BudgetedCode.route_deadLetters (W := W) h
    · exact BudgetedCode.route_deadLetters (W := V) h
  reschedule_within := by
    rintro (w | w) task started finished (result | result) att nextAt h
    · exact BudgetedCode.reschedule_within (W := W) h
    · cases h
    · cases h
    · exact BudgetedCode.reschedule_within (W := V) h

namespace Run
variable {W ρ : Type} [WorkerCode W ρ] [BudgetedCode W]

/-- The run schedules its task again only within the budget of its worker. -/
def Within (r : Run W) : Prop :=
  ∀ att nextAt, r.phase = .writing (.reschedule att nextAt) →
    r.claim.task.attemptCount + 1 < BudgetedCode.maxAttempts r.worker

theorem within_start (w : W) (c : Claimed) : (Run.start w c).Within := by
  intro att nextAt h
  cases h

theorem Within.advance {r : Run W} (h : r.Within) (ev : Event W ρ) (i : Nat) :
    (r.advance ev i).Within := by
  apply advance_rec ev i r h
  · intro now
    unfold route
    split
    · split
      · intro att nextAt hp
        cases hp
      · rename_i call hcall
        intro att nextAt hp
        obtain ⟨att', rfl⟩ := BudgetedCode.route_deadLetters hcall
        cases hp
    · exact h
  · intro started
    unfold invoke
    split
    · intro att nextAt hp
      cases hp
    · exact h
  · intro finished result
    unfold finish
    split
    · split
      · rename_i call hcall
        intro att nextAt hp
        obtain rfl := Phase.writing.inj hp
        exact BudgetedCode.reschedule_within hcall
      · exact h
    · exact h
  · unfold write
    split
    · intro att nextAt hp
      cases hp
    · exact h
  · intro att nextAt hp
    cases hp

end Run

end Rdq.Engine
