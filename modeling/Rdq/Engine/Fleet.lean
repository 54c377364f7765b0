import Rdq.Engine.Run
import Rdq.Foundation.Trace

/-!
# A fleet of workers on one store

Any number of workers share one store. Every granted claim starts a run of a
worker; the runs are numbered in the order of their grants and keep their
number. The scheduler, all clock readings, the handlers' results, crashes and
lost writes are events, so a list of events is one interleaving and nothing
restricts which events may follow each other.

An event makes at most one call of the store (`storeCall?`) and moves at most
one run, or starts the runs of a poll (`nextRuns`). The store itself is a
parameter: `stepWith` takes the answer it gives to each call.
-/

namespace Rdq.Engine

/-- What happens next. -/
inductive Event (W ρ : Type)
  /-- A client submits a task. -/
  | enqueue (task : Envelope)
  /-- An operator redrives dead letters. -/
  | redrive (queue : String) (sel : Selector) (now : Time)
  /-- An operator purges dead letters. -/
  | purge (queue : String) (sel : Selector)
  /-- A sweeper enforces the retention of succeeded tasks. -/
  | purgeSucceeded (queue : String) (olderThan : Time)
  /-- A worker polls its queue and starts a run for every claim. -/
  | poll (worker : W) (limit : Int) (now : Time)
  /-- A run passes the guard and the registry, or is dead-lettered there. -/
  | route (i : Nat) (now : Time)
  /-- A run that was routed invokes its handler. -/
  | invoke (i : Nat) (started : Time)
  /-- The handler of a run returns. -/
  | finish (i : Nat) (finished : Time) (result : ρ)
  /-- The heartbeat of a run extends its lease. One that is under way when the
  handler returns may still arrive afterwards. -/
  | heartbeat (i : Nat) (now : Time)
  /-- The outcome call of a run reaches the store. -/
  | write (i : Nat) (now : Time)
  /-- The worker of a run crashes, or the outcome call of the run is lost. -/
  | stop (i : Nat)

/-- What an event shows to an observer. -/
inductive Note
  | quiet
  | invoked (i : Nat) (id : TaskID)
  | answered (reply : Reply)
deriving DecidableEq, Repr

/-- The store and all runs that were ever started, by their number. -/
structure Fleet (σ W : Type) where
  store : σ
  runs : List (Run W)

namespace Fleet
variable {σ W ρ : Type} [WorkerCode W ρ]

/-- The storage call an event makes. -/
def storeCall? (f : Fleet σ W) : Event W ρ → Option Op
  | .enqueue task => some (.enqueue task)
  | .redrive queue sel now => some (.redrive queue sel now)
  | .purge queue sel => some (.purge queue sel)
  | .purgeSucceeded queue olderThan => some (.purgeSucceeded queue olderThan)
  | .poll w limit now =>
    some (.claimDue (WorkerCode.queue w) limit (WorkerCode.lease w) now)
  | .heartbeat i now => f.runs[i]?.bind fun r => r.heartbeatCall? now
  | .write i now => f.runs[i]?.bind fun r => r.outcomeCall? now
  | .route _ _ | .invoke _ _ | .finish _ _ _ | .stop _ => none

/-- The runs after an event whose storage call granted `claims`. -/
def nextRuns (f : Fleet σ W) (claims : List Claimed) : Event W ρ → List (Run W)
  | .poll w _ _ => f.runs ++ claims.map (Run.start w)
  | .route i now => f.runs.modify i fun r => r.route now
  | .invoke i started => f.runs.modify i fun r => r.invoke started
  | .finish i finished result => f.runs.modify i fun r => r.finish finished result
  | .write i _ => f.runs.modify i fun r => r.write
  | .stop i => f.runs.modify i fun r => r.stop
  | _ => f.runs

/-- The handler invocation an event is, if it is one. -/
def invocation? (f : Fleet σ W) : Event W ρ → Option (Nat × TaskID)
  | .invoke i _ =>
    (f.runs[i]?.filter fun r => r.phase = .routed).map fun r => (i, r.claim.task.id)
  | _ => none

/-- Perform one event on a store that answers `call`. -/
def stepWith (call : Op → σ × Reply) (f : Fleet σ W) (ev : Event W ρ) : Fleet σ W × Note :=
  match f.storeCall? ev with
  | some op => (⟨(call op).1, f.nextRuns (call op).2.claims ev⟩, .answered (call op).2)
  | none =>
    (⟨f.store, f.nextRuns [] ev⟩,
      match f.invocation? ev with
      | some (i, id) => .invoked i id
      | none => .quiet)

/-- The claims the storage call of an event grants. -/
def claims (call : Op → σ × Reply) (f : Fleet σ W) (ev : Event W ρ) : List Claimed :=
  match f.storeCall? ev with
  | some op => (call op).2.claims
  | none => []

/-! ## The calls of an event -/

/-- The calls a run makes carry its claim. -/
theorem fenced?_of_runCall {r : Run W} {now : Time} {op : Op}
    (h : r.heartbeatCall? now = some op ∨ r.outcomeCall? now = some op) :
    op.fenced? = some (r.claim.task.id, r.claim.token) := by
  rcases h with h | h
  · unfold Run.heartbeatCall? at h
    split at h
    · cases h
      rfl
    · cases h
  · unfold Run.outcomeCall? at h
    split at h
    · cases h
      exact Op.fenced?_of_outcome? (OutcomeCall.outcome?_op _ _ _ _)
    · cases h

variable {f : Fleet σ W} {ev : Event W ρ}

/-- A call that is not fenced comes from a client or from a poll. -/
theorem storeCall?_unfenced {op : Op} (h : f.storeCall? ev = some op) (hop : op.fenced? = none) :
    (∀ task, op = .enqueue task → ev = .enqueue task) ∧
      ∀ queue limit lease now, op = .claimDue queue limit lease now →
        ∃ w, ev = .poll w limit now ∧ queue = WorkerCode.queue w := by
  cases ev with
  | enqueue | redrive | purge | purgeSucceeded =>
    cases h
    simp
  | poll w limit now =>
    cases h
    refine ⟨(fun _ heq => by cases heq), ?_⟩
    rintro queue limit' lease now' ⟨⟩
    exact ⟨w, rfl, rfl⟩
  | heartbeat i now =>
    obtain ⟨r, _, hr⟩ := Option.bind_eq_some_iff.mp h
    rw [fenced?_of_runCall (Or.inl hr)] at hop
    cases hop
  | write i now =>
    obtain ⟨r, _, hr⟩ := Option.bind_eq_some_iff.mp h
    rw [fenced?_of_runCall (Or.inr hr)] at hop
    cases hop
  | route | invoke | finish | stop => cases h

theorem storeCall?_enqueue {task : Envelope} (h : f.storeCall? ev = some (.enqueue task)) :
    ev = .enqueue task :=
  (storeCall?_unfenced h rfl).1 task rfl

/-- Only a poll claims. -/
theorem storeCall?_claimDue {queue : String} {limit : Int} {lease : Duration} {now : Time}
    (h : f.storeCall? ev = some (.claimDue queue limit lease now)) :
    ∃ w, ev = .poll w limit now ∧ queue = WorkerCode.queue w :=
  (storeCall?_unfenced h rfl).2 queue limit lease now rfl

/-- An outcome call comes from a run that has decided on it. -/
theorem storeCall?_outcome {op : Op} {x : TaskID × ClaimToken} (h : f.storeCall? ev = some op)
    (hop : op.outcome? = some x) :
    ∃ (i : Nat) (now : Time) (r : Run W) (call : OutcomeCall), f.runs[i]? = some r ∧
      r.phase = .writing call ∧ op = call.op r.claim.task.id r.claim.token now := by
  cases ev with
  | write i now =>
    obtain ⟨r, hr, hcall⟩ := Option.bind_eq_some_iff.mp h
    unfold Run.outcomeCall? at hcall
    split at hcall
    · rename_i call hphase
      exact ⟨i, now, r, call, hr, hphase, (Option.some.inj hcall).symm⟩
    · cases hcall
  | heartbeat i now =>
    obtain ⟨r, _, hr⟩ := Option.bind_eq_some_iff.mp h
    unfold Run.heartbeatCall? at hr
    split at hr
    · cases hr
      cases hop
    · cases hr
  | enqueue | redrive | purge | purgeSucceeded | poll =>
    cases h
    cases hop
  | route | invoke | finish | stop => cases h

/-! ## What one event does -/

section Step
variable (call : Op → σ × Reply) (f : Fleet σ W) (ev : Event W ρ)

theorem stepWith_store :
    (f.stepWith call ev).1.store =
      match f.storeCall? ev with
      | some op => (call op).1
      | none => f.store := by
  unfold stepWith
  split <;> rfl

theorem stepWith_runs : (f.stepWith call ev).1.runs = f.nextRuns (f.claims call ev) ev := by
  unfold stepWith claims
  split <;> rfl

/-- A started run goes on under its number. -/
theorem run_continues {i : Nat} {r : Run W} (hr : f.runs[i]? = some r) :
    ∃ r', (f.stepWith call ev).1.runs[i]? = some r' ∧ r.Continues r' := by
  rw [stepWith_runs]
  cases ev with
  | poll w limit now =>
    refine ⟨r, ?_, Run.Continues.refl r⟩
    obtain ⟨hi, _⟩ := List.getElem?_eq_some_iff.mp hr
    rw [nextRuns, List.getElem?_append_left hi, hr]
  | route j now => exact Run.getElem?_modify_continues (fun r => r.continues_route now) hr
  | invoke j started =>
    exact Run.getElem?_modify_continues (fun r => r.continues_invoke started) hr
  | finish j finished result =>
    exact Run.getElem?_modify_continues (fun r => r.continues_finish finished result) hr
  | write j now => exact Run.getElem?_modify_continues Run.continues_write hr
  | stop j => exact Run.getElem?_modify_continues Run.continues_stop hr
  | enqueue | redrive | purge | purgeSucceeded | heartbeat => exact ⟨r, hr, Run.Continues.refl r⟩

/-- The runs an event adds are those of the claims it was granted. -/
theorem length_stepWith :
    (f.stepWith call ev).1.runs.length = f.runs.length ∨
      ∃ w limit now, ev = .poll w limit now ∧
        (f.stepWith call ev).1.runs = f.runs ++ (f.claims call ev).map (Run.start w) := by
  rw [stepWith_runs]
  cases ev with
  | poll w limit now => exact Or.inr ⟨w, limit, now, rfl, rfl⟩
  | route | invoke | finish | write | stop => exact Or.inl (List.length_modify ..)
  | enqueue | redrive | purge | purgeSucceeded | heartbeat => exact Or.inl rfl

/-- A run after an event was there before, or was started by the event. -/
theorem run_origin {i : Nat} {r' : Run W} (hr' : (f.stepWith call ev).1.runs[i]? = some r') :
    (∃ r, f.runs[i]? = some r ∧ r.Continues r') ∨
      ∃ w limit now c, ev = .poll w limit now ∧ f.runs.length ≤ i ∧
        (f.claims call ev)[i - f.runs.length]? = some c ∧ r' = Run.start w c := by
  by_cases hi : i < f.runs.length
  · have hr : f.runs[i]? = some f.runs[i] := List.getElem?_eq_getElem hi
    obtain ⟨r'', hr'', hc⟩ := f.run_continues call ev hr
    obtain rfl := Option.some.inj (hr''.symm.trans hr')
    exact Or.inl ⟨_, hr, hc⟩
  · right
    rcases f.length_stepWith call ev with hlen | ⟨w, limit, now, rfl, hruns⟩
    · obtain ⟨hi', _⟩ := List.getElem?_eq_some_iff.mp hr'
      omega
    · rw [hruns, List.getElem?_append_right (by omega), List.getElem?_map] at hr'
      obtain ⟨c, hc, rfl⟩ := Option.map_eq_some_iff.mp hr'
      exact ⟨w, limit, now, c, rfl, by omega, hc, rfl⟩

end Step

/-- Every pending outcome call is numbered past the history its run was claimed with. -/
def OutcomesNumbered (f : Fleet σ W) : Prop :=
  ∀ (i : Nat) (r : Run W) (call : OutcomeCall), f.runs[i]? = some r →
    r.phase = .writing call → call.attempt.attemptNo = historyNo r.claim.task

theorem OutcomesNumbered.stepWith (h : f.OutcomesNumbered) (call : Op → σ × Reply)
    (ev : Event W ρ) : (f.stepWith call ev).1.OutcomesNumbered := by
  intro i r c hr hphase
  rcases f.run_origin call ev hr with ⟨r₀, hr₀, hcont⟩ | ⟨w, limit, now, c, _, _, _, rfl⟩
  · rw [hcont.claim]
    rcases hcont.numbered c hphase with hw | hno
    · exact h i r₀ c hr₀ hw
    · exact hno
  · cases hphase

/-- Every run that waits for its handler got past the guard of its worker. -/
def Guarded (f : Fleet σ W) : Prop :=
  ∀ (i : Nat) (r : Run W), f.runs[i]? = some r → r.phase = .routed →
    ∃ now, WorkerCode.route r.worker r.claim.task now = none

theorem Guarded.stepWith (h : f.Guarded) (call : Op → σ × Reply) (ev : Event W ρ) :
    (f.stepWith call ev).1.Guarded := by
  intro i r' hr' hphase
  rcases f.run_origin call ev hr' with ⟨r, hr, hcont⟩ | ⟨w, limit, now, c, _, _, _, rfl⟩
  · rw [hcont.worker, hcont.claim]
    rcases hcont.routed hphase with hp | ⟨-, hroute⟩
    · exact h i r hr hp
    · exact hroute
  · cases hphase

/-- A handler is invoked by a run that got past its routing, once. -/
theorem stepWith_invoked {call : Op → σ × Reply} {i : Nat} {id : TaskID}
    (h : (f.stepWith call ev).2 = .invoked i id) :
    ∃ r, f.runs[i]? = some r ∧ r.phase = .routed ∧ r.claim.task.id = id ∧
      ∀ r', (f.stepWith call ev).1.runs[i]? = some r' → r'.phase.waits = false := by
  have hinv : f.invocation? ev = some (i, id) := by
    unfold stepWith at h
    split at h
    · cases h
    · split at h
      · rename_i hsome
        cases h
        exact hsome
      · cases h
  cases ev with
  | invoke j started =>
    obtain ⟨r, hr, heq⟩ := Option.map_eq_some_iff.mp hinv
    obtain ⟨hfind, hrouted⟩ := Option.filter_eq_some_iff.mp hr
    obtain ⟨rfl, rfl⟩ := Prod.mk.inj heq
    have hphase : r.phase = .routed := of_decide_eq_true hrouted
    refine ⟨r, hfind, hphase, rfl, ?_⟩
    intro r' hr'
    rw [stepWith_runs, nextRuns, List.getElem?_modify, hfind] at hr'
    simp only [if_true, Option.map_eq_map, Option.map_some, Option.some.injEq] at hr'
    rw [← hr']
    exact r.waits_invoke started hphase
  | _ => cases hinv

end Fleet

end Rdq.Engine
