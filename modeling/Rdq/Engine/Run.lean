import Rdq.Core.Spi

/-!
# Runs of a worker

A worker takes a claimed task through the same stages in every language: it
routes the task, invokes the handler, and ends with one outcome call. The code
it runs between these points reads only the claimed snapshot, and it may stall
at each of them. `WorkerCode` says
what that code decides; the engines are its instances. A `Run` is one claimed
task on its way through the stages.
-/

namespace Rdq.Engine

/-- The storage call that ends a run, up to the store's own clock reading. -/
inductive OutcomeCall
  | complete (attempt : Attempt)
  | reschedule (attempt : Attempt) (nextAt : Time)
  | deadLetter (attempt : Attempt)
deriving DecidableEq, Repr

namespace OutcomeCall

/-- The attempt the call records. -/
def attempt : OutcomeCall → Attempt
  | .complete att => att
  | .reschedule att _ => att
  | .deadLetter att => att

/-- The call as an operation of the store. -/
def op (call : OutcomeCall) (id : TaskID) (token : ClaimToken) (now : Time) : Op :=
  match call with
  | .complete att => .complete id token att now
  | .reschedule att nextAt => .reschedule id token att nextAt
  | .deadLetter att => .deadLetter id token att now

/-- The attempt an operation of the store carries. -/
def recorded? : Op → Option Attempt
  | .complete _ _ att _ => some att
  | .reschedule _ _ att _ => some att
  | .deadLetter _ _ att _ => some att
  | _ => none

@[simp] theorem recorded?_op (call : OutcomeCall) (id : TaskID) (token : ClaimToken)
    (now : Time) : recorded? (call.op id token now) = some call.attempt := by
  cases call <;> rfl

@[simp] theorem outcome?_op (call : OutcomeCall) (id : TaskID) (token : ClaimToken)
    (now : Time) : (call.op id token now).outcome? = some (id, token) := by
  cases call <;> rfl

end OutcomeCall

/-- The history number of the attempt a run records, continuing the snapshot. -/
def historyNo (task : Envelope) : Int := task.attempts.length + 1

/-- What the workers of a kind do; `ρ` is what their handlers can return. -/
class WorkerCode (W : Type) (ρ : outParam Type) where
  queue : W → String
  lease : W → Duration
  heartbeat : W → Bool
  /-- The call that dead-letters a claimed task without running it, if any. -/
  route : W → Envelope → Time → Option OutcomeCall
  /-- The call after the handler returned, from the times it started and
  finished; none for a result this worker's handlers cannot return. -/
  conclude : W → Envelope → Time → Time → ρ → Option OutcomeCall
  /-- Both number their attempt past the history of the snapshot. -/
  route_numbered : ∀ {w task now call}, route w task now = some call →
    call.attempt.attemptNo = historyNo task
  conclude_numbered : ∀ {w task started finished result call},
    conclude w task started finished result = some call →
    call.attempt.attemptNo = historyNo task

/-- Workers of two kinds side by side. -/
instance {W V ρ π : Type} [WorkerCode W ρ] [WorkerCode V π] : WorkerCode (W ⊕ V) (ρ ⊕ π) where
  queue := Sum.elim WorkerCode.queue WorkerCode.queue
  lease := Sum.elim WorkerCode.lease WorkerCode.lease
  heartbeat := Sum.elim WorkerCode.heartbeat WorkerCode.heartbeat
  route := Sum.elim WorkerCode.route WorkerCode.route
  conclude
    | .inl w, task, started, finished, .inl result =>
      WorkerCode.conclude w task started finished result
    | .inr w, task, started, finished, .inr result =>
      WorkerCode.conclude w task started finished result
    | _, _, _, _, _ => none
  route_numbered := by
    rintro (w | w) task now call h
    · exact WorkerCode.route_numbered (W := W) h
    · exact WorkerCode.route_numbered (W := V) h
  conclude_numbered := by
    rintro (w | w) task started finished (result | result) call h
    · exact WorkerCode.conclude_numbered (W := W) h
    · cases h
    · cases h
    · exact WorkerCode.conclude_numbered (W := V) h

/-- How far a run has come. -/
inductive Phase
  | claimed
  /-- Past the guard and the registry, with the handler still to be invoked. -/
  | routed
  | running (started : Time)
  | writing (call : OutcomeCall)
  | ended
deriving DecidableEq, Repr

/-- The handler is still to be invoked. -/
def Phase.waits : Phase → Bool
  | .claimed | .routed => true
  | _ => false

/-- One run: the worker, the claim it was started with and its progress. -/
structure Run (W : Type) where
  worker : W
  claim : Claimed
  phase : Phase

namespace Run
variable {W ρ : Type} [WorkerCode W ρ] (r : Run W)

def start (w : W) (c : Claimed) : Run W := ⟨w, c, .claimed⟩

def route (now : Time) : Run W :=
  match r.phase with
  | .claimed =>
    match WorkerCode.route r.worker r.claim.task now with
    | none => { r with phase := .routed }
    | some call => { r with phase := .writing call }
  | _ => r

def invoke (started : Time) : Run W :=
  match r.phase with
  | .routed => { r with phase := .running started }
  | _ => r

def finish (finished : Time) (result : ρ) : Run W :=
  match r.phase with
  | .running started =>
    match WorkerCode.conclude r.worker r.claim.task started finished result with
    | some call => { r with phase := .writing call }
    | none => r
  | _ => r

def write : Run W :=
  match r.phase with
  | .writing _ => { r with phase := .ended }
  | _ => r

def stop : Run W := { r with phase := .ended }

/-- The heartbeat call of a run that got past its routing. -/
def heartbeatCall? (now : Time) : Option Op :=
  if r.phase ≠ .claimed ∧ WorkerCode.heartbeat r.worker = true then
    some (.extendLease r.claim.task.id r.claim.token (WorkerCode.lease r.worker) now)
  else none

/-- The outcome call of a run that has one. -/
def outcomeCall? (now : Time) : Option Op :=
  match r.phase with
  | .writing call => some (call.op r.claim.task.id r.claim.token now)
  | _ => none

/-- `r'` continues `r`: same worker and claim, never back before routing or before the
handler was invoked, past the guard only as the worker decides, and an outcome call only
with a number past the history of the snapshot. -/
structure Continues (r r' : Run W) : Prop where
  worker : r'.worker = r.worker
  claim : r'.claim = r.claim
  claimed : r'.phase = .claimed → r.phase = .claimed
  routed : r'.phase = .routed → r.phase = .routed ∨
    r.phase = .claimed ∧ ∃ now, WorkerCode.route r.worker r.claim.task now = none
  numbered : ∀ call, r'.phase = .writing call →
    r.phase = .writing call ∨ call.attempt.attemptNo = historyNo r.claim.task

theorem Continues.refl : r.Continues r := ⟨rfl, rfl, id, Or.inl, fun _ h => Or.inl h⟩

theorem Continues.trans {r r' r'' : Run W} (h : r.Continues r') (h' : r'.Continues r'') :
    r.Continues r'' where
  worker := h'.worker.trans h.worker
  claim := h'.claim.trans h.claim
  claimed := fun hp => h.claimed (h'.claimed hp)
  routed := by
    intro hp
    rcases h'.routed hp with hp | ⟨hp, hroute⟩
    · exact h.routed hp
    · rw [h.worker, h.claim] at hroute
      exact Or.inr ⟨h.claimed hp, hroute⟩
  numbered := by
    intro call hcall
    rcases h'.numbered call hcall with hw | hno
    · exact h.numbered call hw
    · right
      rw [hno, h.claim]

theorem Continues.waits {r r' : Run W} (h : r.Continues r') (hw : r'.phase.waits = true) :
    r.phase.waits = true := by
  cases hp : r'.phase with
  | claimed =>
    rw [h.claimed hp]
    rfl
  | routed =>
    rcases h.routed hp with hp | ⟨hp, -⟩ <;> rw [hp] <;> rfl
  | _ =>
    rw [hp] at hw
    cases hw

theorem continues_writing {call : OutcomeCall}
    (h : call.attempt.attemptNo = historyNo r.claim.task) :
    r.Continues { r with phase := .writing call } := by
  refine ⟨rfl, rfl, (fun hp => by cases hp), (fun hp => by cases hp), ?_⟩
  rintro call' ⟨⟩
  exact Or.inr h

theorem continues_stop : r.Continues r.stop :=
  ⟨rfl, rfl, (fun h => by cases h), (fun h => by cases h), (fun _ h => by cases h)⟩

theorem continues_write : r.Continues r.write := by
  unfold write
  split
  · exact r.continues_stop
  · exact Continues.refl r

theorem getElem?_modify_continues {runs : List (Run W)} {g : Run W → Run W}
    (hg : ∀ r : Run W, r.Continues (g r)) {i j : Nat} {r : Run W} (hr : runs[j]? = some r) :
    ∃ r', (runs.modify i g)[j]? = some r' ∧ r.Continues r' := by
  rw [List.getElem?_modify, hr]
  by_cases hij : i = j
  · exact ⟨g r, by simp [hij], hg r⟩
  · exact ⟨r, by simp [hij], Continues.refl r⟩

theorem continues_route (now : Time) : r.Continues (r.route now) := by
  unfold route
  split
  · rename_i hphase
    split
    · rename_i hroute
      exact ⟨rfl, rfl, (fun h => by cases h), fun _ => Or.inr ⟨hphase, now, hroute⟩,
        (fun _ h => by cases h)⟩
    · rename_i call hcall
      exact r.continues_writing (WorkerCode.route_numbered hcall)
  · exact Continues.refl r

theorem continues_invoke (started : Time) : r.Continues (r.invoke started) := by
  unfold invoke
  split
  · exact ⟨rfl, rfl, (fun h => by cases h), (fun h => by cases h), (fun _ h => by cases h)⟩
  · exact Continues.refl r

theorem continues_finish (finished : Time) (result : ρ) :
    r.Continues (r.finish finished result) := by
  unfold finish
  split
  · split
    · rename_i call hcall
      exact r.continues_writing (WorkerCode.conclude_numbered hcall)
    · exact Continues.refl r
  · exact Continues.refl r

theorem waits_invoke (started : Time) (h : r.phase = .routed) :
    (r.invoke started).phase.waits = false := by
  simp only [invoke, h]
  rfl

end Run

end Rdq.Engine
