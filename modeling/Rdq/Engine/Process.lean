import Rdq.Engine.Registry
import Rdq.Engine.Run

/-!
# The decisions of a Go worker

`core/engine/worker.go`, `Worker.process`: what a worker does with a claimed
task. The function is cut where it lets time pass: before the handler runs it
routes the task (`route`), and after the handler returned it decides on one
outcome call (`conclude`).

## Implementation notes

The handler's error is an arbitrary type with the text and the type name that
are recorded. The classifier and the backoff ladder are fields of the queue
spec, as functions; the ladder's random draw is an argument. Logging, metrics
and the handler's context do not influence the calls and are left out.
-/

namespace Rdq.Engine

/-- What the engine reads from the error a handler returned. -/
class HandlerError (ε : Type) where
  /-- The text, `Error()`. -/
  text : ε → String
  /-- The recorded type name, `policy.ErrorType`. -/
  errorType : ε → String

/-- An error made by `errors.New`. -/
structure ErrorString where
  text : String
deriving DecidableEq, Repr

instance : HandlerError ErrorString where
  text := ErrorString.text
  errorType := fun _ => "*errors.errorString"

/-- The verdict on a failed attempt. -/
inductive Decision
  | retryable
  | permanent
deriving DecidableEq, Repr

def Decision.outcome : Decision → Outcome
  | .permanent => .permanentFailure
  | .retryable => .retryableFailure

/-- The resolved execution contract of one queue. -/
structure QueueSpec (ε : Type) where
  queue : String
  maxAttempts : Int
  /-- `Backoff.Delay`, from the retry number and the random draw. -/
  backoffDelay : Int → Nat → Duration
  /-- The decision of `Classifier.Classify`, from the error and its type name. -/
  classify : ε → String → Decision
  lease : Duration
  heartbeat : Bool
  versionPolicy : Policy

/-- A spec as `NewWorker` lets it through. -/
structure QueueState (ε : Type) extends QueueSpec ε where
  queue_ne : queue ≠ ""
  lease_pos : 0 < lease
  maxAttempts_pos : 1 ≤ maxAttempts

/-- The checks and defaults of `NewWorker` for one queue spec. -/
def newQueueState {ε : Type} (unicodePrint : Char → Bool) (spec : QueueSpec ε) :
    Except String (QueueState ε) :=
  if hq : spec.queue = "" then .error "engine: queue spec with empty name"
  else if hl : spec.lease ≤ 0 then
    .error ("engine: queue " ++ quote unicodePrint spec.queue ++ " has a non-positive lease")
  else
    .ok { spec with
      maxAttempts := if spec.maxAttempts < 1 then 1 else spec.maxAttempts
      queue_ne := hq
      lease_pos := Int.not_le.mp hl
      maxAttempts_pos := by split <;> omega }

/-- One queue of a worker: its spec, the worker's registry and the Unicode
tables its error texts are quoted with. -/
structure Worker (ε : Type) where
  spec : QueueState ε
  registry : Registry
  unicodePrint : Char → Bool

def errorTypeMaxAttempts : String := "rdq.MaxAttemptsExceeded"

/-- `Worker.deadLetter`: the terminal attempt of a task that is not run. -/
def deadLetterCall (task : Envelope) (e : TaskError) (now : Time) : OutcomeCall :=
  .deadLetter
    { attemptNo := historyNo task
      startedAt := now
      finishedAt := some now
      outcome := .permanentFailure
      error := some e }

namespace Worker
variable {ε : Type} (w : Worker ε)

/-- The poison-pill guard and the registry, in this order. -/
def route (task : Envelope) : Resolution :=
  if w.spec.maxAttempts ≤ task.attemptCount then
    .deadLetter
      { type := errorTypeMaxAttempts
        message := "max_attempts (" ++ toString w.spec.maxAttempts ++
          ") reached without a successful attempt" }
  else
    w.registry.resolve w.unicodePrint task w.spec.versionPolicy

/-- A routed run is within its retry budget. -/
theorem attemptCount_lt_of_route {task : Envelope} {h : Handler}
    (hr : w.route task = .run h) : task.attemptCount < w.spec.maxAttempts := by
  unfold route at hr
  split at hr
  · cases hr
  · omega

/-- The outcome call after the handler returned `result`: `none` for success. -/
def conclude [HandlerError ε] (task : Envelope) (started finished : Time)
    (result : Option ε) (draw : Nat) : OutcomeCall :=
  let budgetNo := task.attemptCount + 1
  match result with
  | none =>
    .complete
      { attemptNo := historyNo task
        startedAt := started
        finishedAt := some finished
        outcome := .success }
  | some err =>
    let errType := HandlerError.errorType err
    let decision := w.spec.classify err errType
    let att : Attempt :=
      { attemptNo := historyNo task
        startedAt := started
        finishedAt := some finished
        outcome := decision.outcome
        error := some { type := errType, message := HandlerError.text err } }
    if decision = .permanent ∨ w.spec.maxAttempts ≤ budgetNo then .deadLetter att
    else .reschedule att (finished + w.spec.backoffDelay budgetNo draw)

/-- Every outcome call is numbered past the history of the snapshot. -/
theorem attemptNo_conclude [HandlerError ε] (task : Envelope) (started finished : Time)
    (result : Option ε) (draw : Nat) :
    (w.conclude task started finished result draw).attempt.attemptNo = historyNo task := by
  cases result with
  | none => rfl
  | some err =>
    simp only [conclude]
    split <;> rfl

/-- Every outcome call carries the reading of the worker's clock after the handler returned. -/
theorem finishedAt_conclude [HandlerError ε] (task : Envelope) (started finished : Time)
    (result : Option ε) (draw : Nat) :
    (w.conclude task started finished result draw).attempt.finishedAt = some finished := by
  cases result with
  | none => rfl
  | some err =>
    simp only [conclude]
    split <;> rfl

end Worker

/-- A Go worker; its handlers return an error or not, and every conclusion draws
from the worker's random source. -/
instance {ε : Type} [HandlerError ε] : WorkerCode (Worker ε) (Option ε × Nat) where
  queue := fun w => w.spec.queue
  lease := fun w => w.spec.lease
  heartbeat := fun w => w.spec.heartbeat
  route := fun w task now =>
    match w.route task with
    | .run _ => none
    | .deadLetter e => some (deadLetterCall task e now)
  conclude := fun w task started finished result =>
    some (w.conclude task started finished result.1 result.2)
  route_numbered := by
    intro w task now call h
    split at h
    · cases h
    · cases h
      rfl
  conclude_numbered := by
    intro w task started finished result call h
    cases h
    exact w.attemptNo_conclude task started finished result.1 result.2

/-- A Go worker invokes the handler only within the retry budget. -/
theorem Worker.attemptCount_lt_of_route_none {ε : Type} [HandlerError ε] {w : Worker ε}
    {task : Envelope} {now : Time} (h : WorkerCode.route w task now = none) :
    task.attemptCount < w.spec.maxAttempts := by
  simp only [WorkerCode.route] at h
  split at h
  · rename_i handler hrun
    exact w.attemptCount_lt_of_route hrun
  · cases h

/-- A worker of queue `q` that tries a task once. -/
def oneShotWorker : Worker ErrorString where
  spec :=
    { queue := "q"
      maxAttempts := 1
      backoffDelay := fun _ _ => 0
      classify := fun _ _ => .retryable
      lease := 10
      heartbeat := false
      versionPolicy := .runLatest
      queue_ne := by decide
      lease_pos := by decide
      maxAttempts_pos := by decide }
  registry := ⟨⟨[("h", ⟨"v1"⟩)], by simp⟩⟩
  unicodePrint := fun _ => true

end Rdq.Engine
