import Rdq.Engine.Process

/-!
# The decisions of a Java worker

`worker/engine/Worker.java`, `Worker.processOne`, with the routing of
`HandlerRegistry.resolve`. The texts of the routing errors put plain quotation
marks around their arguments, where the Go engine quotes with `%q`. An exception
without a message is recorded with a NULL message, which reads back as the empty
text.
-/

namespace Rdq.Engine

/-- What the Java engine reads from the exception a handler threw. -/
class Throwable (δ : Type) where
  /-- The message, which may be null. -/
  getMessage : δ → Option String
  /-- The class name of the root cause, `Classifier.errorType`. -/
  errorType : δ → String

/-- `QueueSpec` of the Java engine, as its builder makes it. -/
structure JavaQueueSpec (δ : Type) where
  queue : String
  maxAttempts : Int
  /-- `Backoff.delay`, from the retry number and the random draw. -/
  backoffDelay : Int → Nat → Duration
  /-- The decision of `Classifier.classify`. -/
  classify : δ → String → Decision
  lease : Duration
  heartbeat : Bool
  versionPolicy : Policy
  queue_ne : queue ≠ ""
  /-- The builder requires a lease of at least a millisecond. -/
  lease_pos : 1000000 ≤ lease
  maxAttempts_pos : 1 ≤ maxAttempts

/-- One queue of a Java worker. -/
structure JavaWorker (δ : Type) where
  spec : JavaQueueSpec δ
  registry : Registry

namespace JavaWorker
variable {δ : Type} (w : JavaWorker δ)

/-- `HandlerRegistry.resolve`. -/
def resolve (task : Envelope) : Resolution :=
  match w.registry.lookup task.handlerRef with
  | none =>
    .deadLetter
      { type := errorTypeUnroutable
        message := "no handler registered for handler_ref \"" ++ task.handlerRef ++ "\"" }
  | some h =>
    if task.handlerVersion = "" || task.handlerVersion = h.version then .run h
    else
      match w.spec.versionPolicy with
      | .deadLetter =>
        .deadLetter
          { type := errorTypeVersionMismatch
            message := "handler_version \"" ++ task.handlerVersion ++
              "\" does not match registered handler \"" ++ h.version ++
              "\" for handler_ref \"" ++ task.handlerRef ++ "\"" }
      | .runLatest => .run h

/-- The poison-pill guard and the registry, in this order. -/
def route (task : Envelope) : Resolution :=
  if w.spec.maxAttempts ≤ task.attemptCount then
    .deadLetter
      { type := errorTypeMaxAttempts
        message := "max_attempts (" ++ toString w.spec.maxAttempts ++
          ") reached without a successful attempt" }
  else w.resolve task

/-- The outcome call after the handler returned, or threw `result`. -/
def conclude [Throwable δ] (task : Envelope) (started finished : Time)
    (result : Option δ) (draw : Nat) : OutcomeCall :=
  let budgetNo := task.attemptCount + 1
  match result with
  | none =>
    .complete
      { attemptNo := historyNo task
        startedAt := started
        finishedAt := some finished
        outcome := .success }
  | some ex =>
    let errType := Throwable.errorType ex
    let decision := w.spec.classify ex errType
    let att : Attempt :=
      { attemptNo := historyNo task
        startedAt := started
        finishedAt := some finished
        outcome := decision.outcome
        error := some { type := errType, message := (Throwable.getMessage ex).getD "" } }
    if decision = .permanent ∨ w.spec.maxAttempts ≤ budgetNo then .deadLetter att
    else .reschedule att (finished + w.spec.backoffDelay budgetNo draw)

theorem attemptNo_conclude [Throwable δ] (task : Envelope) (started finished : Time)
    (result : Option δ) (draw : Nat) :
    (w.conclude task started finished result draw).attempt.attemptNo = historyNo task := by
  cases result with
  | none => rfl
  | some ex =>
    simp only [conclude]
    split <;> rfl

end JavaWorker

instance {δ : Type} [Throwable δ] : WorkerCode (JavaWorker δ) (Option δ × Nat) where
  queue := fun w => w.spec.queue
  lease := fun w => w.spec.lease
  heartbeat := fun w => w.spec.heartbeat
  route := fun w task now =>
    match w.route task with
    | .run _ => none
    | .deadLetter e => some (deadLetterCall task e now)
  conclude := fun w task started finished result =>
    some (w.conclude task started finished result.1 result.2)
  route_numbered := by
    intro w task now call h
    split at h
    · cases h
    · cases h
      rfl
  conclude_numbered := by
    intro w task started finished result call h
    cases h
    exact w.attemptNo_conclude task started finished result.1 result.2

/-- An unchecked exception of the platform. -/
structure RuntimeException where
  message : Option String
deriving DecidableEq, Repr

instance : Throwable RuntimeException where
  getMessage := RuntimeException.message
  errorType := fun _ => "java.lang.RuntimeException"

/-- A Java worker of the queue of `oneShotWorker` that tries a task once, too. -/
def oneShotJavaWorker : JavaWorker RuntimeException where
  spec :=
    { queue := oneShotWorker.spec.queue
      maxAttempts := oneShotWorker.spec.maxAttempts
      backoffDelay := fun _ _ => 0
      classify := fun _ _ => .retryable
      lease := 1000000
      heartbeat := false
      versionPolicy := .runLatest
      queue_ne := oneShotWorker.spec.queue_ne
      lease_pos := by decide
      maxAttempts_pos := oneShotWorker.spec.maxAttempts_pos }
  registry := oneShotWorker.registry

end Rdq.Engine
