import Rdq.Engine.JavaProcess

/-!
# The Go and the Java engine decide alike

One claimed task, handed to a Go worker and to a Java worker with the same queue
spec and the same handlers. When the handlers return the same result, both runs
invoke the handler in the same cases and end with the same outcome call, up to
the clock readings and the wording of error texts.
-/

namespace Rdq.Engine

/-- What one run does: whether it invokes the handler, and its outcome calls. -/
structure Effects where
  invoked : Bool
  calls : List Op
deriving DecidableEq, Repr

/-- An undisturbed run of a claim: routed, the handler invoked and returned if it got that
far, and written, at four readings of the clock. -/
def effects {W ρ : Type} [WorkerCode W ρ] (w : W) (c : Claimed)
    (routed started finished written : Time) (result : ρ) : Effects :=
  let r := (Run.start w c).route routed
  let s := (r.invoke started).finish finished result
  { invoked := decide (r.phase = .routed)
    calls := (s.outcomeCall? written).toList ++ (s.write.outcomeCall? written).toList }

section Effects
variable {W ρ : Type} [WorkerCode W ρ] {w : W} {c : Claimed} {routed : Time} {call : OutcomeCall}

theorem effects_of_route (h : WorkerCode.route w c.task routed = some call)
    (started finished written : Time) (result : ρ) :
    effects w c routed started finished written result =
      ⟨false, [call.op c.task.id c.token written]⟩ := by
  simp [effects, Run.start, Run.route, Run.invoke, Run.finish, Run.outcomeCall?, Run.write, h]

theorem effects_of_conclude (h : WorkerCode.route w c.task routed = none)
    {started finished : Time} {result : ρ}
    (hc : WorkerCode.conclude w c.task started finished result = some call) (written : Time) :
    effects w c routed started finished written result =
      ⟨true, [call.op c.task.id c.token written]⟩ := by
  simp [effects, Run.start, Run.route, Run.invoke, Run.finish, Run.outcomeCall?, Run.write, h, hc]

end Effects

/-- Two attempts that record the same, but for times and texts. -/
structure SameAttempt (a b : Attempt) : Prop where
  attemptNo : a.attemptNo = b.attemptNo
  outcome : a.outcome = b.outcome
  errorType : a.error.map TaskError.type = b.error.map TaskError.type

/-- Two outcome calls of one claim that say the same. A reschedule asks the backoff of
either engine for the delay of retry `retry`. -/
inductive SameCall (c : Claimed) (retry : Int) (delay delay' : Int → Duration)
    (finished finished' : Time) : Op → Op → Prop
  | complete {a b : Attempt} {now now' : Time} (h : SameAttempt a b) :
      SameCall c retry delay delay' finished finished'
        (.complete c.task.id c.token a now) (.complete c.task.id c.token b now')
  | reschedule {a b : Attempt} (h : SameAttempt a b) :
      SameCall c retry delay delay' finished finished'
        (.reschedule c.task.id c.token a (finished + delay retry))
        (.reschedule c.task.id c.token b (finished' + delay' retry))
  | deadLetter {a b : Attempt} {now now' : Time} (h : SameAttempt a b) :
      SameCall c retry delay delay' finished finished'
        (.deadLetter c.task.id c.token a now) (.deadLetter c.task.id c.token b now')

section Agreement
variable {ε δ : Type} [HandlerError ε] [Throwable δ]

/-- The same queue spec and the same handlers, as far as a decision reads them. -/
structure SameSpec (w : Worker ε) (v : JavaWorker δ) : Prop where
  queue : w.spec.queue = v.spec.queue
  maxAttempts : w.spec.maxAttempts = v.spec.maxAttempts
  versionPolicy : w.spec.versionPolicy = v.spec.versionPolicy
  registry : w.registry = v.registry

/-- The same result of a handler: success, or a failure of one type and one verdict. -/
inductive SameResult (w : Worker ε) (v : JavaWorker δ) : Option ε → Option δ → Prop
  | success : SameResult w v none none
  | failure {err : ε} {ex : δ} (htype : HandlerError.errorType err = Throwable.errorType ex)
      (hverdict : w.spec.classify err (HandlerError.errorType err) =
        v.spec.classify ex (Throwable.errorType ex)) : SameResult w v (some err) (some ex)

/-- Two routing decisions that differ in the text of an error only. -/
inductive SameResolution : Resolution → Resolution → Prop
  | run (h : Handler) : SameResolution (.run h) (.run h)
  | deadLetter {e e' : TaskError} (h : e.type = e'.type) :
      SameResolution (.deadLetter e) (.deadLetter e')

theorem SameResolution.of_run {handler : Handler} {r : Resolution}
    (h : SameResolution (.run handler) r) : r = .run handler := by
  cases h
  rfl

theorem SameResolution.of_deadLetter {e : TaskError} {r : Resolution}
    (h : SameResolution (.deadLetter e) r) : ∃ e', r = .deadLetter e' ∧ e.type = e'.type := by
  cases h with
  | deadLetter h => exact ⟨_, rfl, h⟩

variable {w : Worker ε} {v : JavaWorker δ}

omit [HandlerError ε] [Throwable δ] in
theorem sameResolution_resolve (h : SameSpec w v) (task : Envelope) :
    SameResolution (w.registry.resolve w.unicodePrint task w.spec.versionPolicy)
      (v.resolve task) := by
  unfold Registry.resolve JavaWorker.resolve
  rw [h.registry, h.versionPolicy]
  cases v.registry.lookup task.handlerRef with
  | none => exact .deadLetter rfl
  | some handler =>
    dsimp only
    split
    · exact .run handler
    · cases v.spec.versionPolicy with
      | runLatest => exact .run handler
      | deadLetter => exact .deadLetter rfl

omit [HandlerError ε] [Throwable δ] in
theorem sameResolution_route (h : SameSpec w v) (task : Envelope) :
    SameResolution (w.route task) (v.route task) := by
  unfold Worker.route JavaWorker.route
  rw [h.maxAttempts]
  split
  · exact .deadLetter rfl
  · exact sameResolution_resolve h task

/-- After the handler both engines conclude with the same call. -/
theorem sameCall_conclude (h : SameSpec w v) {res : Option ε} {res' : Option δ}
    (hres : SameResult w v res res') (c : Claimed) (draw draw' : Nat)
    (started finished written started' finished' written' : Time) :
    SameCall c (c.task.attemptCount + 1) (w.spec.backoffDelay · draw) (v.spec.backoffDelay · draw')
      finished finished'
      ((w.conclude c.task started finished res draw).op c.task.id c.token written)
      ((v.conclude c.task started' finished' res' draw').op c.task.id c.token written') := by
  cases hres with
  | success => exact .complete ⟨rfl, rfl, rfl⟩
  | failure htype hverdict =>
    simp only [Worker.conclude, JavaWorker.conclude, h.maxAttempts, hverdict]
    split
    · exact .deadLetter ⟨rfl, rfl, congrArg some htype⟩
    · exact .reschedule ⟨rfl, rfl, congrArg some htype⟩

/-- For every claim and every result both engines invoke the handler in the same cases
and issue one outcome call each, with the claim's token and the same content. -/
theorem engines_decide_alike (h : SameSpec w v) {res : Option ε} {res' : Option δ}
    (hres : SameResult w v res res') (c : Claimed) (draw draw' : Nat)
    (routed started finished written routed' started' finished' written' : Time) :
    ∃ invoked op op',
      effects w c routed started finished written (res, draw) = ⟨invoked, [op]⟩ ∧
      effects v c routed' started' finished' written' (res', draw') = ⟨invoked, [op']⟩ ∧
      SameCall c (c.task.attemptCount + 1) (w.spec.backoffDelay · draw)
        (v.spec.backoffDelay · draw') finished finished' op op' := by
  have hroute := sameResolution_route h c.task
  cases hw : w.route c.task with
  | run handler =>
    have hv : v.route c.task = .run handler := SameResolution.of_run (hw ▸ hroute)
    have hgo : WorkerCode.route w c.task routed = none := by simp [WorkerCode.route, hw]
    have hjava : WorkerCode.route v c.task routed' = none := by simp [WorkerCode.route, hv]
    exact ⟨true, _, _, effects_of_conclude hgo rfl written,
      effects_of_conclude hjava rfl written',
      sameCall_conclude h hres c draw draw' started finished written started' finished' written'⟩
  | deadLetter e =>
    obtain ⟨e', hv, htype⟩ := SameResolution.of_deadLetter (hw ▸ hroute)
    have hgo : WorkerCode.route w c.task routed = some (deadLetterCall c.task e routed) := by
      simp [WorkerCode.route, hw]
    have hjava : WorkerCode.route v c.task routed' =
        some (deadLetterCall c.task e' routed') := by
      simp [WorkerCode.route, hv]
    exact ⟨false, _, _, effects_of_route hgo started finished written _,
      effects_of_route hjava started' finished' written' _,
      .deadLetter ⟨rfl, rfl, congrArg some htype⟩⟩

end Agreement

/-- An error that says its type, as a handler of either language can fail with. -/
structure NamedError where
  type : String
  text : String

instance : HandlerError NamedError := ⟨NamedError.text, NamedError.type⟩

instance : Throwable NamedError := ⟨fun e => some e.text, NamedError.type⟩

/-- A worker that tries a task four times and runs no other version than the one it names. -/
def pinningWorker : Worker NamedError where
  spec :=
    { queue := "pinned"
      maxAttempts := 4
      backoffDelay := fun n _ => 100 * n
      classify := fun _ type => if type = "Refused" then .permanent else .retryable
      lease := 5000000000
      heartbeat := true
      versionPolicy := .deadLetter
      queue_ne := by decide
      lease_pos := by decide
      maxAttempts_pos := by decide }
  registry := oneShotWorker.registry
  unicodePrint := fun _ => true

/-- The same queue of the Java engine. -/
def pinningJavaWorker : JavaWorker NamedError where
  spec :=
    { queue := pinningWorker.spec.queue
      maxAttempts := pinningWorker.spec.maxAttempts
      backoffDelay := fun n _ => 200 * n
      classify := pinningWorker.spec.classify
      lease := pinningWorker.spec.lease
      heartbeat := false
      versionPolicy := .deadLetter
      queue_ne := pinningWorker.spec.queue_ne
      lease_pos := by decide
      maxAttempts_pos := pinningWorker.spec.maxAttempts_pos }
  registry := pinningWorker.registry

def refusedAttempt : Attempt where
  attemptNo := 1
  startedAt := 1
  finishedAt := some 2
  outcome := .permanentFailure
  error := some { type := "Refused", message := "" }

/-- A task of version `v1` that failed once, was dead-lettered and redriven. -/
def redrivenTask : Envelope :=
  { Envelope.submitted "t" "pinned" "h" 0 with
    handlerVersion := "v1"
    redriveCount := 1
    attempts := [refusedAttempt] }

/-- On a redriven task whose handler times out both engines run it and schedule it again, as
its second attempt and its first retry. -/
theorem pinning_decide_alike : ∃ op op',
    effects pinningWorker ⟨redrivenTask, "token"⟩ 1 2 3 4 (some ⟨"Timeout", "late"⟩, 0) =
      ⟨true, [op]⟩ ∧
    effects pinningJavaWorker ⟨redrivenTask, "token"⟩ 5 6 7 8 (some ⟨"Timeout", "slow"⟩, 0) =
      ⟨true, [op']⟩ ∧
    (OutcomeCall.recorded? op).map Attempt.attemptNo = some 2 ∧
    SameCall ⟨redrivenTask, "token"⟩ 1 (100 * ·) (200 * ·) 3 7 op op' := by
  have hspec : SameSpec pinningWorker pinningJavaWorker := ⟨rfl, rfl, rfl, rfl⟩
  have hresult : SameResult pinningWorker pinningJavaWorker (some ⟨"Timeout", "late"⟩)
      (some ⟨"Timeout", "slow"⟩) := .failure rfl rfl
  obtain ⟨invoked, op, op', hgo, hjava, hsame⟩ :=
    engines_decide_alike hspec hresult ⟨redrivenTask, "token"⟩ 0 0 1 2 3 4 5 6 7 8
  have hran : (effects pinningWorker ⟨redrivenTask, "token"⟩ 1 2 3 4
      (some ⟨"Timeout", "late"⟩, 0)).invoked = true := by decide
  have hcall : (effects pinningWorker ⟨redrivenTask, "token"⟩ 1 2 3 4
      (some ⟨"Timeout", "late"⟩, 0)).calls.map (fun op =>
        (OutcomeCall.recorded? op).map Attempt.attemptNo) = [some 2] := by decide
  rw [hgo] at hran hcall
  obtain rfl : invoked = true := hran
  exact ⟨op, op', hgo, hjava, by simpa using hcall, hsame⟩

end Rdq.Engine
