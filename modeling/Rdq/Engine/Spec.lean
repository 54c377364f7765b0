import Rdq.Config.Load
import Rdq.Engine.Backoff
import Rdq.Engine.Classify
import Rdq.Engine.Poll
import Rdq.Engine.Process

/-!
# From configuration to worker

`core/engine/worker.go`, `SpecFromConfig` and the loop of `NewWorker` over the specs, and
`core/policy/backoff.go`, `BackoffFromConfig`: how the effective configuration of a queue
becomes what a worker runs with. Fields that are not set get fallbacks, and values out of
range are clamped.
-/

namespace Rdq.Engine

open Foundation Config NetUrl

/-- `policy.Backoff` as configured. -/
structure Ladder where
  initial : Int64
  multiplier : GoFloat
  max : Int64
  jitter : GoFloat
deriving DecidableEq

/-- `QueueSpec`, with the classification that comes from the configuration. -/
structure WorkerSpec where
  queue : String
  maxAttempts : Int64
  backoff : Ladder
  classification : Option Config.ClassificationConfig
  lease : Int64
  handlerTimeout : Int64
  heartbeat : Bool
  batchSize : Int64
  concurrency : Int64
  pollInterval : Int64
  rateLimit : Option Rate
  versionPolicy : Policy
  ttlSucceeded : Int64
deriving DecidableEq

def backoffFromConfig (rc : RetryConfig) : Option Ladder := do
  let initial ← rc.initialBackoff
  let multiplier ← rc.backoffMultiplier
  let max ← rc.maxBackoff
  let jitter ← rc.jitter
  return ⟨initial, multiplier, max, jitter⟩

inductive SpecError
  | nilConfig
  | missingLease
  | missingMaxAttempts
  | incompleteLadder
deriving DecidableEq, Repr

/-- The text of the error, for a queue. -/
def SpecError.print (unicodePrint : Char → Bool) (queue : String) : SpecError → String
  | .nilConfig => "engine: nil config for queue " ++ quote unicodePrint queue
  | .missingLease => "engine: queue " ++ quote unicodePrint queue ++ " missing execution.lease"
  | .missingMaxAttempts =>
    "engine: queue " ++ quote unicodePrint queue ++ " missing retry.max_attempts"
  | .incompleteLadder =>
    "engine: queue " ++ quote unicodePrint queue ++ " has an incomplete retry backoff ladder"

/-- 500 ms. -/
def defaultPollInterval : Int64 := 500000000

def specFromConfig (queue : String) (qc : Option QueueConfig) : Except SpecError WorkerSpec :=
  match qc with
  | none => .error .nilConfig
  | some qc =>
    match qc.execution.bind ExecutionConfig.lease, qc.retry.bind RetryConfig.maxAttempts,
        qc.retry.bind backoffFromConfig with
    | none, _, _ => .error .missingLease
    | some _, none, _ => .error .missingMaxAttempts
    | some _, some _, none => .error .incompleteLadder
    | some lease, some maxAttempts, some backoff =>
      .ok
        { queue := queue
          maxAttempts := maxAttempts
          backoff := backoff
          classification := qc.classification
          lease := lease
          handlerTimeout := (qc.execution.bind ExecutionConfig.handlerTimeout).getD lease
          heartbeat := (qc.execution.bind ExecutionConfig.heartbeat).getD false
          batchSize := (qc.worker.bind WorkerConfig.batchSize).getD 1
          concurrency := (qc.worker.bind WorkerConfig.concurrency).getD 1
          pollInterval := (qc.worker.bind WorkerConfig.pollInterval).getD defaultPollInterval
          rateLimit := qc.worker.bind WorkerConfig.rateLimit
          versionPolicy :=
            ((qc.handler.bind HandlerConfig.versionMismatch).map policyFrom).getD .runLatest
          ttlSucceeded := (qc.limits.bind LimitsConfig.ttlSucceeded).getD 0 }

/-- One round of the loop of `NewWorker`: what the worker runs with. -/
def newWorkerSpec (unicodePrint : Char → Bool) (spec : WorkerSpec) : Except String WorkerSpec :=
  if spec.queue = "" then .error "engine: queue spec with empty name"
  else if spec.lease ≤ 0 then
    .error ("engine: queue " ++ quote unicodePrint spec.queue ++ " has a non-positive lease")
  else
    .ok { spec with
      concurrency := if spec.concurrency < 1 then 1 else spec.concurrency
      batchSize := if spec.batchSize < 1 then 1 else spec.batchSize
      pollInterval := if spec.pollInterval ≤ 0 then defaultPollInterval else spec.pollInterval
      handlerTimeout :=
        if spec.handlerTimeout ≤ 0 ∨ spec.lease < spec.handlerTimeout then spec.lease
        else spec.handlerTimeout
      maxAttempts := if spec.maxAttempts < 1 then 1 else spec.maxAttempts }

theorem specFromConfig_ok {queue : String} {qc : QueueConfig} {spec : WorkerSpec}
    (h : specFromConfig queue (some qc) = .ok spec) :
    spec.queue = queue ∧ qc.leaf .lease = some spec.lease ∧
      qc.leaf .maxAttempts = some spec.maxAttempts ∧
      qc.retry.bind backoffFromConfig = some spec.backoff ∧
      spec.handlerTimeout = (qc.leaf .handlerTimeout).getD spec.lease := by
  unfold specFromConfig at h
  dsimp only at h
  split at h
  · cases h
  · cases h
  · cases h
  · rename_i lease maxAttempts backoff hlease hattempts hladder
    cases h
    exact ⟨rfl, hlease, hattempts, hladder, rfl⟩

variable {unicodePrint : Char → Bool} {spec s : WorkerSpec}

theorem newWorkerSpec_ok (h : newWorkerSpec unicodePrint spec = .ok s) :
    spec.queue ≠ "" ∧ 0 < spec.lease ∧ s.lease = spec.lease ∧
      s.handlerTimeout =
        if spec.handlerTimeout ≤ 0 ∨ spec.lease < spec.handlerTimeout then spec.lease
        else spec.handlerTimeout := by
  unfold newWorkerSpec at h
  split at h
  · cases h
  · rename_i hqueue
    split at h
    · cases h
    · rename_i hlease
      cases h
      exact ⟨hqueue, Int64.not_le.mp hlease, rfl, rfl⟩

/-! ## The parts of a spec that the worker's components read -/

/-- The classifier of `policy.Classifier` that the configuration gives. -/
def WorkerSpec.classifier {ε : Type} (spec : WorkerSpec) : Classifier ε where
  mapper := none
  codeRules := []
  config := spec.classification.map fun c => ⟨c.retryable.getD [], c.permanent.getD []⟩

/-- The ladder in exact numbers, when they are finite. -/
def Ladder.backoff (l : Ladder) : Option Backoff :=
  match l.multiplier, l.jitter with
  | .finite m, .finite j => some ⟨l.initial, m, l.max, j⟩
  | _, _ => none

/-- What `Worker.process` reads, for a random source that gives fractions. -/
def WorkerSpec.queueSpec {ε : Type} [Classified ε] (spec : WorkerSpec) (b : Backoff)
    (draw : Nat → ℚ) : QueueSpec ε where
  queue := spec.queue
  maxAttempts := spec.maxAttempts.toInt
  backoffDelay := fun n k => (b.delay (Int64.ofInt n) (draw k)).toInt
  classify := fun err errType => (spec.classifier.classify (some err) errType).decision
  lease := spec.lease.toInt
  heartbeat := spec.heartbeat
  versionPolicy := spec.versionPolicy

/-- A spec that `NewWorker` takes gives a queue state of `Worker.process` with the same
lease. -/
theorem newQueueState_of_newWorkerSpec {ε : Type} [Classified ε]
    (h : newWorkerSpec unicodePrint spec = .ok s) (b : Backoff) (draw : Nat → ℚ) :
    ∃ q : QueueState ε,
      newQueueState unicodePrint (spec.queueSpec b draw) = .ok q ∧
        q.lease = s.lease.toInt := by
  obtain ⟨hqueue, hlease, hsame, -⟩ := newWorkerSpec_ok h
  have hpos : ¬(spec.queueSpec (ε := ε) b draw).lease ≤ 0 :=
    Int.not_le.mpr (Int64.lt_iff_toInt_lt.mp hlease)
  have hname : ¬(spec.queueSpec (ε := ε) b draw).queue = "" := hqueue
  refine ⟨_, by rw [newQueueState, dif_neg hname, dif_neg hpos], ?_⟩
  rw [hsame]
  rfl

/-! ## The order of the timeouts -/

/-- The handler timeout is never above the lease, by the clamp. -/
theorem handlerTimeout_le_lease (h : newWorkerSpec unicodePrint spec = .ok s) :
    s.handlerTimeout ≤ s.lease := by
  obtain ⟨-, -, hlease, htimeout⟩ := newWorkerSpec_ok h
  rw [htimeout, hlease]
  split
  · exact Int64.le_refl _
  · rename_i hrange
    exact Int64.not_lt.mp (not_or.mp hrange).2

/-- The handler timeout that is used: the configured one, or else the lease. -/
theorem handlerTimeout_eq {rule : HostRule} {qc : QueueConfig} (hvalid : Valid rule qc)
    {queue : String} (hspec : specFromConfig queue (some qc) = .ok spec)
    (h : newWorkerSpec unicodePrint spec = .ok s) :
    qc.leaf .lease = some s.lease ∧
      s.handlerTimeout = (qc.leaf .handlerTimeout).getD s.lease := by
  obtain ⟨-, hlease, -, -, htimeout⟩ := specFromConfig_ok hspec
  obtain ⟨-, -, hsame, hclamped⟩ := newWorkerSpec_ok h
  refine ⟨hsame ▸ hlease, ?_⟩
  rw [hclamped, hsame, htimeout]
  cases hset : qc.leaf .handlerTimeout with
  | none =>
    rw [Option.getD_none]
    split <;> rfl
  | some t =>
    have hpos : 0 < t := hvalid.leaf .handlerTimeout t hset
    have hle := hvalid.handlerTimeout_le t spec.lease hset hlease
    rw [Option.getD_some, if_neg]
    rw [not_or, Int64.not_le, Int64.not_lt]
    exact ⟨hpos, hle⟩

/-- The callback timeout, the handler timeout and the lease of a worker are in order
exactly when a callback timeout without a configured handler timeout is at most the
lease. Each of the three comes from the queue or else from the defaults. -/
theorem timeouts_ordered_iff (rule : HostRule) (unicodePrint : Char → Bool) (doc : Document)
    (queue : String) (own : Option QueueConfig) (loaded : Loaded) (spec s : WorkerSpec)
    (hload : load rule doc = .ok loaded) (hown : (queue, own) ∈ doc.queues)
    (hspec : specFromConfig queue (loaded.resolvedQueue queue) = .ok spec)
    (hworker : newWorkerSpec unicodePrint spec = .ok s) :
    ((∀ t, (leafOf own .timeout).or (leafOf doc.defaults .timeout) = some t →
        t ≤ s.handlerTimeout) ∧ s.handlerTimeout ≤ s.lease) ↔
      ∀ t lease, (leafOf own .timeout).or (leafOf doc.defaults .timeout) = some t →
        (leafOf own .handlerTimeout).or (leafOf doc.defaults .handlerTimeout) = none →
        (leafOf own .lease).or (leafOf doc.defaults .lease) = some lease → t ≤ lease := by
  cases hqc : loaded.resolvedQueue queue with
  | none =>
    rw [hqc] at hspec
    cases hspec
  | some qc =>
    rw [hqc] at hspec
    obtain ⟨-, hvalid, own', hown', rfl⟩ := resolvedQueue_spec hload hqc
    have hsame : own' = own := eq_of_mem_queues doc hown' hown
    subst hsame
    obtain ⟨hlease, htimeout⟩ := handlerTimeout_eq hvalid hspec hworker
    rw [← leaf_mergeQueueConfig doc.defaults own' .timeout,
      ← leaf_mergeQueueConfig doc.defaults own' .handlerTimeout,
      ← leaf_mergeQueueConfig doc.defaults own' .lease]
    constructor
    · rintro ⟨hcallback, -⟩ t lease ht hunset hset
      rw [hunset, Option.getD_none] at htimeout
      rw [hlease] at hset
      rw [← Option.some.inj hset, ← htimeout]
      exact hcallback t ht
    · intro h
      refine ⟨fun t ht => ?_, handlerTimeout_le_lease hworker⟩
      cases hset : (mergeQueueConfig doc.defaults own').leaf .handlerTimeout with
      | none =>
        rw [htimeout, hset, Option.getD_none]
        exact h t s.lease ht hset hlease
      | some bound =>
        rw [htimeout, hset, Option.getD_some]
        exact hvalid.timeout_le t bound ht hset

def anyHost : HostRule := .any

/-- A lease of ten seconds, no handler timeout, and a callback timeout of a minute. -/
def slowCallback : QueueConfig where
  retry := some
    { maxAttempts := some 5
      initialBackoff := some 1000000000
      backoffMultiplier := some (.finite 2)
      maxBackoff := some 60000000000
      jitter := some (.finite 0) }
  execution := some { lease := some 10000000000 }
  callback := some { url := some "http://h", timeout := some 60000000000 }

def slowCallbackDocument : Document where
  configVersion := 1
  defaults := none
  queues := [("q", some slowCallback)]
  distinct := List.nodup_singleton _

def slowCallbackLoaded : Loaded :=
  { slowCallbackDocument with resolved := [("q", slowCallback)] }

def slowCallbackSpec : WorkerSpec where
  queue := "q"
  maxAttempts := 5
  backoff := ⟨1000000000, .finite 2, 60000000000, .finite 0⟩
  classification := none
  lease := 10000000000
  handlerTimeout := 10000000000
  heartbeat := false
  batchSize := 1
  concurrency := 1
  pollInterval := defaultPollInterval
  rateLimit := none
  versionPolicy := .runLatest
  ttlSucceeded := 0

theorem load_slowCallback : load anyHost slowCallbackDocument = .ok slowCallbackLoaded := by
  decide +kernel

theorem spec_slowCallback :
    specFromConfig "q" (slowCallbackLoaded.resolvedQueue "q") = .ok slowCallbackSpec ∧
      newWorkerSpec (fun _ => true) slowCallbackSpec = .ok slowCallbackSpec := by
  decide +kernel

theorem timeouts_ordered_slowCallback :
    load anyHost slowCallbackDocument = .ok slowCallbackLoaded ∧
      (((∀ t, (leafOf (some slowCallback) .timeout).or
          (leafOf slowCallbackDocument.defaults .timeout) = some t →
            t ≤ slowCallbackSpec.handlerTimeout) ∧
        slowCallbackSpec.handlerTimeout ≤ slowCallbackSpec.lease) ↔
      ∀ t lease, (leafOf (some slowCallback) .timeout).or
          (leafOf slowCallbackDocument.defaults .timeout) = some t →
        (leafOf (some slowCallback) .handlerTimeout).or
          (leafOf slowCallbackDocument.defaults .handlerTimeout) = none →
        (leafOf (some slowCallback) .lease).or
          (leafOf slowCallbackDocument.defaults .lease) = some lease → t ≤ lease) :=
  ⟨load_slowCallback, timeouts_ordered_iff anyHost (fun _ => true) slowCallbackDocument "q"
    (some slowCallback) slowCallbackLoaded slowCallbackSpec slowCallbackSpec load_slowCallback
    (List.mem_singleton.mpr rfl) spec_slowCallback.1 spec_slowCallback.2⟩

/-- A callback may take a minute where the handler, and the lease, have ten seconds. -/
theorem callback_outlasts_lease :
    load anyHost slowCallbackDocument = .ok slowCallbackLoaded ∧
      specFromConfig "q" (slowCallbackLoaded.resolvedQueue "q") = .ok slowCallbackSpec ∧
      newWorkerSpec (fun _ => true) slowCallbackSpec = .ok slowCallbackSpec ∧
      leafOf (some slowCallback) .timeout = some (60000000000 : Int64) ∧
      slowCallbackSpec.handlerTimeout < 60000000000 :=
  ⟨load_slowCallback, spec_slowCallback.1, spec_slowCallback.2, rfl, by decide⟩

end Rdq.Engine
