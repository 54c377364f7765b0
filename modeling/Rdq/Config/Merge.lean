import Rdq.Engine.RateLimit
import Rdq.Foundation.GoFloat

/-!
# Queue configuration and its merge

`core/config/config.go` and `core/config/merge.go`: the blocks of a queue configuration,
where every block, scalar and list may be unset, and the merge of a queue's
configuration over the defaults. A list that is set to the empty list differs from one
that is not set.

The law of the merge is stated over the leaves, the scalars and lists in any depth: a
leaf of the merge is the queue's where the queue sets it, and the default otherwise.
-/

namespace Rdq.Config

open Foundation
open Engine (Rate)

structure RetryConfig where
  maxAttempts : Option Int64 := none
  /-- Durations are nanoseconds. -/
  initialBackoff : Option Int64 := none
  backoffMultiplier : Option GoFloat := none
  maxBackoff : Option Int64 := none
  jitter : Option GoFloat := none
deriving DecidableEq

structure ExecutionConfig where
  lease : Option Int64 := none
  handlerTimeout : Option Int64 := none
  heartbeat : Option Bool := none
deriving DecidableEq

structure LimitsConfig where
  /-- In bytes. -/
  maxPayloadSize : Option Int64 := none
  ttlSucceeded : Option Int64 := none
deriving DecidableEq

structure WorkerConfig where
  batchSize : Option Int64 := none
  pollInterval : Option Int64 := none
  concurrency : Option Int64 := none
  rateLimit : Option Rate := none
deriving DecidableEq

structure ClassificationConfig where
  retryable : Option (List String) := none
  permanent : Option (List String) := none
deriving DecidableEq

structure HandlerConfig where
  versionMismatch : Option String := none
deriving DecidableEq

structure SyncRetryConfig where
  attempts : Option Int64 := none
  backoff : Option Int64 := none
deriving DecidableEq

structure CallbackAuth where
  type : Option String := none
  secretRef : Option String := none
deriving DecidableEq

/-- One entry of a response mapping: an exact code, or a class such as `5xx`. -/
structure StatusMatcher where
  code : Int64
  statusClass : String
deriving DecidableEq

structure ResponseMapping where
  retryableStatus : Option (List StatusMatcher) := none
  permanentStatus : Option (List StatusMatcher) := none
deriving DecidableEq

structure CallbackConfig where
  protocol : Option String := none
  url : Option String := none
  timeout : Option Int64 := none
  auth : Option CallbackAuth := none
  responseMapping : Option ResponseMapping := none
deriving DecidableEq

/-- The configuration of a queue, and the shape of the defaults. -/
structure QueueConfig where
  retry : Option RetryConfig := none
  execution : Option ExecutionConfig := none
  limits : Option LimitsConfig := none
  worker : Option WorkerConfig := none
  classification : Option ClassificationConfig := none
  handler : Option HandlerConfig := none
  syncRetry : Option SyncRetryConfig := none
  callback : Option CallbackConfig := none
deriving DecidableEq

/-! ## The merge -/

/-- `override` and `overrideSlice`: the queue's value where it set one. -/
def override {α : Type} (queue base : Option α) : Option α :=
  match queue with
  | some v => some v
  | none => base

/-- A block that only one side has is taken as it is. -/
def mergeBlock {β : Type} (merge : β → β → β) (base queue : Option β) : Option β :=
  match base, queue with
  | none, queue => queue
  | some base, none => some base
  | some base, some queue => some (merge base queue)

def mergeRetry : Option RetryConfig → Option RetryConfig → Option RetryConfig :=
  mergeBlock fun base queue =>
    { maxAttempts := override queue.maxAttempts base.maxAttempts
      initialBackoff := override queue.initialBackoff base.initialBackoff
      backoffMultiplier := override queue.backoffMultiplier base.backoffMultiplier
      maxBackoff := override queue.maxBackoff base.maxBackoff
      jitter := override queue.jitter base.jitter }

def mergeExecution : Option ExecutionConfig → Option ExecutionConfig → Option ExecutionConfig :=
  mergeBlock fun base queue =>
    { lease := override queue.lease base.lease
      handlerTimeout := override queue.handlerTimeout base.handlerTimeout
      heartbeat := override queue.heartbeat base.heartbeat }

def mergeLimits : Option LimitsConfig → Option LimitsConfig → Option LimitsConfig :=
  mergeBlock fun base queue =>
    { maxPayloadSize := override queue.maxPayloadSize base.maxPayloadSize
      ttlSucceeded := override queue.ttlSucceeded base.ttlSucceeded }

def mergeWorker : Option WorkerConfig → Option WorkerConfig → Option WorkerConfig :=
  mergeBlock fun base queue =>
    { batchSize := override queue.batchSize base.batchSize
      pollInterval := override queue.pollInterval base.pollInterval
      concurrency := override queue.concurrency base.concurrency
      rateLimit := override queue.rateLimit base.rateLimit }

def mergeClassification :
    Option ClassificationConfig → Option ClassificationConfig → Option ClassificationConfig :=
  mergeBlock fun base queue =>
    { retryable := override queue.retryable base.retryable
      permanent := override queue.permanent base.permanent }

def mergeHandler : Option HandlerConfig → Option HandlerConfig → Option HandlerConfig :=
  mergeBlock fun base queue =>
    { versionMismatch := override queue.versionMismatch base.versionMismatch }

def mergeSyncRetry : Option SyncRetryConfig → Option SyncRetryConfig → Option SyncRetryConfig :=
  mergeBlock fun base queue =>
    { attempts := override queue.attempts base.attempts
      backoff := override queue.backoff base.backoff }

def mergeCallbackAuth : Option CallbackAuth → Option CallbackAuth → Option CallbackAuth :=
  mergeBlock fun base queue =>
    { type := override queue.type base.type
      secretRef := override queue.secretRef base.secretRef }

def mergeResponseMapping :
    Option ResponseMapping → Option ResponseMapping → Option ResponseMapping :=
  mergeBlock fun base queue =>
    { retryableStatus := override queue.retryableStatus base.retryableStatus
      permanentStatus := override queue.permanentStatus base.permanentStatus }

def mergeCallback : Option CallbackConfig → Option CallbackConfig → Option CallbackConfig :=
  mergeBlock fun base queue =>
    { protocol := override queue.protocol base.protocol
      url := override queue.url base.url
      timeout := override queue.timeout base.timeout
      auth := mergeCallbackAuth base.auth queue.auth
      responseMapping := mergeResponseMapping base.responseMapping queue.responseMapping }

/-- The defaults `base` under the configuration of a queue. Either may be nil. -/
def mergeQueueConfig (base queue : Option QueueConfig) : QueueConfig :=
  let base := base.getD {}
  let queue := queue.getD {}
  { retry := mergeRetry base.retry queue.retry
    execution := mergeExecution base.execution queue.execution
    limits := mergeLimits base.limits queue.limits
    worker := mergeWorker base.worker queue.worker
    classification := mergeClassification base.classification queue.classification
    handler := mergeHandler base.handler queue.handler
    syncRetry := mergeSyncRetry base.syncRetry queue.syncRetry
    callback := mergeCallback base.callback queue.callback }

/-! ## Leaves -/

/-- The scalars and lists of a configuration, in any depth. -/
inductive Leaf
  | maxAttempts
  | initialBackoff
  | backoffMultiplier
  | maxBackoff
  | jitter
  | lease
  | handlerTimeout
  | heartbeat
  | maxPayloadSize
  | ttlSucceeded
  | batchSize
  | pollInterval
  | concurrency
  | rateLimit
  | retryable
  | permanent
  | versionMismatch
  | syncAttempts
  | syncBackoff
  | protocol
  | url
  | timeout
  | authType
  | secretRef
  | retryableStatus
  | permanentStatus
deriving DecidableEq

@[reducible] def Leaf.Value : Leaf → Type
  | .backoffMultiplier | .jitter => GoFloat
  | .heartbeat => Bool
  | .rateLimit => Rate
  | .retryable | .permanent => List String
  | .versionMismatch | .protocol | .url | .authType | .secretRef => String
  | .retryableStatus | .permanentStatus => List StatusMatcher
  | _ => Int64

/-- The value of a leaf, if it and the blocks above it are set. -/
def QueueConfig.leaf (qc : QueueConfig) : (l : Leaf) → Option l.Value
  | .maxAttempts => qc.retry.bind RetryConfig.maxAttempts
  | .initialBackoff => qc.retry.bind RetryConfig.initialBackoff
  | .backoffMultiplier => qc.retry.bind RetryConfig.backoffMultiplier
  | .maxBackoff => qc.retry.bind RetryConfig.maxBackoff
  | .jitter => qc.retry.bind RetryConfig.jitter
  | .lease => qc.execution.bind ExecutionConfig.lease
  | .handlerTimeout => qc.execution.bind ExecutionConfig.handlerTimeout
  | .heartbeat => qc.execution.bind ExecutionConfig.heartbeat
  | .maxPayloadSize => qc.limits.bind LimitsConfig.maxPayloadSize
  | .ttlSucceeded => qc.limits.bind LimitsConfig.ttlSucceeded
  | .batchSize => qc.worker.bind WorkerConfig.batchSize
  | .pollInterval => qc.worker.bind WorkerConfig.pollInterval
  | .concurrency => qc.worker.bind WorkerConfig.concurrency
  | .rateLimit => qc.worker.bind WorkerConfig.rateLimit
  | .retryable => qc.classification.bind ClassificationConfig.retryable
  | .permanent => qc.classification.bind ClassificationConfig.permanent
  | .versionMismatch => qc.handler.bind HandlerConfig.versionMismatch
  | .syncAttempts => qc.syncRetry.bind SyncRetryConfig.attempts
  | .syncBackoff => qc.syncRetry.bind SyncRetryConfig.backoff
  | .protocol => qc.callback.bind CallbackConfig.protocol
  | .url => qc.callback.bind CallbackConfig.url
  | .timeout => qc.callback.bind CallbackConfig.timeout
  | .authType => (qc.callback.bind CallbackConfig.auth).bind CallbackAuth.type
  | .secretRef => (qc.callback.bind CallbackConfig.auth).bind CallbackAuth.secretRef
  | .retryableStatus =>
    (qc.callback.bind CallbackConfig.responseMapping).bind ResponseMapping.retryableStatus
  | .permanentStatus =>
    (qc.callback.bind CallbackConfig.responseMapping).bind ResponseMapping.permanentStatus

/-- Nil sets no leaf. -/
def leafOf (qc : Option QueueConfig) (l : Leaf) : Option l.Value := (qc.getD {}).leaf l

@[simp] theorem leafOf_some (qc : QueueConfig) (l : Leaf) : leafOf (some qc) l = qc.leaf l := rfl

theorem override_eq_or {α : Type} (queue base : Option α) :
    override queue base = queue.or base := by
  cases queue <;> rfl

/-- A part that the merge of two blocks overrides, the merge of two optional blocks
overrides. -/
theorem bind_mergeBlock {β α : Type} {merge : β → β → β} {get : β → Option α}
    (h : ∀ base queue, get (merge base queue) = (get queue).or (get base))
    (base queue : Option β) :
    (mergeBlock merge base queue).bind get = (queue.bind get).or (base.bind get) := by
  cases base with
  | none => simp [mergeBlock]
  | some base =>
    cases queue with
    | none => rfl
    | some queue => exact h base queue

/-- The same for a part of a block inside the block. -/
theorem bind_bind_mergeBlock {β γ α : Type} {merge : β → β → β} {inner : γ → γ → γ}
    {block : β → Option γ} {get : γ → Option α}
    (hblock : ∀ base queue, block (merge base queue) = mergeBlock inner (block base) (block queue))
    (h : ∀ base queue, get (inner base queue) = (get queue).or (get base))
    (base queue : Option β) :
    ((mergeBlock merge base queue).bind block).bind get =
      ((queue.bind block).bind get).or ((base.bind block).bind get) := by
  simp only [Option.bind_assoc]
  apply bind_mergeBlock
  intro base queue
  rw [hblock]
  exact bind_mergeBlock h _ _

/-- The leaf rule, through all ten merge functions. -/
theorem leaf_mergeQueueConfig (base queue : Option QueueConfig) (l : Leaf) :
    (mergeQueueConfig base queue).leaf l = (leafOf queue l).or (leafOf base l) := by
  cases l with
  | authType | secretRef | retryableStatus | permanentStatus =>
    exact bind_bind_mergeBlock (fun _ _ => rfl) (fun _ _ => override_eq_or _ _) _ _
  | _ => exact bind_mergeBlock (fun _ _ => override_eq_or _ _) _ _

/-- No leaf is set. -/
def Unset (qc : Option QueueConfig) : Prop := ∀ l, leafOf qc l = none

theorem unset_none : Unset none := by
  intro l
  cases l <;> rfl

/-- The merge takes the queue's leaves over the defaults'. On leaves, an unset
configuration is neutral on both sides, and the merge is associative and idempotent. -/
theorem merge_law (base queue other : Option QueueConfig) :
    (∀ l, (mergeQueueConfig base queue).leaf l =
      if (leafOf queue l).isSome then leafOf queue l else leafOf base l) ∧
    Unset none ∧
    (∀ unset, Unset unset → ∀ l,
      (mergeQueueConfig unset queue).leaf l = leafOf queue l ∧
        (mergeQueueConfig queue unset).leaf l = leafOf queue l) ∧
    (∀ l, (mergeQueueConfig (some (mergeQueueConfig base queue)) other).leaf l =
      (mergeQueueConfig base (some (mergeQueueConfig queue other))).leaf l) ∧
    ∀ l, (mergeQueueConfig base base).leaf l = leafOf base l := by
  refine ⟨fun l => ?_, unset_none, fun unset hunset l => ⟨?_, ?_⟩, fun l => ?_, fun l => ?_⟩
  · rw [leaf_mergeQueueConfig]
    cases leafOf queue l <;> rfl
  · rw [leaf_mergeQueueConfig, hunset l, Option.or_none]
  · rw [leaf_mergeQueueConfig, hunset l, Option.none_or]
  · simp only [leaf_mergeQueueConfig, leafOf_some, Option.or_assoc]
  · rw [leaf_mergeQueueConfig, Option.or_self]

end Rdq.Config
