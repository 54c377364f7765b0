import Rdq.Config.Units
import Rdq.Foundation.JsonOptional

/-!
# A queue configuration in JSON

The struct tags of `core/config/config.go`: which names the blocks and leaves of a
configuration have in JSON, and how each leaf is read and written.

## Implementation notes

Finite floating-point numbers are printed and parsed exactly, in any way. The blocks that
hold only leaves are one struct type over their list of leaves.
-/

namespace Rdq.Config

open Foundation JsonText
open Engine (Rate)

/-- How finite numbers are printed and parsed. -/
structure FloatText where
  print : ℚ → Number
  parse : Number → Option ℚ
  exact : ∀ x, parse (print x) = some x

/-- `json.UnsupportedValueError`, for a number that is not finite. -/
inductive WriteError
  | unsupportedValue
deriving DecidableEq, Repr

variable (F : FloatText) (ofNumber : Int64 → Int64)

def readFloat : Cst → GoFloat → Option GoFloat
  | .null, x => some x
  | .num n, _ => (F.parse n).map .finite
  | _, _ => none

def floatReader : Reader GoFloat := ⟨.finite 0, readFloat F⟩

def writeFloat : GoFloat → Except WriteError Cst
  | .finite x => .ok (.num (F.print x))
  | _ => .error .unsupportedValue

def readBool : Cst → Bool → Option Bool
  | .null, x => some x
  | .bool b, _ => some b
  | _, _ => none

def boolReader : Reader Bool := ⟨false, readBool⟩

/-! ## Leaves -/

/-- The name of the leaf in its block. -/
def Leaf.name : Leaf → String
  | .maxAttempts => "max_attempts"
  | .initialBackoff => "initial_backoff"
  | .backoffMultiplier => "backoff_multiplier"
  | .maxBackoff => "max_backoff"
  | .jitter => "jitter"
  | .lease => "lease"
  | .handlerTimeout => "handler_timeout"
  | .heartbeat => "heartbeat"
  | .maxPayloadSize => "max_payload_size"
  | .ttlSucceeded => "ttl_succeeded"
  | .batchSize => "batch_size"
  | .pollInterval => "poll_interval"
  | .concurrency => "concurrency"
  | .rateLimit => "rate_limit"
  | .retryable => "retryable"
  | .permanent => "permanent"
  | .versionMismatch => "version_mismatch"
  | .syncAttempts => "attempts"
  | .syncBackoff => "backoff"
  | .protocol => "protocol"
  | .url => "url"
  | .timeout => "timeout"
  | .authType => "type"
  | .secretRef => "secret_ref"
  | .retryableStatus => "retryable_status"
  | .permanentStatus => "permanent_status"

/-- How the leaf is read and written; `ofNumber` gives the duration for a number. -/
def leafCodec : (l : Leaf) → OptionalCodec WriteError l.Value
  | .maxAttempts | .maxPayloadSize | .batchSize | .concurrency | .syncAttempts =>
    .pointer intReader writeInt
  | .initialBackoff | .maxBackoff | .lease | .handlerTimeout | .ttlSucceeded | .pollInterval
  | .syncBackoff | .timeout => .pointer (durationReader ofNumber) writeDuration
  | .backoffMultiplier | .jitter => .pointer (floatReader F) (writeFloat F)
  | .heartbeat => .pointer boolReader fun b => .ok (.bool b)
  | .rateLimit => .pointer rateReader writeRate
  | .retryable | .permanent => .list stringReader (writeString true)
  | .versionMismatch | .protocol | .url | .authType | .secretRef =>
    .pointer stringReader (writeString true)
  | .retryableStatus | .permanentStatus => .list statusReader writeStatus

/-- The struct type of a block that holds the given leaves. -/
@[reducible] def leafStruct (leaves : List Leaf) (distinct : (leaves.map Leaf.name).Nodup) :
    OptionalStruct WriteError { l // l ∈ leaves } where
  order := leaves.attach
  name := fun l => l.1.name
  Value := fun l => l.1.Value
  codec := fun l => leafCodec F ofNumber l.1
  complete := List.mem_attach leaves
  distinct := by
    change (leaves.attach.map (Leaf.name ∘ Subtype.val)).Nodup
    rw [← List.map_map, List.attach_map_subtype_val]
    exact distinct

/-! ## Blocks of leaves -/

/-- The blocks that hold nothing but leaves. -/
inductive LeafBlock
  | retry
  | execution
  | limits
  | worker
  | classification
  | handler
  | syncRetry
  | auth
  | responseMapping
deriving DecidableEq

/-- The leaves, in the order in which the structs declare them. -/
def Leaf.all : List Leaf :=
  [.maxAttempts, .initialBackoff, .backoffMultiplier, .maxBackoff, .jitter, .lease,
    .handlerTimeout, .heartbeat, .maxPayloadSize, .ttlSucceeded, .batchSize, .pollInterval,
    .concurrency, .rateLimit, .retryable, .permanent, .versionMismatch, .syncAttempts,
    .syncBackoff, .protocol, .url, .timeout, .authType, .secretRef, .retryableStatus,
    .permanentStatus]

/-- The block that the leaf is in. Three leaves stand in the callback block itself. -/
def Leaf.block : Leaf → Option LeafBlock
  | .maxAttempts | .initialBackoff | .backoffMultiplier | .maxBackoff | .jitter => some .retry
  | .lease | .handlerTimeout | .heartbeat => some .execution
  | .maxPayloadSize | .ttlSucceeded => some .limits
  | .batchSize | .pollInterval | .concurrency | .rateLimit => some .worker
  | .retryable | .permanent => some .classification
  | .versionMismatch => some .handler
  | .syncAttempts | .syncBackoff => some .syncRetry
  | .protocol | .url | .timeout => none
  | .authType | .secretRef => some .auth
  | .retryableStatus | .permanentStatus => some .responseMapping

namespace LeafBlock

@[reducible] def Value : LeafBlock → Type
  | .retry => RetryConfig
  | .execution => ExecutionConfig
  | .limits => LimitsConfig
  | .worker => WorkerConfig
  | .classification => ClassificationConfig
  | .handler => HandlerConfig
  | .syncRetry => SyncRetryConfig
  | .auth => CallbackAuth
  | .responseMapping => ResponseMapping

def leaves (B : LeafBlock) : List Leaf := Leaf.all.filter fun l => l.block = some B

theorem mem_leaves {B : LeafBlock} {l : Leaf} : l ∈ B.leaves ↔ l.block = some B := by
  have hall : l ∈ Leaf.all := by
    cases l <;> decide
  rw [leaves, List.mem_filter, and_iff_right hall, decide_eq_true_iff]

/-- The block where it stands in a configuration. -/
def find : (B : LeafBlock) → QueueConfig → Option B.Value
  | .retry, qc => qc.retry
  | .execution, qc => qc.execution
  | .limits, qc => qc.limits
  | .worker, qc => qc.worker
  | .classification, qc => qc.classification
  | .handler, qc => qc.handler
  | .syncRetry, qc => qc.syncRetry
  | .auth, qc => qc.callback.bind CallbackConfig.auth
  | .responseMapping, qc => qc.callback.bind CallbackConfig.responseMapping

/-- The configuration that sets only this block. -/
def alone : (B : LeafBlock) → B.Value → QueueConfig
  | .retry, b => { retry := some b }
  | .execution, b => { execution := some b }
  | .limits, b => { limits := some b }
  | .worker, b => { worker := some b }
  | .classification, b => { classification := some b }
  | .handler, b => { handler := some b }
  | .syncRetry, b => { syncRetry := some b }
  | .auth, b => { callback := some { auth := some b } }
  | .responseMapping, b => { callback := some { responseMapping := some b } }

/-- The block with the given leaves. -/
def make : (B : LeafBlock) → ((l : Leaf) → Option l.Value) → B.Value
  | .retry, r =>
    ⟨r .maxAttempts, r .initialBackoff, r .backoffMultiplier, r .maxBackoff, r .jitter⟩
  | .execution, r => ⟨r .lease, r .handlerTimeout, r .heartbeat⟩
  | .limits, r => ⟨r .maxPayloadSize, r .ttlSucceeded⟩
  | .worker, r => ⟨r .batchSize, r .pollInterval, r .concurrency, r .rateLimit⟩
  | .classification, r => ⟨r .retryable, r .permanent⟩
  | .handler, r => ⟨r .versionMismatch⟩
  | .syncRetry, r => ⟨r .syncAttempts, r .syncBackoff⟩
  | .auth, r => ⟨r .authType, r .secretRef⟩
  | .responseMapping, r => ⟨r .retryableStatus, r .permanentStatus⟩

variable {B : LeafBlock}

/-- A leaf is read off its block. -/
theorem leaf_eq {l : Leaf} (h : l ∈ B.leaves) (qc : QueueConfig) :
    qc.leaf l = (B.find qc).bind fun b => (B.alone b).leaf l := by
  have hblock := mem_leaves.mp h
  cases l <;> cases hblock <;> rfl

theorem leaf_make {l : Leaf} (h : l ∈ B.leaves) (r : (l : Leaf) → Option l.Value) :
    (B.alone (B.make r)).leaf l = r l := by
  have hblock := mem_leaves.mp h
  cases l <;> cases hblock <;> rfl

/-- The block with the given values for its own leaves. -/
def ofLeaves (B : LeafBlock) (r : (l : { l // l ∈ B.leaves }) → Option l.1.Value) : B.Value :=
  B.make fun l => if h : l ∈ B.leaves then r ⟨l, h⟩ else none

theorem ofLeaves_leaf (b : B.Value) : B.ofLeaves (fun l => (B.alone b).leaf l.1) = b := by
  cases B <;> rfl

theorem leaf_ofLeaves (r : (l : { l // l ∈ B.leaves }) → Option l.1.Value)
    (l : { l // l ∈ B.leaves }) : (B.alone (B.ofLeaves r)).leaf l.1 = r l := by
  rw [ofLeaves, leaf_make l.2, dif_pos l.2]

theorem distinct (B : LeafBlock) : (B.leaves.map Leaf.name).Nodup := by
  cases B <;> decide

def view (B : LeafBlock) : (leafStruct F ofNumber B.leaves B.distinct).View B.Value where
  get := fun b l => (B.alone b).leaf l.1
  make := B.ofLeaves
  make_get := ofLeaves_leaf
  get_make := fun r => funext (leaf_ofLeaves r)

end LeafBlock

/-! ## The callback block and the whole -/

inductive CallbackField
  | protocol
  | url
  | timeout
  | auth
  | responseMapping
deriving DecidableEq

@[reducible] def CallbackField.Value : CallbackField → Type
  | .protocol | .url => String
  | .timeout => Int64
  | .auth => CallbackAuth
  | .responseMapping => ResponseMapping

@[reducible] def callbackStruct : OptionalStruct WriteError CallbackField where
  order := [.protocol, .url, .timeout, .auth, .responseMapping]
  name
    | .protocol => "protocol"
    | .url => "url"
    | .timeout => "timeout"
    | .auth => "auth"
    | .responseMapping => "response_mapping"
  Value := CallbackField.Value
  codec
    | .protocol => leafCodec F ofNumber .protocol
    | .url => leafCodec F ofNumber .url
    | .timeout => leafCodec F ofNumber .timeout
    | .auth => (LeafBlock.auth.view F ofNumber).codec
    | .responseMapping => (LeafBlock.responseMapping.view F ofNumber).codec
  complete := by
    intro i
    cases i <;> decide
  distinct := by decide

def callbackView : (callbackStruct F ofNumber).View CallbackConfig where
  get := fun c i => match i with
    | .protocol => c.protocol
    | .url => c.url
    | .timeout => c.timeout
    | .auth => c.auth
    | .responseMapping => c.responseMapping
  make := fun r =>
    { protocol := r .protocol
      url := r .url
      timeout := r .timeout
      auth := r .auth
      responseMapping := r .responseMapping }
  make_get := fun _ => rfl
  get_make := by
    intro r
    funext i
    cases i <;> rfl

inductive QueueField
  | retry
  | execution
  | limits
  | worker
  | classification
  | handler
  | syncRetry
  | callback
deriving DecidableEq

@[reducible] def QueueField.Value : QueueField → Type
  | .retry => RetryConfig
  | .execution => ExecutionConfig
  | .limits => LimitsConfig
  | .worker => WorkerConfig
  | .classification => ClassificationConfig
  | .handler => HandlerConfig
  | .syncRetry => SyncRetryConfig
  | .callback => CallbackConfig

@[reducible] def queueStruct : OptionalStruct WriteError QueueField where
  order := [.retry, .execution, .limits, .worker, .classification, .handler, .syncRetry, .callback]
  name
    | .retry => "retry"
    | .execution => "execution"
    | .limits => "limits"
    | .worker => "worker"
    | .classification => "classification"
    | .handler => "handler"
    | .syncRetry => "sync_retry"
    | .callback => "callback"
  Value := QueueField.Value
  codec
    | .retry => (LeafBlock.retry.view F ofNumber).codec
    | .execution => (LeafBlock.execution.view F ofNumber).codec
    | .limits => (LeafBlock.limits.view F ofNumber).codec
    | .worker => (LeafBlock.worker.view F ofNumber).codec
    | .classification => (LeafBlock.classification.view F ofNumber).codec
    | .handler => (LeafBlock.handler.view F ofNumber).codec
    | .syncRetry => (LeafBlock.syncRetry.view F ofNumber).codec
    | .callback => (callbackView F ofNumber).codec
  complete := by
    intro i
    cases i <;> decide
  distinct := by decide

def queueView : (queueStruct F ofNumber).View QueueConfig where
  get := fun qc i => match i with
    | .retry => qc.retry
    | .execution => qc.execution
    | .limits => qc.limits
    | .worker => qc.worker
    | .classification => qc.classification
    | .handler => qc.handler
    | .syncRetry => qc.syncRetry
    | .callback => qc.callback
  make := fun r =>
    { retry := r .retry
      execution := r .execution
      limits := r .limits
      worker := r .worker
      classification := r .classification
      handler := r .handler
      syncRetry := r .syncRetry
      callback := r .callback }
  make_get := fun _ => rfl
  get_make := by
    intro r
    funext i
    cases i <;> rfl

/-! ## Leaf by leaf -/

section MapLeaves
variable (f : (l : Leaf) → Option l.Value → Option l.Value)

def LeafBlock.mapLeaves (B : LeafBlock) (b : B.Value) : B.Value :=
  B.ofLeaves fun l => f l.1 ((B.alone b).leaf l.1)

def CallbackConfig.mapLeaves (c : CallbackConfig) : CallbackConfig where
  protocol := f .protocol c.protocol
  url := f .url c.url
  timeout := f .timeout c.timeout
  auth := c.auth.map (LeafBlock.auth.mapLeaves f)
  responseMapping := c.responseMapping.map (LeafBlock.responseMapping.mapLeaves f)

/-- A change of the leaves, in the blocks that are set. -/
def QueueConfig.mapLeaves (qc : QueueConfig) : QueueConfig where
  retry := qc.retry.map (LeafBlock.retry.mapLeaves f)
  execution := qc.execution.map (LeafBlock.execution.mapLeaves f)
  limits := qc.limits.map (LeafBlock.limits.mapLeaves f)
  worker := qc.worker.map (LeafBlock.worker.mapLeaves f)
  classification := qc.classification.map (LeafBlock.classification.mapLeaves f)
  handler := qc.handler.map (LeafBlock.handler.mapLeaves f)
  syncRetry := qc.syncRetry.map (LeafBlock.syncRetry.mapLeaves f)
  callback := qc.callback.map (CallbackConfig.mapLeaves f)

variable {f}

theorem find_mapLeaves (B : LeafBlock) (qc : QueueConfig) :
    B.find (qc.mapLeaves f) = (B.find qc).map (B.mapLeaves f) := by
  cases B with
  | auth | responseMapping =>
    simp only [LeafBlock.find, QueueConfig.mapLeaves]
    cases qc.callback <;> rfl
  | _ => rfl

/-- The leaves after a change that sets none. -/
theorem leaf_mapLeaves (hnone : ∀ l, f l none = none) (qc : QueueConfig) (l : Leaf) :
    (qc.mapLeaves f).leaf l = f l (qc.leaf l) := by
  cases hblock : l.block with
  | some B =>
    have hl := LeafBlock.mem_leaves.mpr hblock
    rw [LeafBlock.leaf_eq hl, LeafBlock.leaf_eq hl, find_mapLeaves]
    cases B.find qc with
    | none => exact (hnone l).symm
    | some b => exact LeafBlock.leaf_ofLeaves _ ⟨l, hl⟩
  | none =>
    cases l with
    | protocol | url | timeout =>
      simp only [QueueConfig.leaf, QueueConfig.mapLeaves]
      cases qc.callback with
      | none => exact (hnone _).symm
      | some c => rfl
    | _ => cases hblock

theorem map_mapLeaves_block (B : LeafBlock) {qc : QueueConfig}
    (h : ∀ l, f l (qc.leaf l) = qc.leaf l) : (B.find qc).map (B.mapLeaves f) = B.find qc := by
  cases hb : B.find qc with
  | none => rfl
  | some b =>
    have hget : ∀ l : { l // l ∈ B.leaves },
        f l.1 ((B.alone b).leaf l.1) = (B.alone b).leaf l.1 := by
      intro l
      have hl := h l.1
      rw [LeafBlock.leaf_eq l.2, hb] at hl
      exact hl
    rw [Option.map_some, LeafBlock.mapLeaves, funext hget, LeafBlock.ofLeaves_leaf]

theorem mapLeaves_callback {qc : QueueConfig} (h : ∀ l, f l (qc.leaf l) = qc.leaf l)
    {c : CallbackConfig} (hc : qc.callback = some c) : c.mapLeaves f = c := by
  have hleaf : ∀ {l : Leaf} {get : CallbackConfig → Option l.Value},
      qc.leaf l = qc.callback.bind get → f l (get c) = get c := by
    intro l get heq
    have hl := h l
    rw [heq, hc] at hl
    exact hl
  have hblock : ∀ {β : Type} {get : CallbackConfig → Option β} {g : β → β},
      (qc.callback.bind get).map g = qc.callback.bind get → (get c).map g = get c := by
    intro β get g heq
    rw [hc] at heq
    exact heq
  rw [CallbackConfig.mapLeaves, hleaf (l := .protocol) rfl, hleaf (l := .url) rfl,
    hleaf (l := .timeout) rfl, hblock (map_mapLeaves_block .auth h),
    hblock (map_mapLeaves_block .responseMapping h)]

/-- A change that leaves every leaf as it is leaves the configuration, empty blocks
included. -/
theorem mapLeaves_eq_self {qc : QueueConfig} (h : ∀ l, f l (qc.leaf l) = qc.leaf l) :
    qc.mapLeaves f = qc := by
  have hcallback : qc.callback.map (CallbackConfig.mapLeaves f) = qc.callback := by
    cases hc : qc.callback with
    | none => rfl
    | some c => rw [Option.map_some, mapLeaves_callback h hc]
  calc qc.mapLeaves f
      = ⟨qc.retry, qc.execution, qc.limits, qc.worker, qc.classification, qc.handler,
          qc.syncRetry, qc.callback⟩ :=
        QueueConfig.mk.injEq .. |>.mpr ⟨map_mapLeaves_block .retry h,
          map_mapLeaves_block .execution h, map_mapLeaves_block .limits h,
          map_mapLeaves_block .worker h, map_mapLeaves_block .classification h,
          map_mapLeaves_block .handler h, map_mapLeaves_block .syncRetry h, hcallback⟩
    _ = qc := rfl

end MapLeaves

/-- `json.Marshal` of a pointer to a configuration. -/
def writeConfig (qc : Option QueueConfig) : Except WriteError Cst :=
  writePointer (queueView F ofMillis).codec.write qc

/-- A strict `Decode` into a fresh configuration, with the given meaning of durations. -/
def decodeConfig (body : Bytes) : Option QueueConfig :=
  (firstValue body).bind fun v => (queueView F ofNumber).reader.read v {}

end Rdq.Config
