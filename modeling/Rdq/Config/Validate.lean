import Rdq.Config.Units
import Rdq.Engine.Registry
import Rdq.Foundation.NetUrl

/-!
# Validation of a queue configuration

`core/config/validate.go`: the rules for single fields, which apply where the field is
set, and the rules that compare two fields, which apply where both are set. The first
rule that fails is reported, with the place of the block and the field it is about.

`Valid` says the same in terms of the leaves, and `validateQueueConfig_ok` that it is
what the checks decide.
-/

namespace Rdq.Config

open Foundation JsonText NetUrl
open Engine (Rate quote)

/-! ## Errors -/

/-- A value in an error text. -/
inductive Shown
  | int (x : Int64)
  | size (x : Int64)
  | float (x : GoFloat)
  | duration (d : Int64)
  | rate (r : Rate)
  | text (s : String)
deriving DecidableEq

inductive Message
  | must (field rule : String) (got : Shown)
  | atMost (field : String) (value : Int64) (limit : String) (bound : Int64)
  | urlRequired
  | urlInvalid (raw : String) (fault : Fault)
  | urlRelative (raw : String)
  | urlScheme (raw : String)
  | secretRequired (authType : String)
  | secretScheme (ref : String)
  | secretUnnamed (ref : String)
deriving DecidableEq

/-- A message about the block at a path. -/
structure FieldError where
  path : String
  message : Message
deriving DecidableEq

/-- The formats that depend on tables: `%q` beyond ASCII, `%g`, and the error of
`url.Parse`. -/
structure Formats where
  unicodePrint : Char → Bool
  float : GoFloat → String
  fault : String → Fault → String

def Shown.print (f : Formats) : Shown → String
  | .int x => String.ofList (formatInt x.toInt)
  | .size x => String.ofList (formatInt x.toInt) ++ " bytes"
  | .float x => f.float x
  | .duration d => String.ofList (durationText d.toInt)
  | .rate r => quote f.unicodePrint (String.ofList (rateText r))
  | .text s => quote f.unicodePrint s

def secretRefEnvScheme : String := "env:"

def Message.print (f : Formats) : Message → String
  | .must field rule got => field ++ " must be " ++ rule ++ ", got " ++ got.print f
  | .atMost field value limit bound =>
    field ++ " (" ++ (Shown.duration value).print f ++ ") must be <= " ++ limit ++ " (" ++
      (Shown.duration bound).print f ++ ")"
  | .urlRequired => "callback.url is required when a callback is configured"
  | .urlInvalid raw fault => "callback.url " ++ quote f.unicodePrint raw ++
      " is not a valid URL: " ++ f.fault raw fault
  | .urlRelative raw => "callback.url " ++ quote f.unicodePrint raw ++
      " must be absolute (scheme://host)"
  | .urlScheme raw => "callback.url " ++ quote f.unicodePrint raw ++ " must use http or https"
  | .secretRequired authType => "callback.auth.secret_ref is required for auth type " ++
      quote f.unicodePrint authType
  | .secretScheme ref => "callback.auth.secret_ref " ++ quote f.unicodePrint ref ++
      " must use the " ++ secretRefEnvScheme ++ " scheme (v1 supports env: only)"
  | .secretUnnamed ref => "callback.auth.secret_ref " ++ quote f.unicodePrint ref ++
      " names no environment variable"

/-- `errf`. -/
def FieldError.print (f : Formats) (e : FieldError) : String :=
  "config: " ++ e.path ++ ": " ++ e.message.print f

/-! ## Checks -/

abbrev Check := Except FieldError Unit

def refuseIf (path : String) (bad : Bool) (message : Message) : Check :=
  if bad then .error ⟨path, message⟩ else .ok ()

/-- A rule that applies where the value is set. -/
def whenSet {α : Type} (x : Option α) (rule : α → Check) : Check :=
  match x with
  | none => .ok ()
  | some v => rule v

def requirePositive (d : Option Int64) (path field : String) : Check :=
  whenSet d fun d => refuseIf path (decide (d ≤ 0)) (.must field "> 0" (.duration d))

def validateRetry (r : Option RetryConfig) (path : String) : Check :=
  whenSet r fun r => do
    whenSet r.maxAttempts fun n =>
      refuseIf path (decide (n < 1)) (.must "retry.max_attempts" ">= 1" (.int n))
    whenSet r.backoffMultiplier fun x =>
      refuseIf path (x.lt (.finite 1)) (.must "retry.backoff_multiplier" ">= 1.0" (.float x))
    whenSet r.jitter fun x =>
      refuseIf path (x.lt (.finite 0) || GoFloat.lt (.finite 1) x)
        (.must "retry.jitter" "in [0, 1]" (.float x))
    requirePositive r.initialBackoff path "retry.initial_backoff"
    requirePositive r.maxBackoff path "retry.max_backoff"

def validateExecution (e : Option ExecutionConfig) (path : String) : Check :=
  whenSet e fun e => do
    requirePositive e.lease path "execution.lease"
    requirePositive e.handlerTimeout path "execution.handler_timeout"
    whenSet e.lease fun lease => whenSet e.handlerTimeout fun t =>
      refuseIf path (decide (lease < t))
        (.atMost "execution.handler_timeout" t "execution.lease" lease)

def validateLimits (l : Option LimitsConfig) (path : String) : Check :=
  whenSet l fun l => do
    whenSet l.maxPayloadSize fun n =>
      refuseIf path (decide (n ≤ 0)) (.must "limits.max_payload_size" "> 0" (.size n))
    whenSet l.ttlSucceeded fun d =>
      refuseIf path (decide (d < 0)) (.must "limits.ttl_succeeded" ">= 0" (.duration d))

def validateWorker (w : Option WorkerConfig) (path : String) : Check :=
  whenSet w fun w => do
    whenSet w.batchSize fun n =>
      refuseIf path (decide (n < 1)) (.must "worker.batch_size" ">= 1" (.int n))
    whenSet w.concurrency fun n =>
      refuseIf path (decide (n < 1)) (.must "worker.concurrency" ">= 1" (.int n))
    requirePositive w.pollInterval path "worker.poll_interval"
    whenSet w.rateLimit fun r =>
      refuseIf path (decide (r.count ≤ 0) || decide (r.per ≤ 0))
        (.must "worker.rate_limit" "a positive count/period" (.rate r))

def validateHandler (h : Option HandlerConfig) (path : String) : Check :=
  whenSet (h.bind HandlerConfig.versionMismatch) fun s =>
    refuseIf path (decide (s ≠ "run-latest" ∧ s ≠ "dead-letter"))
      (.must "handler.version_mismatch" "\"run-latest\" or \"dead-letter\"" (.text s))

def validateSyncRetry (s : Option SyncRetryConfig) (path : String) : Check :=
  whenSet s fun s => do
    whenSet s.attempts fun n =>
      refuseIf path (decide (n < 0)) (.must "sync_retry.attempts" ">= 0" (.int n))
    whenSet s.backoff fun d =>
      refuseIf path (decide (d < 0)) (.must "sync_retry.backoff" ">= 0" (.duration d))

def http : Bytes := [ascii 'h', ascii 't', ascii 't', ascii 'p']

def https : Bytes := http ++ [ascii 's']

def validateCallbackURL (rule : HostRule) (raw : String) (protocol : Option String)
    (path : String) : Check :=
  match parse rule (bytesOf raw) with
  | .error fault => .error ⟨path, .urlInvalid raw fault⟩
  | .ok u => do
    refuseIf path (decide (u.scheme = [] ∨ u.host = [])) (.urlRelative raw)
    refuseIf path (decide ((protocol = none ∨ protocol = some "http") ∧
      u.scheme ≠ http ∧ u.scheme ≠ https)) (.urlScheme raw)

def validateSecretRef (ref path : String) : Check := do
  refuseIf path (!secretRefEnvScheme.toList.isPrefixOf ref.toList) (.secretScheme ref)
  refuseIf path (decide (ref = secretRefEnvScheme)) (.secretUnnamed ref)

def validateCallbackAuth (a : Option CallbackAuth) (path : String) : Check :=
  whenSet a fun a => do
    let authType := a.type.getD "none"
    refuseIf path (decide (authType ≠ "none" ∧ authType ≠ "bearer" ∧ authType ≠ "header"))
      (.must "callback.auth.type" "one of \"none\", \"bearer\", \"header\"" (.text authType))
    match a.secretRef with
    | some ref => validateSecretRef ref path
    | none =>
      refuseIf path (decide (authType = "bearer" ∨ authType = "header"))
        (.secretRequired authType)

def validateCallback (rule : HostRule) (qc : QueueConfig) (path : String) : Check :=
  whenSet qc.callback fun c => do
    whenSet c.protocol fun s =>
      refuseIf path (decide (s ≠ "http" ∧ s ≠ "grpc"))
        (.must "callback.protocol" "\"http\" or \"grpc\"" (.text s))
    refuseIf path (decide (c.url.getD "" = "")) .urlRequired
    validateCallbackURL rule (c.url.getD "") c.protocol path
    requirePositive c.timeout path "callback.timeout"
    whenSet c.timeout fun t =>
      whenSet (qc.execution.bind ExecutionConfig.handlerTimeout) fun bound =>
        refuseIf path (decide (bound < t))
          (.atMost "callback.timeout" t "execution.handler_timeout" bound)
    validateCallbackAuth c.auth path

/-- The checks of one configuration; `path` names it in errors. -/
def validateQueueConfig (rule : HostRule) (qc : QueueConfig) (path : String) : Check := do
  validateRetry qc.retry path
  validateExecution qc.execution path
  validateLimits qc.limits path
  validateWorker qc.worker path
  validateHandler qc.handler path
  validateSyncRetry qc.syncRetry path
  validateCallback rule qc path

/-- `ValidateQueue`. -/
def validateQueue (rule : HostRule) (qc : QueueConfig) (queue : String) : Check :=
  validateQueueConfig rule qc ("queues." ++ queue)

/-! ## What the checks decide -/

/-- The rule of a single leaf. -/
def LeafOk : (l : Leaf) → l.Value → Prop
  | .maxAttempts, n => 1 ≤ n
  | .initialBackoff, d => 0 < d
  | .backoffMultiplier, x => x.lt (.finite 1) = false
  | .maxBackoff, d => 0 < d
  | .jitter, x => x.lt (.finite 0) = false ∧ GoFloat.lt (.finite 1) x = false
  | .lease, d => 0 < d
  | .handlerTimeout, d => 0 < d
  | .maxPayloadSize, n => 0 < n
  | .ttlSucceeded, d => 0 ≤ d
  | .batchSize, n => 1 ≤ n
  | .pollInterval, d => 0 < d
  | .concurrency, n => 1 ≤ n
  | .rateLimit, r => 0 < r.count ∧ 0 < r.per
  | .versionMismatch, s => s = "run-latest" ∨ s = "dead-letter"
  | .syncAttempts, n => 0 ≤ n
  | .syncBackoff, d => 0 ≤ d
  | .protocol, s => s = "http" ∨ s = "grpc"
  | .timeout, d => 0 < d
  | .authType, s => s = "none" ∨ s = "bearer" ∨ s = "header"
  | .secretRef, s =>
    secretRefEnvScheme.toList.isPrefixOf s.toList = true ∧ s ≠ secretRefEnvScheme
  | .heartbeat, _ | .retryable, _ | .permanent, _ | .url, _ | .retryableStatus, _
  | .permanentStatus, _ => True

/-- The URL is absolute, and has a scheme of HTTP unless another protocol is set. -/
def UrlOk (rule : HostRule) (raw : String) (protocol : Option String) : Prop :=
  ∃ u, parse rule (bytesOf raw) = .ok u ∧ u.scheme ≠ [] ∧ u.host ≠ [] ∧
    (protocol = none ∨ protocol = some "http" → u.scheme = http ∨ u.scheme = https)

/-- What a callback block must have of its own. -/
structure CallbackOk (rule : HostRule) (c : CallbackConfig) : Prop where
  url : ∃ raw ∈ c.url, raw ≠ "" ∧ UrlOk rule raw c.protocol
  secret : ∀ a ∈ c.auth, ∀ s ∈ a.type, s = "bearer" ∨ s = "header" → a.secretRef ≠ none

structure Valid (rule : HostRule) (qc : QueueConfig) : Prop where
  leaf : ∀ l v, qc.leaf l = some v → LeafOk l v
  handlerTimeout_le : ∀ t lease, qc.leaf .handlerTimeout = some t →
    qc.leaf .lease = some lease → t ≤ lease
  timeout_le : ∀ t bound, qc.leaf .timeout = some t →
    qc.leaf .handlerTimeout = some bound → t ≤ bound
  callback : ∀ c ∈ qc.callback, CallbackOk rule c

section Checks
variable {path : String}

@[simp] theorem refuseIf_ok {bad : Bool} {m : Message} :
    refuseIf path bad m = .ok () ↔ bad = false := by
  cases bad <;> simp [refuseIf]

@[simp] theorem whenSet_ok {α : Type} {x : Option α} {rule : α → Check} :
    whenSet x rule = .ok () ↔ ∀ v, x = some v → rule v = .ok () := by
  cases x <;> simp [whenSet]

@[simp] theorem seq_ok {a b : Check} :
    (a >>= fun _ => b) = .ok () ↔ a = .ok () ∧ b = .ok () := by
  cases a with
  | error e => exact ⟨fun h => (by cases h), fun h => (by cases h.1)⟩
  | ok u => exact ⟨fun h => ⟨rfl, h⟩, fun h => h.2⟩

@[simp] theorem requirePositive_ok {d : Option Int64} {field : String} :
    requirePositive d path field = .ok () ↔ ∀ v, d = some v → 0 < v := by
  simp [requirePositive]

theorem validateRetry_ok {r : Option RetryConfig} : validateRetry r path = .ok () ↔
    ∀ b, r = some b → (∀ v, b.maxAttempts = some v → 1 ≤ v) ∧
      (∀ v, b.backoffMultiplier = some v → v.lt (.finite 1) = false) ∧
      (∀ v, b.jitter = some v → v.lt (.finite 0) = false ∧ GoFloat.lt (.finite 1) v = false) ∧
      (∀ v, b.initialBackoff = some v → 0 < v) ∧ ∀ v, b.maxBackoff = some v → 0 < v := by
  simp [validateRetry]

theorem validateExecution_ok {e : Option ExecutionConfig} : validateExecution e path = .ok () ↔
    ∀ b, e = some b → (∀ v, b.lease = some v → 0 < v) ∧
      (∀ v, b.handlerTimeout = some v → 0 < v) ∧
      ∀ lease, b.lease = some lease → ∀ t, b.handlerTimeout = some t → t ≤ lease := by
  simp [validateExecution]

theorem validateLimits_ok {l : Option LimitsConfig} : validateLimits l path = .ok () ↔
    ∀ b, l = some b → (∀ v, b.maxPayloadSize = some v → 0 < v) ∧
      ∀ v, b.ttlSucceeded = some v → 0 ≤ v := by
  simp [validateLimits]

theorem validateWorker_ok {w : Option WorkerConfig} : validateWorker w path = .ok () ↔
    ∀ b, w = some b → (∀ v, b.batchSize = some v → 1 ≤ v) ∧
      (∀ v, b.concurrency = some v → 1 ≤ v) ∧ (∀ v, b.pollInterval = some v → 0 < v) ∧
      ∀ v, b.rateLimit = some v → 0 < v.count ∧ 0 < v.per := by
  simp [validateWorker]

theorem validateHandler_ok {h : Option HandlerConfig} : validateHandler h path = .ok () ↔
    ∀ b, h = some b → ∀ v, b.versionMismatch = some v → v = "run-latest" ∨ v = "dead-letter" := by
  simp only [validateHandler, whenSet_ok, refuseIf_ok, Option.bind_eq_some_iff,
    decide_eq_false_iff_not, not_and_or, not_not, forall_exists_index, and_imp, ne_eq]
  exact ⟨fun h b hb v hv => h v b hb hv, fun h v b hb hv => h b hb v hv⟩

theorem validateSyncRetry_ok {s : Option SyncRetryConfig} : validateSyncRetry s path = .ok () ↔
    ∀ b, s = some b → (∀ v, b.attempts = some v → 0 ≤ v) ∧ ∀ v, b.backoff = some v → 0 ≤ v := by
  simp [validateSyncRetry]

theorem validateCallbackURL_ok {rule : HostRule} {raw : String} {protocol : Option String} :
    validateCallbackURL rule raw protocol path = .ok () ↔ UrlOk rule raw protocol := by
  unfold validateCallbackURL UrlOk
  cases parse rule (bytesOf raw) with
  | error fault => simp
  | ok u =>
    simp only [seq_ok, refuseIf_ok, decide_eq_false_iff_not, not_or, not_and, Except.ok.injEq,
      exists_eq_left', and_assoc, not_not]
    refine and_congr_right fun _ => and_congr_right fun _ => imp_congr_right fun _ => ?_
    exact ⟨fun h => or_iff_not_imp_left.mpr h, fun h hne => h.resolve_left hne⟩

theorem validateSecretRef_ok {ref : String} :
    validateSecretRef ref path = .ok () ↔ LeafOk .secretRef ref := by
  simp [validateSecretRef, LeafOk]

theorem validateCallbackAuth_ok {auth : Option CallbackAuth} :
    validateCallbackAuth auth path = .ok () ↔ ∀ a, auth = some a →
      (∀ s, a.type = some s → LeafOk .authType s) ∧
      (∀ ref, a.secretRef = some ref → LeafOk .secretRef ref) ∧
      ∀ s, a.type = some s → s = "bearer" ∨ s = "header" → a.secretRef ≠ none := by
  unfold validateCallbackAuth
  rw [whenSet_ok]
  refine forall_congr' fun a => imp_congr_right fun _ => ?_
  obtain ⟨type, secretRef⟩ := a
  rw [seq_ok, refuseIf_ok]
  have htype : decide (type.getD "none" ≠ "none" ∧ type.getD "none" ≠ "bearer" ∧
      type.getD "none" ≠ "header") = false ↔ ∀ s, type = some s → LeafOk .authType s := by
    cases type with
    | none => simp
    | some s =>
      simp only [Option.getD_some, decide_eq_false_iff_not, not_and_or, not_not, LeafOk,
        Option.some.injEq, forall_eq', ne_eq]
  refine and_congr htype ?_
  cases secretRef with
  | some ref => simp [validateSecretRef_ok]
  | none =>
    cases type with
    | none => simp
    | some s => simp

theorem validateCallback_ok {rule : HostRule} {qc : QueueConfig} :
    validateCallback rule qc path = .ok () ↔ ∀ c, qc.callback = some c →
      (∀ s, c.protocol = some s → s = "http" ∨ s = "grpc") ∧
      (∃ raw, c.url = some raw ∧ raw ≠ "" ∧ UrlOk rule raw c.protocol) ∧
      (∀ t, c.timeout = some t → 0 < t) ∧
      (∀ t, c.timeout = some t → ∀ bound, qc.leaf .handlerTimeout = some bound → t ≤ bound) ∧
      ∀ a, c.auth = some a → (∀ s, a.type = some s → LeafOk .authType s) ∧
        (∀ ref, a.secretRef = some ref → LeafOk .secretRef ref) ∧
        ∀ s, a.type = some s → s = "bearer" ∨ s = "header" → a.secretRef ≠ none := by
  unfold validateCallback
  rw [whenSet_ok]
  refine forall_congr' fun c => imp_congr_right fun _ => ?_
  have hurl : (decide (c.url.getD "" = "") = false ∧ UrlOk rule (c.url.getD "") c.protocol) ↔
      ∃ raw, c.url = some raw ∧ raw ≠ "" ∧ UrlOk rule raw c.protocol := by
    cases c.url with
    | none => simp
    | some raw => simp
  simp only [seq_ok, whenSet_ok, refuseIf_ok, requirePositive_ok, validateCallbackURL_ok,
    validateCallbackAuth_ok, ← hurl, and_assoc, decide_eq_false_iff_not, Int64.not_lt,
    not_and_or, not_not, ne_eq]
  rfl

end Checks

theorem of_bind {β α : Type} {block : Option β} {get : β → Option α} {P : α → Prop}
    (h : ∀ b, block = some b → ∀ v, get b = some v → P v) :
    ∀ v, block.bind get = some v → P v := by
  intro v hv
  obtain ⟨b, hb, hget⟩ := Option.bind_eq_some_iff.mp hv
  exact h b hb v hget

/-- The checks accept exactly the valid configurations. -/
theorem validateQueueConfig_ok {rule : HostRule} {qc : QueueConfig} {path : String} :
    validateQueueConfig rule qc path = .ok () ↔ Valid rule qc := by
  simp only [validateQueueConfig, seq_ok, validateRetry_ok, validateExecution_ok,
    validateLimits_ok, validateWorker_ok, validateHandler_ok, validateSyncRetry_ok,
    validateCallback_ok]
  constructor
  · rintro ⟨hretry, hexecution, hlimits, hworker, hhandler, hsync, hcallback⟩
    refine ⟨?_, ?_, ?_, ?_⟩
    · intro l v hl
      cases l with
      | heartbeat | retryable | permanent | url | retryableStatus | permanentStatus => trivial
      | maxAttempts => exact of_bind (fun b hb => (hretry b hb).1) v hl
      | backoffMultiplier => exact of_bind (fun b hb => (hretry b hb).2.1) v hl
      | jitter => exact of_bind (fun b hb => (hretry b hb).2.2.1) v hl
      | initialBackoff => exact of_bind (fun b hb => (hretry b hb).2.2.2.1) v hl
      | maxBackoff => exact of_bind (fun b hb => (hretry b hb).2.2.2.2) v hl
      | lease => exact of_bind (fun b hb => (hexecution b hb).1) v hl
      | handlerTimeout => exact of_bind (fun b hb => (hexecution b hb).2.1) v hl
      | maxPayloadSize => exact of_bind (fun b hb => (hlimits b hb).1) v hl
      | ttlSucceeded => exact of_bind (fun b hb => (hlimits b hb).2) v hl
      | batchSize => exact of_bind (fun b hb => (hworker b hb).1) v hl
      | concurrency => exact of_bind (fun b hb => (hworker b hb).2.1) v hl
      | pollInterval => exact of_bind (fun b hb => (hworker b hb).2.2.1) v hl
      | rateLimit => exact of_bind (fun b hb => (hworker b hb).2.2.2) v hl
      | versionMismatch => exact of_bind hhandler v hl
      | syncAttempts => exact of_bind (fun b hb => (hsync b hb).1) v hl
      | syncBackoff => exact of_bind (fun b hb => (hsync b hb).2) v hl
      | protocol => exact of_bind (fun b hb => (hcallback b hb).1) v hl
      | timeout => exact of_bind (fun b hb => (hcallback b hb).2.2.1) v hl
      | authType =>
        have hauth := of_bind fun b hb => (hcallback b hb).2.2.2.2
        exact of_bind (fun a ha => (hauth a ha).1) v hl
      | secretRef =>
        have hauth := of_bind fun b hb => (hcallback b hb).2.2.2.2
        exact of_bind (fun a ha => (hauth a ha).2.1) v hl
    · intro t lease ht hlease
      obtain ⟨b, hb, ht⟩ := Option.bind_eq_some_iff.mp ht
      obtain ⟨b', hb', hlease⟩ := Option.bind_eq_some_iff.mp hlease
      rw [hb] at hb'
      cases hb'
      exact (hexecution b hb).2.2 lease hlease t ht
    · intro t bound ht hbound
      obtain ⟨c, hc, ht⟩ := Option.bind_eq_some_iff.mp ht
      exact (hcallback c hc).2.2.2.1 t ht bound hbound
    · intro c hc
      obtain ⟨-, hurl, -, -, hauth⟩ := hcallback c hc
      exact ⟨hurl, fun a ha => (hauth a ha).2.2⟩
  · intro h
    have hleaf : ∀ {β : Type} (l : Leaf) {block : Option β} {get : β → Option l.Value},
        qc.leaf l = block.bind get → ∀ b, block = some b → ∀ v, get b = some v → LeafOk l v := by
      intro β l block get heq b hb v hv
      refine h.leaf l v (heq.trans ?_)
      rw [hb]
      exact hv
    refine ⟨fun b hb => ⟨hleaf .maxAttempts rfl b hb, hleaf .backoffMultiplier rfl b hb,
        hleaf .jitter rfl b hb, hleaf .initialBackoff rfl b hb, hleaf .maxBackoff rfl b hb⟩,
      fun b hb => ⟨hleaf .lease rfl b hb, hleaf .handlerTimeout rfl b hb, ?_⟩,
      fun b hb => ⟨hleaf .maxPayloadSize rfl b hb, hleaf .ttlSucceeded rfl b hb⟩,
      fun b hb => ⟨hleaf .batchSize rfl b hb, hleaf .concurrency rfl b hb,
        hleaf .pollInterval rfl b hb, hleaf .rateLimit rfl b hb⟩,
      fun b hb => hleaf .versionMismatch rfl b hb,
      fun b hb => ⟨hleaf .syncAttempts rfl b hb, hleaf .syncBackoff rfl b hb⟩,
      fun c hc => ⟨hleaf .protocol rfl c hc, (h.callback c hc).url, hleaf .timeout rfl c hc, ?_,
        fun a ha => ⟨?_, ?_, (h.callback c hc).secret a ha⟩⟩⟩
    · intro lease hlease t ht
      exact h.handlerTimeout_le t lease (Option.bind_eq_some_iff.mpr ⟨b, hb, ht⟩)
        (Option.bind_eq_some_iff.mpr ⟨b, hb, hlease⟩)
    · intro t ht bound hbound
      exact h.timeout_le t bound (Option.bind_eq_some_iff.mpr ⟨c, hc, ht⟩) hbound
    · exact hleaf .authType rfl a (Option.bind_eq_some_iff.mpr ⟨c, hc, ha⟩)
    · exact hleaf .secretRef rfl a (Option.bind_eq_some_iff.mpr ⟨c, hc, ha⟩)

end Rdq.Config
