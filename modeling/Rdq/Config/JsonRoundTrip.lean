import Rdq.Config.Json

/-!
# A configuration written and read

What becomes of a configuration that is written as JSON and read again: durations lose
what is below the millisecond, and lists that are set but empty become unset. Everything
else comes back as it was, if its numbers are finite.
-/

namespace Rdq.Config

open Foundation JsonText
open Engine (Rate)

variable (F : FloatText)

/-! ## Leaves -/

/-- What becomes of the value of a leaf. -/
def sentLeaf : (l : Leaf) → l.Value → l.Value
  | .initialBackoff, d | .maxBackoff, d | .lease, d | .handlerTimeout, d | .ttlSucceeded, d
  | .pollInterval, d | .syncBackoff, d | .timeout, d => d / millisecond * millisecond
  | _, v => v

/-- Rates and statuses are as their decoders make them. -/
def LeafParsed : (l : Leaf) → l.Value → Prop
  | .rateLimit, r => RateParsed r
  | .retryableStatus, ms | .permanentStatus, ms => ∀ m ∈ ms, StatusParsed m
  | _, _ => True

def LeafFinite : (l : Leaf) → l.Value → Prop
  | .backoffMultiplier, x | .jitter, x => ∃ q, x = .finite q
  | _, _ => True

/-- The value survives: whole milliseconds, finite numbers, no empty list. -/
def LeafKept : (l : Leaf) → l.Value → Prop
  | .initialBackoff, d | .maxBackoff, d | .lease, d | .handlerTimeout, d | .ttlSucceeded, d
  | .pollInterval, d | .syncBackoff, d | .timeout, d => d % millisecond = 0
  | .backoffMultiplier, x | .jitter, x => ∃ q, x = .finite q
  | .retryable, xs | .permanent, xs => xs ≠ []
  | .retryableStatus, xs | .permanentStatus, xs => xs ≠ []
  | _, _ => True

theorem back_float {x : GoFloat} (h : ∃ q, x = .finite q) :
    (floatReader F).Back (writeFloat F x) (some x) := by
  obtain ⟨q, rfl⟩ := h
  refine ⟨_, rfl, rfl, ?_⟩
  change (F.parse (F.print q)).map GoFloat.finite = _
  rw [F.exact]
  rfl

theorem writeFloat_ok {x : GoFloat} {v : Cst} (h : writeFloat F x = .ok v) :
    ∃ q, x = .finite q := by
  cases x with
  | finite q => exact ⟨q, rfl⟩
  | _ => cases h

/-- Each leaf is read back from what it is written as. -/
theorem back_leaf (l : Leaf) {v : l.Value} (hparsed : LeafParsed l v) (hfinite : LeafFinite l v) :
    (leafCodec F ofMillis l).Back v (sentLeaf l v) := by
  cases l with
  | maxAttempts | maxPayloadSize | batchSize | concurrency | syncAttempts =>
    exact OptionalCodec.back_pointer (back_int v) fun h => by cases h
  | initialBackoff | maxBackoff | lease | handlerTimeout | ttlSucceeded | pollInterval
  | syncBackoff | timeout =>
    exact OptionalCodec.back_pointer (back_duration v) fun h => by cases h
  | backoffMultiplier | jitter =>
    refine OptionalCodec.back_pointer (back_float F hfinite) fun h => ?_
    obtain ⟨q, rfl⟩ := hfinite
    cases h
  | heartbeat => exact OptionalCodec.back_pointer ⟨_, rfl, rfl, rfl⟩ fun h => by cases h
  | rateLimit => exact OptionalCodec.back_pointer (back_rate hparsed) fun h => by cases h
  | retryable | permanent => exact OptionalCodec.back_list fun s _ => back_string true s
  | versionMismatch | protocol | url | authType | secretRef =>
    exact OptionalCodec.back_pointer (back_string true v) fun h => by cases h
  | retryableStatus | permanentStatus =>
    exact OptionalCodec.back_list fun m hm => back_status (hparsed m hm)

/-- What is left out is an empty list, which is not kept. -/
theorem kept_iff (l : Leaf) (v : l.Value) : LeafKept l v ↔
    LeafFinite l v ∧ (leafCodec F ofMillis l).omitted v = false ∧ sentLeaf l v = v := by
  have hlist : ∀ {α : Type} (xs : List α), xs ≠ [] ↔ xs.isEmpty = false := by
    intro α xs
    rw [List.isEmpty_eq_false_iff]
  cases l with
  | initialBackoff | maxBackoff | lease | handlerTimeout | ttlSucceeded | pollInterval
  | syncBackoff | timeout =>
    exact ⟨fun h => ⟨trivial, rfl, (wholeMillis_iff v).mp h⟩,
      fun h => (wholeMillis_iff v).mpr h.2.2⟩
  | backoffMultiplier | jitter => exact ⟨fun h => ⟨h, rfl, rfl⟩, fun h => h.1⟩
  | retryable | permanent | retryableStatus | permanentStatus =>
    exact ⟨fun h => ⟨trivial, (hlist v).mp h, rfl⟩, fun h => (hlist v).mpr h.2.1⟩
  | _ => exact ⟨fun _ => ⟨trivial, rfl, rfl⟩, fun _ => trivial⟩

/-! ## Configurations -/

/-- What becomes of a leaf that may be unset. -/
def sentOption (l : Leaf) (x : Option l.Value) : Option l.Value :=
  x.bind fun v => if (leafCodec F ofMillis l).omitted v then none else some (sentLeaf l v)

/-- What becomes of a configuration. -/
def sentConfig (qc : QueueConfig) : QueueConfig := qc.mapLeaves (sentOption F)

variable {F}

theorem leaf_sentConfig (qc : QueueConfig) (l : Leaf) :
    (sentConfig F qc).leaf l = sentOption F l (qc.leaf l) :=
  leaf_mapLeaves (fun _ => rfl) qc l

/-! ## Reading what was written -/

/-- The leaves of the configuration can be written and read. -/
def Sendable (qc : QueueConfig) : Prop :=
  ∀ l v, qc.leaf l = some v → LeafParsed l v ∧ LeafFinite l v

variable {qc : QueueConfig}

theorem back_block (B : LeafBlock) (h : Sendable qc) {b : B.Value} (hb : B.find qc = some b) :
    (B.view F ofMillis).codec.Back b (B.mapLeaves (sentOption F) b) := by
  refine (B.view F ofMillis).back_codec (f := fun l => sentLeaf l.1) ?_
  intro l v hv _
  have hleaf : qc.leaf l.1 = some v := by
    rw [LeafBlock.leaf_eq l.2, hb]
    exact hv
  obtain ⟨hparsed, hfinite⟩ := h l.1 v hleaf
  exact back_leaf F l.1 hparsed hfinite

def sentCallbackField (F : FloatText) : (i : CallbackField) → i.Value → i.Value
  | .protocol => sentLeaf .protocol
  | .url => sentLeaf .url
  | .timeout => sentLeaf .timeout
  | .auth => LeafBlock.auth.mapLeaves (sentOption F)
  | .responseMapping => LeafBlock.responseMapping.mapLeaves (sentOption F)

theorem back_callback (h : Sendable qc) {c : CallbackConfig} (hc : qc.callback = some c) :
    (callbackView F ofMillis).codec.Back c (c.mapLeaves (sentOption F)) := by
  have hleaf : ∀ (l : Leaf) (get : CallbackConfig → Option l.Value),
      qc.leaf l = qc.callback.bind get →
      ∀ v, get c = some v → LeafParsed l v ∧ LeafFinite l v := by
    intro l get heq v hv
    apply h l v
    rw [heq, hc]
    exact hv
  have hblock : ∀ {β : Type} (get : CallbackConfig → Option β) {b : β}, get c = some b →
      qc.callback.bind get = some b := fun get _ hb => Option.bind_eq_some_iff.mpr ⟨c, hc, hb⟩
  have hpass : (callbackView F ofMillis).get (c.mapLeaves (sentOption F)) =
      (callbackStruct F ofMillis).pass (sentCallbackField F) ((callbackView F ofMillis).get c) := by
    funext i
    cases i with
    | protocol | url | timeout => rfl
    | auth | responseMapping =>
      exact Eq.symm ((callbackStruct F ofMillis).pass_of_not_omitted (fun _ => rfl) _ _)
  rw [← (callbackView F ofMillis).make_get (c.mapLeaves (sentOption F)), hpass]
  apply OptionalStruct.View.back_codec
  intro i v hv _
  cases i with
  | protocol =>
    obtain ⟨hparsed, hfinite⟩ := hleaf .protocol CallbackConfig.protocol rfl v hv
    exact back_leaf F .protocol hparsed hfinite
  | url =>
    obtain ⟨hparsed, hfinite⟩ := hleaf .url CallbackConfig.url rfl v hv
    exact back_leaf F .url hparsed hfinite
  | timeout =>
    obtain ⟨hparsed, hfinite⟩ := hleaf .timeout CallbackConfig.timeout rfl v hv
    exact back_leaf F .timeout hparsed hfinite
  | auth => exact back_block .auth h (hblock CallbackConfig.auth hv)
  | responseMapping =>
    exact back_block .responseMapping h (hblock CallbackConfig.responseMapping hv)

def sentQueueField (F : FloatText) : (i : QueueField) → i.Value → i.Value
  | .retry => LeafBlock.retry.mapLeaves (sentOption F)
  | .execution => LeafBlock.execution.mapLeaves (sentOption F)
  | .limits => LeafBlock.limits.mapLeaves (sentOption F)
  | .worker => LeafBlock.worker.mapLeaves (sentOption F)
  | .classification => LeafBlock.classification.mapLeaves (sentOption F)
  | .handler => LeafBlock.handler.mapLeaves (sentOption F)
  | .syncRetry => LeafBlock.syncRetry.mapLeaves (sentOption F)
  | .callback => CallbackConfig.mapLeaves (sentOption F)

/-- A configuration is read back as `sentConfig` says. -/
theorem back_config (h : Sendable qc) :
    (queueView F ofMillis).codec.Back qc (sentConfig F qc) := by
  have hpass : (queueView F ofMillis).get (sentConfig F qc) =
      (queueStruct F ofMillis).pass (sentQueueField F) ((queueView F ofMillis).get qc) := by
    funext i
    cases i <;> exact Eq.symm ((queueStruct F ofMillis).pass_of_not_omitted (fun _ => rfl) _ _)
  rw [← (queueView F ofMillis).make_get (sentConfig F qc), hpass]
  apply OptionalStruct.View.back_codec
  intro i v hv _
  cases i with
  | retry => exact back_block .retry h hv
  | execution => exact back_block .execution h hv
  | limits => exact back_block .limits h hv
  | worker => exact back_block .worker h hv
  | classification => exact back_block .classification h hv
  | handler => exact back_block .handler h hv
  | syncRetry => exact back_block .syncRetry h hv
  | callback => exact back_callback h hv

theorem decode_writeConfig (h : Sendable qc) :
    ∃ v, writeConfig F (some qc) = .ok v ∧
      decodeConfig F ofMillis v.text = some (sentConfig F qc) := by
  obtain ⟨v, hv, -, hread⟩ := back_config (F := F) h
  refine ⟨v, hv, ?_⟩
  have hnull : v ≠ .null := by
    rintro rfl
    exact OptionalStruct.write_ne_null _ _ hv
  change readPointer (queueView F ofMillis).reader v none = _ at hread
  rw [readPointer_of_ne_null _ hnull] at hread
  obtain ⟨qc', hqc', heq⟩ := Option.map_eq_some_iff.mp hread
  rw [decodeConfig, firstValue_text, Option.bind_some]
  rw [← Option.some.inj heq]
  exact hqc'

/-! ## What survives -/

/-- Every leaf of the configuration survives. -/
def Kept (qc : QueueConfig) : Prop := ∀ l v, qc.leaf l = some v → LeafKept l v

theorem sentConfig_eq_self (h : Kept qc) : sentConfig F qc = qc := by
  apply mapLeaves_eq_self
  intro l
  cases hl : qc.leaf l with
  | none => rfl
  | some v =>
    obtain ⟨-, homit, hsent⟩ := (kept_iff F l v).mp (h l v hl)
    rw [sentOption, Option.bind_some, homit, if_neg Bool.false_ne_true, hsent]

/-- The leaves that survive are those of the kept values. -/
theorem kept_of_leaf_eq (hfinite : ∀ l v, qc.leaf l = some v → LeafFinite l v)
    (h : ∀ l, (sentConfig F qc).leaf l = qc.leaf l) : Kept qc := by
  intro l v hv
  have hleaf := h l
  rw [leaf_sentConfig, hv, sentOption, Option.bind_some] at hleaf
  cases homit : (leafCodec F ofMillis l).omitted v with
  | true =>
    rw [homit, if_pos rfl] at hleaf
    cases hleaf
  | false =>
    rw [homit, if_neg Bool.false_ne_true] at hleaf
    exact (kept_iff F l v).mpr ⟨hfinite l v hv, homit, Option.some.inj hleaf⟩

/-- A configuration that is written has finite numbers. -/
theorem finite_of_writeConfig {v : Cst} (h : writeConfig F (some qc) = .ok v) :
    ∀ l x, qc.leaf l = some x → LeafFinite l x := by
  have hfloat : ∀ (l : { l // l ∈ LeafBlock.retry.leaves }) (x : l.1.Value),
      (leafCodec F ofMillis l.1).omitted x = false → qc.leaf l.1 = some x →
        ∃ u, (leafCodec F ofMillis l.1).write x = .ok u := by
    intro l x homit hx
    rw [LeafBlock.leaf_eq l.2] at hx
    obtain ⟨b, hb, hget⟩ := Option.bind_eq_some_iff.mp hx
    obtain ⟨u, hu⟩ := (queueStruct F ofMillis).write_codec h (i := .retry) hb rfl
    exact (leafStruct F ofMillis _ LeafBlock.retry.distinct).write_codec hu hget homit
  intro l x hx
  cases l with
  | backoffMultiplier =>
    obtain ⟨u, hu⟩ := hfloat ⟨.backoffMultiplier, by decide⟩ x rfl hx
    exact writeFloat_ok F hu
  | jitter =>
    obtain ⟨u, hu⟩ := hfloat ⟨.jitter, by decide⟩ x rfl hx
    exact writeFloat_ok F hu
  | _ => trivial

/-! ## What is read -/

theorem keeps_rate : (leafCodec F ofMillis .rateLimit).Keeps (LeafParsed .rateLimit) := by
  apply OptionalCodec.keeps_pointer
  intro v x y hy
  obtain ⟨s, -, hs⟩ := Option.bind_eq_some_iff.mp hy
  exact rateParsed_of_parseRate hs

theorem keeps_status {l : Leaf} (h : l ∈ LeafBlock.responseMapping.leaves) :
    (leafCodec F ofMillis l).Keeps (LeafParsed l) := by
  have hblock := LeafBlock.mem_leaves.mp h
  cases l with
  | retryableStatus | permanentStatus =>
    exact OptionalCodec.keeps_list fun v x y hy => statusParsed_of_readStatus hy
  | _ => cases hblock

/-- The rates and statuses of a configuration that was read are well formed. -/
theorem parsed_of_decodeConfig {body : Bytes} (h : decodeConfig F ofMillis body = some qc) :
    ∀ l v, qc.leaf l = some v → LeafParsed l v := by
  obtain ⟨u, -, hread⟩ := Option.bind_eq_some_iff.mp h
  have hrate := (queueView F ofMillis).read_field (i := .worker)
    ((LeafBlock.worker.view F ofMillis).keeps (i := ⟨.rateLimit, by decide⟩) (keeps_rate (F := F)))
    hread (fun a ha => by cases ha)
  have hstatus : ∀ l : { l // l ∈ LeafBlock.responseMapping.leaves }, ∀ c, qc.callback = some c →
      ∀ m, c.responseMapping = some m → ∀ v, (LeafBlock.responseMapping.alone m).leaf l.1 = some v →
        LeafParsed l.1 v := by
    intro l
    exact (queueView F ofMillis).read_field (i := .callback)
      ((callbackView F ofMillis).keeps (i := .responseMapping)
        ((LeafBlock.responseMapping.view F ofMillis).keeps (i := l) (keeps_status (F := F) l.2)))
      hread (fun a ha => by cases ha)
  intro l v hv
  cases l with
  | rateLimit =>
    obtain ⟨b, hb, hget⟩ := Option.bind_eq_some_iff.mp hv
    exact hrate b hb v hget
  | retryableStatus =>
    obtain ⟨m, hm, hget⟩ := Option.bind_eq_some_iff.mp hv
    obtain ⟨c, hc, hm⟩ := Option.bind_eq_some_iff.mp hm
    exact hstatus ⟨.retryableStatus, by decide⟩ c hc m hm v hget
  | permanentStatus =>
    obtain ⟨m, hm, hget⟩ := Option.bind_eq_some_iff.mp hv
    obtain ⟨c, hc, hm⟩ := Option.bind_eq_some_iff.mp hm
    exact hstatus ⟨.permanentStatus, by decide⟩ c hc m hm v hget
  | _ => trivial

end Rdq.Config
