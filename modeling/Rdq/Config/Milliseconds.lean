import Rdq.Config.Json

/-!
# The durations of a configuration

A duration is written in milliseconds and kept in nanoseconds, in 64 bits each. A body is
also read with its durations as the numbers that are written: `decodeConfig_ofMillis` says
that this is the same reading, up to the factor.
-/

namespace Rdq.Config

open Foundation JsonText

/-! ## One duration -/

/-- The integer is one of 64 bits. -/
def Fits (i : Int) : Prop := Int64.minValue.toInt ≤ i ∧ i ≤ Int64.maxValue.toInt

instance (i : Int) : Decidable (Fits i) := inferInstanceAs (Decidable (_ ∧ _))

theorem fits_toInt (x : Int64) : Fits x.toInt := ⟨x.minValue_le_toInt, x.toInt_le⟩

/-- The product is exact when it fits, and only then. -/
theorem toInt_ofMillis_iff (ms : Int64) :
    (ofMillis ms).toInt = ms.toInt * 1000000 ↔ Fits (ms.toInt * 1000000) := by
  constructor
  · intro h
    rw [← h]
    exact fits_toInt _
  · rintro ⟨hlow, hhigh⟩
    have hmin : Int64.minValue.toInt = -9223372036854775808 := rfl
    have hmax : Int64.maxValue.toInt = 9223372036854775807 := rfl
    have hms : millisecond.toInt = 1000000 := rfl
    rw [ofMillis, Int64.toInt_mul, hms]
    apply Int.bmod_eq_of_le
    · omega
    · omega

theorem ofMillis_div {ms : Int64} (h : Fits (ms.toInt * 1000000)) :
    ofMillis ms / millisecond = ms := by
  apply Int64.toInt_inj.mp
  rw [Int64.toInt_div_of_ne_right _ _ (by decide), (toInt_ofMillis_iff ms).mpr h]
  exact Int.mul_tdiv_cancel _ (by decide)

/-- How a number that is an integer is read. -/
theorem read_duration {n : Number} {ms : Int} (hn : n.int? = some ms) (old : Int64) :
    (durationReader ofMillis).read (.num n) old =
      if Fits ms then some (ofMillis (Int64.ofInt ms)) else none := by
  change (readInt (.num n) 0).map ofMillis = _
  have hread : readInt (.num n) 0 = if Fits ms then some (Int64.ofInt ms) else none := by
    simp only [readInt, hn, Option.bind_some]
    rfl
  rw [hread, apply_ite (Option.map ofMillis)]
  rfl

/-! ## All durations -/

/-- The leaves that are durations. -/
inductive DurationLeaf
  | initialBackoff
  | maxBackoff
  | lease
  | handlerTimeout
  | ttlSucceeded
  | pollInterval
  | syncBackoff
  | timeout
deriving DecidableEq, Repr

def QueueConfig.duration (qc : QueueConfig) : DurationLeaf → Option Int64
  | .initialBackoff => qc.leaf .initialBackoff
  | .maxBackoff => qc.leaf .maxBackoff
  | .lease => qc.leaf .lease
  | .handlerTimeout => qc.leaf .handlerTimeout
  | .ttlSucceeded => qc.leaf .ttlSucceeded
  | .pollInterval => qc.leaf .pollInterval
  | .syncBackoff => qc.leaf .syncBackoff
  | .timeout => qc.leaf .timeout

/-- The durations from milliseconds; other values stay. -/
def scaleLeaf : (l : Leaf) → l.Value → l.Value
  | .initialBackoff, d | .maxBackoff, d | .lease, d | .handlerTimeout, d | .ttlSucceeded, d
  | .pollInterval, d | .syncBackoff, d | .timeout, d => ofMillis d
  | _, v => v

def scaleOption (l : Leaf) (x : Option l.Value) : Option l.Value := x.map (scaleLeaf l)

def scaleConfig (qc : QueueConfig) : QueueConfig := qc.mapLeaves scaleOption

theorem duration_scaleConfig (qc : QueueConfig) (d : DurationLeaf) :
    (scaleConfig qc).duration d = (qc.duration d).map ofMillis := by
  have hleaf := leaf_mapLeaves (f := scaleOption) (fun _ => rfl) qc
  cases d with
  | initialBackoff => exact hleaf .initialBackoff
  | maxBackoff => exact hleaf .maxBackoff
  | lease => exact hleaf .lease
  | handlerTimeout => exact hleaf .handlerTimeout
  | ttlSucceeded => exact hleaf .ttlSucceeded
  | pollInterval => exact hleaf .pollInterval
  | syncBackoff => exact hleaf .syncBackoff
  | timeout => exact hleaf .timeout

/-! ## Reading with and without the factor -/

variable (F : FloatText)

theorem maps_duration {ε : Type} :
    (OptionalCodec.pointer (durationReader ofMillis) (writeDuration (ε := ε))).Maps
      (.pointer (durationReader id) writeDuration) ofMillis := by
  have hzero : (0 : Int64) = ofMillis 0 := by decide
  refine OptionalCodec.maps_pointer hzero fun v x => ?_
  change (readInt v 0).map ofMillis = ((readInt v 0).map id).map ofMillis
  rw [Option.map_id]
  rfl

theorem maps_leaf (l : Leaf) :
    (leafCodec F ofMillis l).Maps (leafCodec F id l) (scaleLeaf l) := by
  cases l with
  | initialBackoff | maxBackoff | lease | handlerTimeout | ttlSucceeded | pollInterval
  | syncBackoff | timeout => exact maps_duration
  | maxAttempts | maxPayloadSize | batchSize | concurrency | syncAttempts =>
    exact OptionalCodec.maps_self (.pointer intReader writeInt)
  | backoffMultiplier | jitter =>
    exact OptionalCodec.maps_self (.pointer (floatReader F) (writeFloat F))
  | heartbeat => exact OptionalCodec.maps_self (.pointer boolReader fun b => .ok (.bool b))
  | rateLimit => exact OptionalCodec.maps_self (.pointer rateReader writeRate)
  | retryable | permanent =>
    exact OptionalCodec.maps_self (.list stringReader (writeString true))
  | versionMismatch | protocol | url | authType | secretRef =>
    exact OptionalCodec.maps_self (.pointer stringReader (writeString true))
  | retryableStatus | permanentStatus =>
    exact OptionalCodec.maps_self (.list statusReader writeStatus)

theorem maps_block (B : LeafBlock) :
    (B.view F ofMillis).codec.Maps (B.view F id).codec (B.mapLeaves scaleOption) :=
  (B.view F ofMillis).maps_codec fun l => maps_leaf F l.1

def scaleCallbackField : (i : CallbackField) → i.Value → i.Value
  | .protocol => scaleLeaf .protocol
  | .url => scaleLeaf .url
  | .timeout => scaleLeaf .timeout
  | .auth => LeafBlock.auth.mapLeaves scaleOption
  | .responseMapping => LeafBlock.responseMapping.mapLeaves scaleOption

theorem maps_callback :
    (callbackView F ofMillis).codec.Maps (callbackView F id).codec
      (CallbackConfig.mapLeaves scaleOption) := by
  refine (callbackView F ofMillis).maps_codec (g := scaleCallbackField) fun i => ?_
  cases i with
  | protocol => exact maps_leaf F .protocol
  | url => exact maps_leaf F .url
  | timeout => exact maps_leaf F .timeout
  | auth => exact maps_block F .auth
  | responseMapping => exact maps_block F .responseMapping

def scaleQueueField : (i : QueueField) → i.Value → i.Value
  | .retry => LeafBlock.retry.mapLeaves scaleOption
  | .execution => LeafBlock.execution.mapLeaves scaleOption
  | .limits => LeafBlock.limits.mapLeaves scaleOption
  | .worker => LeafBlock.worker.mapLeaves scaleOption
  | .classification => LeafBlock.classification.mapLeaves scaleOption
  | .handler => LeafBlock.handler.mapLeaves scaleOption
  | .syncRetry => LeafBlock.syncRetry.mapLeaves scaleOption
  | .callback => CallbackConfig.mapLeaves scaleOption

theorem maps_queue (i : QueueField) :
    ((queueStruct F ofMillis).codec i).Maps ((queueStruct F id).codec i) (scaleQueueField i) := by
  cases i with
  | retry => exact maps_block F .retry
  | execution => exact maps_block F .execution
  | limits => exact maps_block F .limits
  | worker => exact maps_block F .worker
  | classification => exact maps_block F .classification
  | handler => exact maps_block F .handler
  | syncRetry => exact maps_block F .syncRetry
  | callback => exact maps_callback F

/-- A body is read with durations in nanoseconds as it is with the numbers that are
written, each multiplied. -/
theorem decodeConfig_ofMillis (body : Bytes) :
    decodeConfig F ofMillis body = (decodeConfig F id body).map scaleConfig := by
  unfold decodeConfig
  rw [Option.map_bind]
  apply congrArg (Option.bind _)
  funext v
  exact (queueView F ofMillis).read_map (g := scaleQueueField) (maps_queue F) v {}

end Rdq.Config
