import Mathlib.Data.Rat.Encodable
import Rdq.Config.JsonRoundTrip
import Rdq.Config.Load
import Rdq.Config.Milliseconds
import Rdq.Engine.Spec
import Rdq.Server.Audit

/-!
# Queue configurations over the admin API

`handleGetQueueConfig` and `handlePutQueueConfig` of `server/http/admin.go`, with the
bodies they write and read. The config store is that of `Audit`: it is seeded with the
queues of a document that was loaded, and a PUT replaces the configuration of one queue.

`Accepted` are the configurations that get into it in these two ways. The JSON that a GET
shows for one of them is the `config` member of its answer.
-/

namespace Rdq.Server.AdminConfig

open Foundation JsonText NetUrl Config Audit
open Engine (anyHost)

variable (F : FloatText) (rule : HostRule)

/-! ## Requests -/

/-- The configuration that a PUT of the body stores, where it is not refused. -/
def putConfig (queue : String) (body : Bytes) : Option QueueConfig :=
  (decodeConfig F ofMillis body).filter fun qc => decide (validateQueue rule qc queue = .ok ())

/-- The texts of the errors in a config write. -/
structure ErrorTexts where
  json : Bytes → String
  formats : Formats

/-- A config write with the given body. -/
def putRequest (texts : ErrorTexts) (queue : String) (body : Bytes) :
    ApiRequest (Option QueueConfig) :=
  match decodeConfig F ofMillis body with
  | none => .putQueueConfig queue (.error (texts.json body)) (.ok ())
  | some qc => .putQueueConfig queue (.ok (some qc))
      ((validateQueue rule qc queue).mapError (FieldError.print texts.formats))

/-- `handleGetQueueConfig`: the answer, with the `config` member of a body. The body is
empty where the encoder fails. -/
def handleGetQueueConfig {δ : Type} (cfg : ApiConfig) (s : ApiState δ (Option QueueConfig))
    (queue : String) : ApiAnswer × Option Cst :=
  if cfg.configStore = false then (⟨503, "config store not configured"⟩, none)
  else if validQueue queue = false then
    (⟨404, "invalid queue name: " ++ cfg.queueErrorText queue⟩, none)
  else
    match s.config queue with
    | none => (⟨404, "queue " ++ queue ++ " is not configured"⟩, none)
    | some qc => (⟨200, ""⟩, (writeConfig F qc).toOption)

variable {F rule}

theorem putConfig_eq_some {queue : String} {body : Bytes} {qc : QueueConfig} :
    putConfig F rule queue body = some qc ↔
      decodeConfig F ofMillis body = some qc ∧ Valid rule qc := by
  rw [putConfig, Option.filter_eq_some_iff, decide_eq_true_iff, validateQueue,
    validateQueueConfig_ok]

/-- A config write stores what `putConfig` says, and is refused where it says nothing. -/
theorem handlePut_putRequest {δ : Type} (cfg : ApiConfig) (s : ApiState δ (Option QueueConfig))
    (i : ApiInput δ (Option QueueConfig)) (texts : ErrorTexts) (queue : String) (body : Bytes)
    (hrequest : i.request = putRequest F rule texts queue body) (hstore : cfg.configStore = true)
    (hname : validQueue queue = true) (hput : i.outcomes.put = .ok ()) :
    (∀ qc, putConfig F rule queue body = some qc → (step cfg s i).2.answer.status = 200 ∧
      (step cfg s i).1.config = Function.update s.config queue (some (some qc))) ∧
    (putConfig F rule queue body = none → (step cfg s i).2.answer.status = 422 ∧
      (step cfg s i).1 = s) := by
  unfold putRequest at hrequest
  unfold putConfig
  cases hdecode : decodeConfig F ofMillis body with
  | none =>
    rw [hdecode] at hrequest
    simp [step, hrequest, handlePutQueueConfig, hstore, hname]
  | some qc =>
    rw [hdecode] at hrequest
    dsimp only at hrequest
    cases hvalid : validateQueue rule qc queue with
    | error e =>
      rw [hvalid] at hrequest
      simp [step, hrequest, handlePutQueueConfig, hstore, hname, Except.mapError, hvalid]
    | ok u =>
      rw [hvalid] at hrequest
      simp [step, hrequest, handlePutQueueConfig, hstore, hname, Except.mapError, hvalid, hput]

/-! ## What the store can hold -/

/-- The configurations that `Load` or a PUT accepts. Those of a document have been through
the YAML decoder, which makes rates and statuses well formed as the JSON one does. -/
inductive Accepted (F : FloatText) (rule : HostRule) : Option QueueConfig → Prop
  | loaded {doc : Config.Document} {c : Loaded} (hload : load rule doc = .ok c) {queue : String}
      {own : Option QueueConfig} (hown : (queue, own) ∈ doc.queues)
      (hparsed : ∀ l v, leafOf own l = some v → LeafParsed l v) : Accepted F rule own
  | put {queue : String} {body : Bytes} {qc : QueueConfig}
      (h : putConfig F rule queue body = some qc) : Accepted F rule (some qc)

theorem Accepted.parsed {qc : Option QueueConfig} (h : Accepted F rule qc) :
    ∀ l v, leafOf qc l = some v → LeafParsed l v := by
  cases h with
  | loaded hload hown hparsed => exact hparsed
  | put h => exact parsed_of_decodeConfig (putConfig_eq_some.mp h).1

/-! ## From GET to PUT -/

/-- What a GET shows for the configuration is accepted by a PUT, and sets the same leaves:
over all defaults the two merge to the same. -/
def RoundTrips (F : FloatText) (rule : HostRule) (queue : String) (qc : Option QueueConfig) :
    Prop :=
  ∃ v qc', writeConfig F qc = .ok v ∧ putConfig F rule queue v.text = some qc' ∧
    (∀ l, qc'.leaf l = leafOf qc l) ∧
    ∀ defaults, mergeQueueConfig defaults (some qc') = mergeQueueConfig defaults qc

/-- So it is over the API: the round trip is that of a GET of the queue and a PUT of what it
shows. -/
theorem roundTrips_iff_get_put {δ : Type} (cfg : ApiConfig) (s : ApiState δ (Option QueueConfig))
    (i : ApiInput δ (Option QueueConfig)) (texts : ErrorTexts) {queue : String}
    {qc : Option QueueConfig} (hstore : cfg.configStore = true) (hname : validQueue queue = true)
    (hqc : s.config queue = some qc) (hput : i.outcomes.put = .ok ())
    (hrequest : ∀ v, (handleGetQueueConfig F cfg s queue).2 = some v →
      i.request = putRequest F rule texts queue v.text) :
    RoundTrips F rule queue qc ↔ ∃ v qc', (handleGetQueueConfig F cfg s queue).2 = some v ∧
      (step cfg s i).2.answer.status = 200 ∧
      (step cfg s i).1.config queue = some (some qc') ∧ (∀ l, qc'.leaf l = leafOf qc l) ∧
      ∀ defaults, mergeQueueConfig defaults (some qc') = mergeQueueConfig defaults qc := by
  have hget : (handleGetQueueConfig F cfg s queue).2 = (writeConfig F qc).toOption := by
    simp [handleGetQueueConfig, hstore, hname, hqc]
  have hshown : ∀ v, (handleGetQueueConfig F cfg s queue).2 = some v ↔
      writeConfig F qc = .ok v := by
    intro v
    rw [hget]
    cases writeConfig F qc <;> simp [Except.toOption]
  unfold RoundTrips
  apply exists_congr
  intro v
  apply exists_congr
  intro qc'
  rw [hshown]
  refine and_congr_right fun hwrite => ?_
  obtain ⟨hsome, hnone⟩ := handlePut_putRequest cfg s i texts queue v.text
    (hrequest v ((hshown v).mpr hwrite)) hstore hname hput
  rw [← and_assoc (b := _ = some (some qc'))]
  refine and_congr_left fun _ => ?_
  cases hconfig : putConfig F rule queue v.text with
  | none =>
    rw [(hnone hconfig).1]
    simp
  | some stored =>
    obtain ⟨hstatus, hstate⟩ := hsome stored hconfig
    rw [hstatus, hstate, Function.update_self]
    simp

/-- A valid effective configuration leaves nothing to check of the queue's own, except
what its callback block lacks. -/
theorem valid_of_merge {defaults : Option QueueConfig} {qc : QueueConfig}
    (h : Valid rule (mergeQueueConfig defaults (some qc)))
    (hcallback : ∀ c ∈ qc.callback, CallbackOk rule c) : Valid rule qc := by
  have hleaf : ∀ {l : Leaf} {v : l.Value}, qc.leaf l = some v →
      (mergeQueueConfig defaults (some qc)).leaf l = some v := by
    intro l v hv
    rw [leaf_mergeQueueConfig, leafOf_some, hv, Option.some_or]
  exact
    { leaf := fun l v hv => h.leaf l v (hleaf hv)
      handlerTimeout_le := fun t lease ht hl => h.handlerTimeout_le t lease (hleaf ht) (hleaf hl)
      timeout_le := fun t bound ht hb => h.timeout_le t bound (hleaf ht) (hleaf hb)
      callback := hcallback }

theorem Accepted.valid {qc : QueueConfig} (h : Accepted F rule (some qc))
    (hcallback : ∀ c ∈ qc.callback, CallbackOk rule c) : Valid rule qc := by
  cases h with
  | loaded hload hown hparsed =>
    obtain ⟨-, -, hqueues⟩ := load_ok hload
    obtain ⟨x, hx⟩ := mapM_ok_of_mem hqueues hown
    obtain ⟨-, rfl, hvalid⟩ := resolveQueue_ok hx
    exact valid_of_merge hvalid hcallback
  | put h => exact (putConfig_eq_some.mp h).2

/-- The round trip changes an accepted configuration as `sentConfig` says. -/
theorem roundTrips_some {queue : String} {qc : QueueConfig}
    (hparsed : ∀ l v, qc.leaf l = some v → LeafParsed l v) :
    RoundTrips F rule queue (some qc) ↔ Kept qc ∧ Valid rule qc := by
  constructor
  · rintro ⟨v, qc', hwrite, hput, hleaf, -⟩
    have hfinite := finite_of_writeConfig hwrite
    obtain ⟨v', hwrite', hdecode⟩ := decode_writeConfig (F := F) fun l x hx =>
      ⟨hparsed l x hx, hfinite l x hx⟩
    obtain rfl := Except.ok.inj (hwrite.symm.trans hwrite')
    obtain ⟨hdecode', hvalid⟩ := putConfig_eq_some.mp hput
    obtain rfl := Option.some.inj (hdecode.symm.trans hdecode')
    have hkept := kept_of_leaf_eq hfinite hleaf
    rw [sentConfig_eq_self hkept] at hvalid
    exact ⟨hkept, hvalid⟩
  · rintro ⟨hkept, hvalid⟩
    obtain ⟨v, hwrite, hdecode⟩ := decode_writeConfig (F := F) fun l x hx =>
      ⟨hparsed l x hx, ((kept_iff F l x).mp (hkept l x hx)).1⟩
    rw [sentConfig_eq_self hkept] at hdecode
    exact ⟨v, qc, hwrite, putConfig_eq_some.mpr ⟨hdecode, hvalid⟩, fun _ => rfl, fun _ => rfl⟩

/-- An accepted configuration survives a GET and a PUT exactly when its durations are whole
milliseconds, its numbers are finite, none of its lists is set and empty, and its callback
block has a URL and a secret of its own. -/
theorem admin_round_trip_iff (F : FloatText) (rule : HostRule) (queue : String)
    (qc : Option QueueConfig) (h : Accepted F rule qc) :
    RoundTrips F rule queue qc ↔ (∀ l v, leafOf qc l = some v → LeafKept l v) ∧
      ∀ c, (qc.bind QueueConfig.callback) = some c → CallbackOk rule c := by
  cases qc with
  | none =>
    refine iff_of_true ?_ ⟨fun l v hv => ?_, fun c hc => by cases hc⟩
    · refine ⟨.null, {}, rfl, putConfig_eq_some.mpr ⟨?_, ?_⟩, fun _ => rfl, fun _ => rfl⟩
      · rw [decodeConfig, firstValue_text]
        rfl
      · exact validateQueueConfig_ok.mp (show validateQueueConfig rule {} queue = .ok () from rfl)
    · rw [unset_none l] at hv
      cases hv
  | some qc =>
    have hiff : RoundTrips F rule queue (some qc) ↔ Kept qc ∧ Valid rule qc :=
      roundTrips_some h.parsed
    rw [hiff]
    exact ⟨fun hqc => ⟨hqc.1, hqc.2.callback⟩, fun hqc => ⟨hqc.1, h.valid hqc.2⟩⟩

/-- One exact way to print numbers: by their index among the rationals. -/
def indexText : FloatText where
  print := fun x => .ofInt (Encodable.encode x)
  parse := fun n => n.int?.bind fun i => Encodable.decode i.toNat
  exact := by
    intro x
    simp

def leaseBody : Bytes := "\x7b\"execution\":\x7b\"lease\":30000\x7d\x7d".toList.map ascii

def leaseConfig : QueueConfig := { execution := some { lease := some 30000000000 } }

theorem put_leaseBody : putConfig indexText anyHost "q" leaseBody = some leaseConfig := by
  decide +kernel

theorem admin_round_trip_lease : Accepted indexText anyHost (some leaseConfig) ∧
    RoundTrips indexText anyHost "q" (some leaseConfig) := by
  refine ⟨.put put_leaseBody, (admin_round_trip_iff indexText anyHost "q" (some leaseConfig)
    (.put put_leaseBody)).mpr ⟨fun l v hv => ?_, fun c hc => by cases hc⟩⟩
  cases l with
  | lease =>
    cases hv
    exact (by decide : (30000000000 : Int64) % millisecond = 0)
  | _ => cases hv

def emptyListBody : Bytes :=
  "\x7b\"classification\":\x7b\"retryable\":[]\x7d\x7d".toList.map ascii

def emptyListConfig : QueueConfig := { classification := some { retryable := some [] } }

/-- An empty list of retryable errors, which overrides the defaults, is left out. -/
theorem empty_list_left_out :
    putConfig indexText anyHost "q" emptyListBody = some emptyListConfig ∧
      ¬ RoundTrips indexText anyHost "q" (some emptyListConfig) := by
  have hput : putConfig indexText anyHost "q" emptyListBody = some emptyListConfig := by
    decide +kernel
  refine ⟨hput, fun h => ?_⟩
  have hkept := ((roundTrips_some (Accepted.put hput).parsed).mp h).1
  exact hkept .retryable [] rfl rfl

/-! ## Exact durations -/

/-- The two demands on an integer that is read as a duration: it is exact where it is
accepted, and printed as it was, and it is refused where the product does not fit. -/
def ReadExactly (n : Number) (ms : Int) : Prop :=
  ∀ old, (∀ d, (durationReader ofMillis).read (.num n) old = some d →
      d.toInt = ms * 1000000 ∧ writeDuration d = (.ok (.num (.ofInt ms)) : Except WriteError Cst)) ∧
    (¬ Fits (ms * 1000000) → (durationReader ofMillis).read (.num n) old = none)

theorem readExactly_iff {n : Number} {ms : Int} (hn : n.int? = some ms) :
    ReadExactly n ms ↔ (Fits ms → Fits (ms * 1000000)) := by
  unfold ReadExactly
  simp only [read_duration hn]
  by_cases hms : Fits ms
  · have htoInt : (Int64.ofInt ms).toInt = ms :=
      Int64.toInt_ofInt_of_le hms.1 (Int.lt_of_le_of_lt hms.2 (by decide))
    simp only [if_pos hms]
    constructor
    · intro h _
      obtain ⟨hexact, -⟩ := (h 0).1 _ rfl
      rw [← hexact]
      exact fits_toInt _
    · intro h old
      have hfits : Fits ((Int64.ofInt ms).toInt * 1000000) := by
        rw [htoInt]
        exact h hms
      refine ⟨?_, fun hno => absurd (h hms) hno⟩
      rintro d hd
      cases hd
      refine ⟨?_, ?_⟩
      · rw [(toInt_ofMillis_iff _).mpr hfits, htoInt]
      · rw [writeDuration, ofMillis_div hfits, htoInt]
  · simp only [if_neg hms]
    exact iff_of_true (fun _ => ⟨fun d hd => (by cases hd), fun _ => trivial⟩) fun h => absurd h hms

/-- The durations of a body that is read are exact when each product fits. -/
theorem durations_eq_iff (written : QueueConfig) :
    (∀ l, ((scaleConfig written).duration l).map Int64.toInt =
        (written.duration l).map fun ms => ms.toInt * 1000000) ↔
      ∀ l ms, written.duration l = some ms → Fits (ms.toInt * 1000000) := by
  apply forall_congr'
  intro l
  rw [duration_scaleConfig]
  cases written.duration l with
  | none => simp
  | some ms => simp [toInt_ofMillis_iff]

/-- A duration is read exactly when its product fits or it is refused for being no integer
of 64 bits. A configuration that a PUT accepts has the durations that were written exactly
when all their products fit. -/
theorem durations_exact_iff (F : FloatText) (rule : HostRule) (queue : String) (n : Number)
    (body : Bytes) :
    (∀ ms, n.int? = some ms → (ReadExactly n ms ↔ (Fits ms → Fits (ms * 1000000)))) ∧
    ∀ qc, putConfig F rule queue body = some qc →
      ∃ written, decodeConfig F id body = some written ∧
        ((∀ l, (qc.duration l).map Int64.toInt =
            (written.duration l).map fun ms => ms.toInt * 1000000) ↔
          ∀ l ms, written.duration l = some ms → Fits (ms.toInt * 1000000)) := by
  refine ⟨fun ms hms => readExactly_iff hms, fun qc hput => ?_⟩
  have hdecode := (putConfig_eq_some.mp hput).1
  rw [decodeConfig_ofMillis] at hdecode
  obtain ⟨written, hwritten, rfl⟩ := Option.map_eq_some_iff.mp hdecode
  exact ⟨written, hwritten, durations_eq_iff written⟩

def wrappedLeaseBody : Bytes :=
  "\x7b\"execution\":\x7b\"lease\":18446744073710\x7d\x7d".toList.map ascii

/-- A lease of 585 years becomes one of less than half a millisecond. -/
theorem lease_wraps_around :
    decodeConfig indexText id wrappedLeaseBody =
        some { execution := some { lease := some 18446744073710 } } ∧
      putConfig indexText anyHost "q" wrappedLeaseBody =
        some { execution := some { lease := some 448384 } } := by
  decide +kernel

end Rdq.Server.AdminConfig
