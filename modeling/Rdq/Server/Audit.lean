import Rdq.Foundation.Trace
import Rdq.Server.DlqMutate
import Rdq.Server.Router

/-!
# The audit trail

The requests of the API that change dead letters, pause states and queue configs, with
the audit records they emit: `handleDLQMutate` of `server/http/dlq.go`,
`handleAdminQueueAction` of `ops.go`, `handlePutQueueConfig` and `handleDeleteQueue` of
`admin.go`, and the records of `core/audit/audit.go`.

## Implementation notes

How the calls of the two stores end is part of the input, so a list of inputs is a
sequence of requests with any outcomes. A successful call changes its queue alone, and a
failed one changes nothing. What a queue's dead letters and configs are is left open. A
submitted task touches neither. The sink's own errors do not reach the handlers.
-/

namespace Rdq.Server.Audit

open Rdq.Foundation Rdq.Foundation.ServeMux Rdq.Foundation.GoJson

/-! ## Records -/

/-- `audit.Action`. -/
inductive Kind
  | redrive
  | purge
  | pause
  | resume
  | configWrite
deriving DecidableEq, Repr

inductive Verdict
  | success
  | failure
deriving DecidableEq, Repr

/-- `audit.Record`. -/
structure AuditRecord where
  timestamp : Time
  principal : String
  action : Kind
  queue : String
  selector : String := ""
  count : Int := -1
  outcome : Verdict
  errorMessage : String := ""
deriving DecidableEq, Repr

/-- `selectorDescription`. -/
def selectorDescription (req : SelectorRequest) : String :=
  if req.ids.elems ≠ [] then
    if req.ids.elems.length ≤ 3 then "ids:[" ++ ",".intercalate req.ids.elems ++ "]"
    else "ids:" ++ toString req.ids.elems.length
  else
    match req.filter with
    | some f =>
      let parts := (if f.errorType ≠ "" then ["error_type:" ++ f.errorType] else []) ++
        (if f.handlerRef ≠ "" then ["handler_ref:" ++ f.handlerRef] else [])
      if parts ≠ [] then "filter:\x7b" ++ ",".intercalate parts ++ "\x7d" else "filter:\x7b\x7d"
    | none => "all"

/-- `principalName`. -/
def principalName (principal : Option Principal) : String :=
  match principal with
  | some p => p.name
  | none => "anonymous"

/-! ## The state and the inputs -/

/-- What the audited requests change: the dead letters of each queue in the storage, its
config and pause flag in the config store, and the pause flags kept by the process. -/
structure ApiState (δ κ : Type) where
  dlq : String → δ
  config : String → Option κ
  storedPause : String → Bool
  localPause : String → Bool

/-- Which stores a server has, and what it takes from the libraries. -/
structure ApiConfig where
  storage : Bool
  configStore : Bool
  /-- `storage.Capabilities().FilterPushdown`. -/
  filterPushdown : Bool
  rt : Runtime
  /-- The text of `envelope.ValidateQueue`'s error. -/
  queueErrorText : String → String

/-- `Server.IsPaused`. -/
def isPaused {δ κ : Type} (cfg : ApiConfig) (s : ApiState δ κ) (queue : String) : Bool :=
  if cfg.configStore then s.storedPause queue else s.localPause queue

/-- The errors of `Store.Delete`: the queue is not configured, or another text. -/
inductive DeleteError
  | notFound
  | other (text : String)
deriving DecidableEq, Repr

/-- The errors of `Enqueue`: the id is taken in another queue, or another text. -/
inductive EnqueueError
  | idConflict
  | other (text : String)
deriving DecidableEq, Repr

structure QueueStats where
  pending : Nat
  inFlight : Nat
  dlqDepth : Nat
deriving DecidableEq, Repr

/-- How the store calls of a request end, with the text of an error. -/
structure StoreOutcomes (δ : Type) where
  enqueue : Except EnqueueError Unit
  get : Except String Unit
  /-- The pages of `DLQList`. -/
  scan : Except String (List String)
  /-- `Redrive` or `Purge`: the count and the dead letters left in the queue. -/
  mutate : Except String (Nat × δ)
  setPaused : Except String Unit
  put : Except String Unit
  stats : Except String QueueStats
  delete : Except DeleteError Unit

/-- The status of an answer, with the detail of a problem. -/
structure ApiAnswer where
  status : Nat
  detail : String := ""
deriving DecidableEq, Repr

/-- The requests. A submitted task is built or is a problem; the body of a config write
is what its decoding and its validation make of it. -/
inductive ApiRequest (κ : Type)
  | submit (built : Except ApiAnswer Unit)
  | dlqMutate (action : Action) (queue : String) (body : Option Json)
  | queueAction (method : Method) (path : List Char)
  | putQueueConfig (queue : String) (decoded : Except String κ) (valid : Except String Unit)
  | deleteQueue (queue : String)

structure ApiInput (δ κ : Type) where
  principal : Option Principal
  request : ApiRequest κ
  outcomes : StoreOutcomes δ
  now : Time

/-- What a request leaves behind: its answer, its audit records, and the errors its store
calls returned. -/
structure Handled where
  answer : ApiAnswer
  records : List AuditRecord := []
  storeErrors : List String := []
deriving DecidableEq, Repr

/-! ## Handlers -/

section Handlers
variable {δ κ : Type} (cfg : ApiConfig) (s : ApiState δ κ)

/-- `handleSubmitTask` with `enqueueAndGet`. -/
def handleSubmitTask (i : ApiInput δ κ) (built : Except ApiAnswer Unit) : ApiState δ κ × Handled :=
  if cfg.storage = false then (s, { answer := ⟨503, "storage not configured"⟩ })
  else
    match built with
    | .error problem => (s, { answer := problem })
    | .ok _ =>
      match i.outcomes.enqueue with
      | .error .idConflict =>
        (s, { answer := ⟨409, "task id already exists in a different queue"⟩
              storeErrors := ["spi: id exists in a different queue"] })
      | .error (.other err) =>
        (s, { answer := ⟨500, "enqueue: " ++ err⟩, storeErrors := [err] })
      | .ok _ =>
        match i.outcomes.get with
        | .error err =>
          (s, { answer := ⟨500, "get after enqueue: " ++ err⟩, storeErrors := [err] })
        | .ok _ => (s, { answer := ⟨202, ""⟩ })

/-- The action of a DLQ request. -/
def kindOf : Action → Kind
  | .redrive => .redrive
  | .purge => .purge

/-- The scan of the listing, which only a filter without `FilterPushdown` needs. -/
def filterScan (i : ApiInput δ κ) (req : SelectorRequest) : Except String (List String) :=
  if req.filter ≠ none ∧ cfg.filterPushdown = false then i.outcomes.scan else .ok []

/-- `handleDLQMutate`. -/
def handleDLQMutate (i : ApiInput δ κ) (action : Action) (queue : String) (body : Option Json) :
    ApiState δ κ × Handled :=
  if cfg.storage = false then (s, { answer := ⟨503, "storage not configured"⟩ })
  else
    match cfg.rt.readSelector body with
    | .error e => (s, { answer := ⟨422, "invalid JSON: " ++ cfg.rt.decodeErrorText e⟩ })
    | .ok req =>
      if req.ids.elems ≠ [] ∧ req.filter ≠ none then
        (s, { answer := ⟨422, "supply ids or filter, not both"⟩ })
      else
        let record : AuditRecord :=
          { timestamp := i.now
            principal := principalName i.principal
            action := kindOf action
            queue := queue
            selector := selectorDescription req
            outcome := .success }
        let failure (err : String) : AuditRecord :=
          { record with outcome := .failure, errorMessage := err }
        match filterScan cfg i req with
        | .error err =>
          (s, { answer := ⟨500, "dlq scan: " ++ err⟩
                records := [failure err]
                storeErrors := [err] })
        | .ok _ =>
          match i.outcomes.mutate with
          | .error err =>
            (s, { answer := ⟨500, "storage: " ++ err⟩
                  records := [failure err]
                  storeErrors := [err] })
          | .ok (n, letters) =>
            ({ s with dlq := Function.update s.dlq queue letters },
              { answer := ⟨200, ""⟩, records := [{ record with count := n }] })

/-- The queue and the action in the path of `handleAdminQueueAction`. -/
def actionOf (path : List Char) : Option (List Char × Kind) :=
  let rest := if "/admin/queues/".toList.isPrefixOf path then path.drop 14 else path
  match cutSuffix rest ":pause".toList with
  | some queue => some (queue, .pause)
  | none =>
    match cutSuffix rest ":resume".toList with
    | some queue => some (queue, .resume)
    | none => none

/-- `handleAdminQueueAction`. The error of `SetPaused` is dropped. -/
def handleAdminQueueAction (i : ApiInput δ κ) (method : Method) (path : List Char) :
    ApiState δ κ × Handled :=
  match actionOf path with
  | none => (s, { answer := ⟨404, "no route matches " ++ String.ofList path⟩ })
  | some (name, action) =>
    if name = [] ∨ '/' ∈ name then (s, { answer := ⟨404, "invalid queue name in path"⟩ })
    else if method ≠ .post then
      (s, { answer := ⟨405, "only POST is allowed on this path"⟩ })
    else
      let queue := String.ofList name
      let paused := decide (action = .pause)
      let record : AuditRecord :=
        { timestamp := i.now
          principal := principalName i.principal
          action := action
          queue := queue
          outcome := .success }
      let s' := { s with localPause := Function.update s.localPause queue paused }
      if cfg.configStore then
        match i.outcomes.setPaused with
        | .ok _ =>
          ({ s' with storedPause := Function.update s.storedPause queue paused },
            { answer := ⟨204, ""⟩, records := [record] })
        | .error err => (s', { answer := ⟨204, ""⟩, records := [record], storeErrors := [err] })
      else (s', { answer := ⟨204, ""⟩, records := [record] })

/-- `handlePutQueueConfig`. -/
def handlePutQueueConfig (i : ApiInput δ κ) (queue : String) (decoded : Except String κ)
    (valid : Except String Unit) : ApiState δ κ × Handled :=
  if cfg.configStore = false then (s, { answer := ⟨503, "config store not configured"⟩ })
  else if validQueue queue = false then
    (s, { answer := ⟨404, "invalid queue name: " ++ cfg.queueErrorText queue⟩ })
  else
    match decoded with
    | .error err => (s, { answer := ⟨422, "invalid config JSON: " ++ err⟩ })
    | .ok config =>
      match valid with
      | .error err => (s, { answer := ⟨422, err⟩ })
      | .ok _ =>
        let record : AuditRecord :=
          { timestamp := i.now
            principal := principalName i.principal
            action := .configWrite
            queue := queue
            outcome := .success }
        match i.outcomes.put with
        | .error err =>
          (s, { answer := ⟨500, "config store: " ++ err⟩
                records := [{ record with outcome := .failure, errorMessage := err }]
                storeErrors := [err] })
        | .ok _ =>
          ({ s with config := Function.update s.config queue (some config) },
            { answer := ⟨200, ""⟩, records := [record] })

/-- The guard of `handleDeleteQueue`: without tasks, or without a storage to ask. -/
def deleteGuard (i : ApiInput δ κ) (queue : String) : Except Handled Unit :=
  if cfg.storage = false then .ok ()
  else
    match i.outcomes.stats with
    | .error err => .error { answer := ⟨500, "storage: " ++ err⟩, storeErrors := [err] }
    | .ok stats =>
      if 0 < stats.pending ∨ 0 < stats.inFlight ∨ 0 < stats.dlqDepth then
        .error { answer := ⟨409,
          "queue " ++ queue ++ " is not empty (pending/in-flight/dlq tasks exist)"⟩ }
      else .ok ()

/-- `handleDeleteQueue`, which emits no record. `Delete` also clears the pause flag. -/
def handleDeleteQueue (i : ApiInput δ κ) (queue : String) : ApiState δ κ × Handled :=
  if cfg.configStore = false then (s, { answer := ⟨503, "config store not configured"⟩ })
  else if validQueue queue = false then
    (s, { answer := ⟨404, "invalid queue name: " ++ cfg.queueErrorText queue⟩ })
  else
    match deleteGuard cfg i queue with
    | .error handled => (s, handled)
    | .ok _ =>
      match i.outcomes.delete with
      | .error .notFound =>
        (s, { answer := ⟨404, "queue " ++ queue ++ " is not configured"⟩
              storeErrors := ["serverconfig: queue not found"] })
      | .error (.other err) =>
        (s, { answer := ⟨500, "config store: " ++ err⟩, storeErrors := [err] })
      | .ok _ =>
        ({ s with
            config := Function.update s.config queue none
            storedPause := Function.update s.storedPause queue false },
          { answer := ⟨204, ""⟩ })

/-- Serve one request. -/
def step (s : ApiState δ κ) (i : ApiInput δ κ) : ApiState δ κ × Handled :=
  match i.request with
  | .submit built => handleSubmitTask cfg s i built
  | .dlqMutate action queue body => handleDLQMutate cfg s i action queue body
  | .queueAction method path => handleAdminQueueAction cfg s i method path
  | .putQueueConfig queue decoded valid => handlePutQueueConfig cfg s i queue decoded valid
  | .deleteQueue queue => handleDeleteQueue cfg s i queue

end Handlers

/-! ## What the trail promises -/

section Trail
variable {δ κ : Type} (cfg : ApiConfig)

/-- A request changed the dead letters, the pause state or the config of a queue. -/
def Changed (s s' : ApiState δ κ) (queue : String) : Prop :=
  s'.dlq queue ≠ s.dlq queue ∨ isPaused cfg s' queue ≠ isPaused cfg s queue ∨
    s'.config queue ≠ s.config queue

/-- A change has one success record, with its queue and its principal, and a failed store
call has none. -/
def Audited (e : Entry (ApiState δ κ) (ApiInput δ κ) Handled) : Prop :=
  (∀ queue, Changed cfg e.pre e.post queue →
    ∃ r, (e.output.records.filter fun r => r.outcome = .success) = [r] ∧ r.queue = queue ∧
      r.principal = principalName e.input.principal) ∧
  (e.output.storeErrors ≠ [] → ∀ r ∈ e.output.records, r.outcome ≠ .success)

/-- A pause or resume reaches the config store's `SetPaused`. -/
def SetsPaused (method : Method) (path : List Char) : Prop :=
  cfg.configStore = true ∧ method = .post ∧
    ∃ name action, actionOf path = some (name, action) ∧ name ≠ [] ∧ '/' ∉ name

/-- A deletion reaches the config store's `Delete`. -/
def Deletes (i : ApiInput δ κ) (queue : String) : Prop :=
  cfg.configStore = true ∧ validQueue queue = true ∧ deleteGuard cfg i queue = .ok ()

/-- The requests that are audited: no `SetPaused` fails, and no deletion finds a config
or a pause flag to remove. -/
def Reported (s : ApiState δ κ) (i : ApiInput δ κ) : Prop :=
  match i.request with
  | .queueAction method path => SetsPaused cfg method path → ∃ u, i.outcomes.setPaused = .ok u
  | .deleteQueue queue => Deletes cfg i queue → i.outcomes.delete = .ok () →
      s.config queue = none ∧ s.storedPause queue = false
  | _ => True

/-! ## What a request can do -/

/-- A request that changes nothing and records no success. -/
structure Silent (s : ApiState δ κ) (out : ApiState δ κ × Handled) : Prop where
  same : out.1 = s
  failures : ∀ r ∈ out.2.records, r.outcome ≠ .success

/-- A request that changes one queue and records it. -/
structure Reports (s : ApiState δ κ) (i : ApiInput δ κ) (out : ApiState δ κ × Handled)
    (queue : String) : Prop where
  elsewhere : ∀ q, q ≠ queue → ¬ Changed cfg s out.1 q
  record : ∃ r, out.2.records = [r] ∧ r.outcome = .success ∧ r.queue = queue ∧
    r.principal = principalName i.principal
  stored : out.2.storeErrors = []

variable {cfg}

theorem not_changed_self (s : ApiState δ κ) (queue : String) : ¬ Changed cfg s s queue := by
  rintro (h | h | h)
  · exact h rfl
  · exact h rfl
  · exact h rfl

theorem Silent.audited {s : ApiState δ κ} {i : ApiInput δ κ}
    (h : Silent s (step cfg s i)) : Audited cfg (entry (step cfg) s i) := by
  refine ⟨fun queue hchanged => ?_, fun _ => h.failures⟩
  rw [entry, h.same] at hchanged
  exact absurd hchanged (not_changed_self s queue)

theorem Reports.audited {s : ApiState δ κ} {i : ApiInput δ κ} {queue : String}
    (h : Reports cfg s i (step cfg s i) queue) : Audited cfg (entry (step cfg) s i) := by
  obtain ⟨r, hrecords, hsuccess, hqueue, hprincipal⟩ := h.record
  constructor
  · intro q hchanged
    obtain rfl : q = queue := by
      by_contra hq
      exact h.elsewhere q hq hchanged
    refine ⟨r, ?_, hqueue, hprincipal⟩
    simp only [entry, hrecords]
    simp [hsuccess]
  · intro herrors
    exact absurd h.stored herrors

variable (cfg)

theorem handleSubmitTask_silent (s : ApiState δ κ) (i : ApiInput δ κ)
    (built : Except ApiAnswer Unit) : Silent s (handleSubmitTask cfg s i built) := by
  unfold handleSubmitTask
  split_ifs
  · exact ⟨rfl, by simp⟩
  · split
    · exact ⟨rfl, by simp⟩
    · split
      · exact ⟨rfl, by simp⟩
      · exact ⟨rfl, by simp⟩
      · split <;> exact ⟨rfl, by simp⟩

/-- Other queues keep what they have when one is updated. -/
theorem not_changed_of_update {s s' : ApiState δ κ} {queue q : String} (hq : q ≠ queue)
    (hdlq : ∃ x, s'.dlq = Function.update s.dlq queue x)
    (hconfig : ∃ x, s'.config = Function.update s.config queue x)
    (hstored : ∃ x, s'.storedPause = Function.update s.storedPause queue x)
    (hlocal : ∃ x, s'.localPause = Function.update s.localPause queue x) :
    ¬ Changed cfg s s' q := by
  obtain ⟨x, hdlq⟩ := hdlq
  obtain ⟨y, hconfig⟩ := hconfig
  obtain ⟨z, hstored⟩ := hstored
  obtain ⟨u, hlocal⟩ := hlocal
  simp [Changed, isPaused, hdlq, hconfig, hstored, hlocal, Function.update_of_ne hq]

/-- A DLQ request changes nothing, or reports its change. -/
theorem handleDLQMutate_cases (s : ApiState δ κ) (i : ApiInput δ κ) (action : Action)
    (queue : String) (body : Option Json) :
    Silent s (handleDLQMutate cfg s i action queue body) ∨
      Reports cfg s i (handleDLQMutate cfg s i action queue body) queue := by
  unfold handleDLQMutate
  split_ifs
  · exact Or.inl ⟨rfl, by simp⟩
  split
  · exact Or.inl ⟨rfl, by simp⟩
  split_ifs
  · exact Or.inl ⟨rfl, by simp⟩
  dsimp only
  split
  · exact Or.inl ⟨rfl, by simp⟩
  · split
    · exact Or.inl ⟨rfl, by simp⟩
    · refine Or.inr ⟨fun q hq => ?_, ⟨_, rfl, rfl, rfl, rfl⟩, rfl⟩
      exact not_changed_of_update cfg hq ⟨_, rfl⟩ ⟨_, (Function.update_eq_self _ _).symm⟩
        ⟨_, (Function.update_eq_self _ _).symm⟩ ⟨_, (Function.update_eq_self _ _).symm⟩

/-- On the outcomes of a backend the handler answers as `Server.handleDLQMutate` does
without the records. -/
theorem status_handleDLQMutate (s : ApiState δ κ) (i : ApiInput δ κ) (b : Backend)
    (action : Action) (queue : String) (body : Option Json) (hstorage : cfg.storage = true)
    (hscan : ∃ ids, i.outcomes.scan = .ok ids)
    (hperform : ∀ req, cfg.rt.readSelector body = .ok req → ∃ letters, i.outcomes.mutate =
      ((b.perform action queue (b.selector queue req) i.now).2.mapError
        cfg.rt.storageErrorText).map fun n => (n, letters)) :
    (handleDLQMutate cfg s i action queue body).2.answer.status =
      (Server.handleDLQMutate cfg.rt (some b) action queue body i.now).2.status := by
  unfold handleDLQMutate Server.handleDLQMutate
  rw [if_neg (by simp [hstorage])]
  cases hreq : cfg.rt.readSelector body with
  | error e => rfl
  | ok req =>
    obtain ⟨ids, hscan⟩ := hscan
    obtain ⟨letters, hmutate⟩ := hperform req hreq
    have hfilter : ∃ ids, filterScan cfg i req = .ok ids := by
      unfold filterScan
      split_ifs
      · exact ⟨ids, hscan⟩
      · exact ⟨[], rfl⟩
    obtain ⟨ids, hfilter⟩ := hfilter
    dsimp only
    split_ifs
    · rfl
    · rw [hfilter, hmutate]
      obtain ⟨b', result⟩ := b.perform action queue (b.selector queue req) i.now
      cases result <;> rfl

/-- A config write changes nothing or reports its change. -/
theorem handlePutQueueConfig_cases (s : ApiState δ κ) (i : ApiInput δ κ) (queue : String)
    (decoded : Except String κ) (valid : Except String Unit) :
    Silent s (handlePutQueueConfig cfg s i queue decoded valid) ∨
      Reports cfg s i (handlePutQueueConfig cfg s i queue decoded valid) queue := by
  unfold handlePutQueueConfig
  split_ifs
  · exact Or.inl ⟨rfl, by simp⟩
  · exact Or.inl ⟨rfl, by simp⟩
  split
  · exact Or.inl ⟨rfl, by simp⟩
  split
  · exact Or.inl ⟨rfl, by simp⟩
  dsimp only
  split
  · exact Or.inl ⟨rfl, by simp⟩
  · refine Or.inr ⟨fun q hq => ?_, ⟨_, rfl, rfl, rfl, rfl⟩, rfl⟩
    exact not_changed_of_update cfg hq ⟨_, (Function.update_eq_self _ _).symm⟩ ⟨_, rfl⟩
      ⟨_, (Function.update_eq_self _ _).symm⟩ ⟨_, (Function.update_eq_self _ _).symm⟩

/-- A pause or resume changes nothing, reports its change, or reports success after
`SetPaused` has failed. -/
theorem handleAdminQueueAction_cases (s : ApiState δ κ) (i : ApiInput δ κ) (method : Method)
    (path : List Char) :
    (¬ SetsPaused cfg method path ∨ ∃ u, i.outcomes.setPaused = .ok u) ∧
      (Silent s (handleAdminQueueAction cfg s i method path) ∨
        ∃ queue, Reports cfg s i (handleAdminQueueAction cfg s i method path) queue) ∨
    SetsPaused cfg method path ∧ (∃ err, i.outcomes.setPaused = .error err) ∧
      ∃ r, r ∈ (handleAdminQueueAction cfg s i method path).2.records ∧ r.outcome = .success ∧
        (handleAdminQueueAction cfg s i method path).2.storeErrors ≠ [] := by
  unfold handleAdminQueueAction
  cases haction : actionOf path with
  | none =>
    refine Or.inl ⟨Or.inl ?_, Or.inl ⟨rfl, by simp⟩⟩
    rintro ⟨-, -, name, action, h, -⟩
    rw [haction] at h
    cases h
  | some x =>
    obtain ⟨name, action⟩ := x
    have hname {name' : List Char} {action' : Kind}
        (h : actionOf path = some (name', action')) : name = name' := by
      rw [haction] at h
      exact (Prod.mk.inj (Option.some.inj h)).1
    dsimp only
    split_ifs with hbad hmethod hstore
    · refine Or.inl ⟨Or.inl ?_, Or.inl ⟨rfl, by simp⟩⟩
      rintro ⟨-, -, name', action', h, hne, hslash⟩
      obtain rfl := hname h
      exact hbad.elim hne hslash
    · refine Or.inl ⟨Or.inl ?_, Or.inl ⟨rfl, by simp⟩⟩
      rintro ⟨-, hpost, -⟩
      exact hmethod hpost
    · have hsets : SetsPaused cfg method path :=
        ⟨hstore, not_not.mp hmethod, name, action, haction, fun h => hbad (Or.inl h),
          fun h => hbad (Or.inr h)⟩
      cases hset : i.outcomes.setPaused with
      | ok u =>
        refine Or.inl ⟨Or.inr ⟨u, rfl⟩, Or.inr ⟨String.ofList name, fun q hq => ?_,
          ⟨_, rfl, rfl, rfl, rfl⟩, rfl⟩⟩
        exact not_changed_of_update cfg hq ⟨_, (Function.update_eq_self _ _).symm⟩
          ⟨_, (Function.update_eq_self _ _).symm⟩ ⟨_, rfl⟩ ⟨_, rfl⟩
      | error err =>
        exact Or.inr ⟨hsets, ⟨err, rfl⟩, _, List.mem_singleton_self _, rfl, by simp⟩
    · refine Or.inl ⟨Or.inl fun h => hstore h.1, Or.inr ⟨String.ofList name, fun q hq => ?_,
        ⟨_, rfl, rfl, rfl, rfl⟩, rfl⟩⟩
      exact not_changed_of_update cfg hq ⟨_, (Function.update_eq_self _ _).symm⟩
        ⟨_, (Function.update_eq_self _ _).symm⟩ ⟨_, (Function.update_eq_self _ _).symm⟩ ⟨_, rfl⟩

theorem fst_actionOf (path : List Char) : (actionOf path).map Prod.fst =
    let rest := if "/admin/queues/".toList.isPrefixOf path then path.drop 14 else path
    (cutSuffix rest ":pause".toList).or (cutSuffix rest ":resume".toList) := by
  unfold actionOf
  dsimp only
  generalize (if "/admin/queues/".toList.isPrefixOf path then path.drop 14 else path) = rest
  cases cutSuffix rest ":pause".toList with
  | some queue => rfl
  | none =>
    cases cutSuffix rest ":resume".toList with
    | some queue => rfl
    | none => rfl

/-- A pause or resume is answered as its route answers, which accesses the queue that the
record names. -/
theorem answer_handleAdminQueueAction (s : ApiState δ κ) (i : ApiInput δ κ) (method : Method)
    (path : List Char) :
    ApiServer.handleAdminQueueAction method path =
      ⟨(handleAdminQueueAction cfg s i method path).2.answer.status,
        (handleAdminQueueAction cfg s i method path).2.records.head?.map (.queue ·.queue)⟩ := by
  unfold ApiServer.handleAdminQueueAction handleAdminQueueAction
  dsimp only
  rw [← fst_actionOf path]
  cases actionOf path with
  | none => rfl
  | some x =>
    dsimp only [Option.map_some]
    split_ifs
    · rfl
    · rfl
    · cases i.outcomes.setPaused <;> rfl
    · rfl

theorem records_of_deleteGuard {i : ApiInput δ κ} {queue : String} {handled : Handled}
    (h : deleteGuard cfg i queue = .error handled) : handled.records = [] := by
  unfold deleteGuard at h
  split_ifs at h
  split at h
  · cases h
    rfl
  · split_ifs at h
    cases h
    rfl

/-- A deletion changes nothing, or removes config and pause flag without a record. -/
theorem handleDeleteQueue_cases (s : ApiState δ κ) (i : ApiInput δ κ) (queue : String) :
    ¬ (Deletes cfg i queue ∧ i.outcomes.delete = .ok ()) ∧
      Silent s (handleDeleteQueue cfg s i queue) ∨
    Deletes cfg i queue ∧ i.outcomes.delete = .ok () ∧
      (handleDeleteQueue cfg s i queue).2.records = [] ∧
      (handleDeleteQueue cfg s i queue).1 = { s with
        config := Function.update s.config queue none
        storedPause := Function.update s.storedPause queue false } := by
  unfold handleDeleteQueue
  split_ifs with hstore hvalid
  · exact Or.inl ⟨(fun h => by simp [h.1.1] at hstore), rfl, by simp⟩
  · exact Or.inl ⟨(fun h => by simp [h.1.2.1] at hvalid), rfl, by simp⟩
  cases hguard : deleteGuard cfg i queue with
  | error handled =>
    refine Or.inl ⟨(fun h => by simp [h.1.2.2] at hguard), rfl, ?_⟩
    simp [records_of_deleteGuard cfg hguard]
  | ok u =>
    have hdeletes : Deletes cfg i queue := ⟨by simpa using hstore, by simpa using hvalid, hguard⟩
    cases hdelete : i.outcomes.delete with
    | error err =>
      refine Or.inl ⟨(fun h => by cases h.2), ?_⟩
      cases err <;> exact ⟨rfl, by simp⟩
    | ok u => exact Or.inr ⟨hdeletes, rfl, rfl, rfl⟩

/-- A deletion without a record is audited only if there was nothing to remove. -/
theorem audited_of_deleted {s : ApiState δ κ} {i : ApiInput δ κ} {queue : String}
    (hstore : cfg.configStore = true) (hrecords : (step cfg s i).2.records = [])
    (hstate : (step cfg s i).1 = { s with
      config := Function.update s.config queue none
      storedPause := Function.update s.storedPause queue false }) :
    Audited cfg (entry (step cfg) s i) ↔ s.config queue = none ∧ s.storedPause queue = false := by
  constructor
  · intro h
    have hkept : ¬ Changed cfg s (step cfg s i).1 queue := by
      intro hchanged
      obtain ⟨r, hr, -⟩ := h.1 queue hchanged
      simp only [entry, hrecords] at hr
      cases hr
    simp only [Changed, isPaused, hstate, hstore, if_true, Function.update_self, not_or,
      not_not] at hkept
    exact ⟨hkept.2.2.symm, hkept.2.1.symm⟩
  · rintro ⟨hconfig, hpause⟩
    apply Silent.audited
    refine ⟨?_, by simp [hrecords]⟩
    rw [hstate, ← hconfig, ← hpause, Function.update_eq_self, Function.update_eq_self]

/-! ## The trail -/

/-- A request is audited exactly if it is one of the reported ones. -/
theorem audited_iff (s : ApiState δ κ) (i : ApiInput δ κ) :
    Audited cfg (entry (step cfg) s i) ↔ Reported cfg s i := by
  have hsilent : Silent s (step cfg s i) → Audited cfg (entry (step cfg) s i) := Silent.audited
  have hreports {queue : String} :
      Reports cfg s i (step cfg s i) queue → Audited cfg (entry (step cfg) s i) := Reports.audited
  unfold Reported
  cases hreq : i.request with
  | submit built =>
    have hstep : step cfg s i = handleSubmitTask cfg s i built := by simp only [step, hreq]
    rw [hstep] at hsilent
    exact iff_of_true (hsilent (handleSubmitTask_silent cfg s i built)) trivial
  | dlqMutate action queue body =>
    have hstep : step cfg s i = handleDLQMutate cfg s i action queue body := by
      simp only [step, hreq]
    rw [hstep] at hsilent hreports
    exact iff_of_true ((handleDLQMutate_cases cfg s i action queue body).elim hsilent hreports)
      trivial
  | putQueueConfig queue decoded valid =>
    have hstep : step cfg s i = handlePutQueueConfig cfg s i queue decoded valid := by
      simp only [step, hreq]
    rw [hstep] at hsilent hreports
    exact iff_of_true
      ((handlePutQueueConfig_cases cfg s i queue decoded valid).elim hsilent hreports) trivial
  | queueAction method path =>
    have hstep : step cfg s i = handleAdminQueueAction cfg s i method path := by
      simp only [step, hreq]
    rcases handleAdminQueueAction_cases cfg s i method path with
      ⟨hset, hcase⟩ | ⟨hsets, ⟨err, herr⟩, r, hr, hsuccess, herrors⟩
    · apply iff_of_true
      · rw [hstep] at hsilent hreports
        rcases hcase with h | ⟨queue, h⟩
        · exact hsilent h
        · exact hreports h
      · exact fun h => hset.resolve_left (not_not.mpr h)
    · -- The success record stands although `SetPaused` failed.
      apply iff_of_false
      · intro h
        refine h.2 ?_ r ?_ hsuccess
        · simpa only [entry, hstep] using herrors
        · simpa only [entry, hstep] using hr
      · intro h
        obtain ⟨u, hu⟩ := h hsets
        rw [herr] at hu
        cases hu
  | deleteQueue queue =>
    have hstep : step cfg s i = handleDeleteQueue cfg s i queue := by simp only [step, hreq]
    rcases handleDeleteQueue_cases cfg s i queue with
      ⟨hno, h⟩ | ⟨hdeletes, hok, hrecords, hstate⟩
    · rw [hstep] at hsilent
      exact iff_of_true (hsilent h) fun hd hok => absurd ⟨hd, hok⟩ hno
    · rw [← hstep] at hrecords hstate
      rw [audited_of_deleted cfg hdeletes.1 hrecords hstate]
      exact ⟨fun h _ _ => h, fun h => h hdeletes hok⟩

/-- The audit trail of a sequence of requests is complete exactly if each of them is one
of the reported ones, in the state it finds. -/
theorem audit_trail_iff (s : ApiState δ κ) (ins : List (ApiInput δ κ)) :
    (∀ e ∈ trace (step cfg) s ins, Audited cfg e) ↔ AllSteps (step cfg) (Reported cfg) s ins := by
  rw [allSteps_iff_trace]
  apply forall₂_congr
  intro e he
  rw [← audited_iff, ← entry_of_mem_trace he]

end Trail

/-! ## Two requests that are not audited -/

/-- A server with both stores. -/
def fullServer : ApiConfig where
  storage := true
  configStore := true
  filterPushdown := true
  rt :=
    { unmarshalTime := fun _ => none
      parseRFC3339 := fun _ => none
      decodeErrorText := fun _ => ""
      storageErrorText := fun _ => "" }
  queueErrorText := fun _ => ""

/-- Queue `q` has a config and no dead letters. -/
def configured : ApiState Unit Unit where
  dlq := fun _ => ()
  config := fun queue => if queue = "q" then some () else none
  storedPause := fun _ => false
  localPause := fun _ => false

/-- All calls succeed but those of `SetPaused`. -/
def setPausedDown : StoreOutcomes Unit where
  enqueue := .ok ()
  get := .ok ()
  scan := .ok []
  mutate := .ok (0, ())
  setPaused := .error "connection refused"
  put := .ok ()
  stats := .ok ⟨0, 0, 0⟩
  delete := .ok ()

/-- A pause that the config store refused is recorded as a success, and the deletion of a
configured queue is not recorded at all. -/
theorem unaudited_requests :
    ¬ Audited fullServer (entry (step fullServer) configured
        ⟨none, .queueAction .post "/admin/queues/q:pause".toList, setPausedDown, 0⟩) ∧
      ¬ Audited fullServer (entry (step fullServer) configured
        ⟨none, .deleteQueue "q", setPausedDown, 0⟩) := by
  rw [audited_iff, audited_iff]
  constructor
  · intro h
    obtain ⟨u, hu⟩ := h ⟨rfl, rfl, ['q'], .pause, by decide, by decide, by decide⟩
    cases hu
  · intro h
    have hnone := (h ⟨rfl, by decide, rfl⟩ rfl).1
    cases hnone

end Rdq.Server.Audit