import Mathlib.Data.List.Nodup
import Rdq.Config.Validate
import Rdq.Foundation.Fallible
import Rdq.Server.Router

/-!
# Loading a configuration document

`core/config/config.go`, `Load` and `Resolved`, behind the YAML decoder: the version is
checked, then the defaults on their own, and then every queue with the defaults merged
under it.
-/

namespace Rdq.Config

open Foundation NetUrl
open Server (validQueue)

/-- A decoded document. The queues are a map, in the order it is gone through. -/
structure Document where
  configVersion : Int64
  defaults : Option QueueConfig
  queues : List (String × Option QueueConfig)
  distinct : (queues.map Prod.fst).Nodup
deriving DecidableEq

inductive LoadError
  | missingVersion
  | newerVersion (version : Int64)
  /-- The error of `envelope.ValidateQueue`. -/
  | queueName (name : String)
  | field (error : FieldError)
deriving DecidableEq

def knownConfigVersion : Int64 := 1

def validateVersion (v : Int64) : Except LoadError Unit :=
  if v < 1 then .error .missingVersion
  else if knownConfigVersion < v then .error (.newerVersion v)
  else .ok ()

/-- One round of the loop over the queues: the effective configuration. -/
def resolveQueue (rule : HostRule) (defaults : Option QueueConfig)
    (entry : String × Option QueueConfig) : Except LoadError (String × QueueConfig) :=
  if validQueue entry.1 = false then .error (.queueName entry.1)
  else
    let merged := mergeQueueConfig defaults entry.2
    match validateQueueConfig rule merged ("queues." ++ entry.1) with
    | .error e => .error (.field e)
    | .ok () => .ok (entry.1, merged)

/-- A loaded document: its queues with the defaults merged in. -/
structure Loaded extends Document where
  resolved : List (String × QueueConfig)
deriving DecidableEq

def load (rule : HostRule) (doc : Document) : Except LoadError Loaded := do
  validateVersion doc.configVersion
  match whenSet doc.defaults fun qc => validateQueueConfig rule qc "defaults" with
  | .error e => .error (.field e)
  | .ok () => do
    let resolved ← doc.queues.mapM (resolveQueue rule doc.defaults)
    return { doc with resolved := resolved }

/-- `Resolved`. -/
def Loaded.resolvedQueue (c : Loaded) (queue : String) : Option QueueConfig :=
  (c.resolved.find? fun x => x.1 = queue).map Prod.snd

theorem resolveQueue_ok {rule : HostRule} {defaults : Option QueueConfig}
    {entry : String × Option QueueConfig} {x : String × QueueConfig}
    (h : resolveQueue rule defaults entry = .ok x) :
    validQueue entry.1 = true ∧ x = (entry.1, mergeQueueConfig defaults entry.2) ∧
      Valid rule x.2 := by
  unfold resolveQueue at h
  dsimp only at h
  split_ifs at h with hname
  split at h
  · cases h
  · rename_i hvalid
    cases h
    exact ⟨Bool.not_eq_false _ ▸ hname, rfl, validateQueueConfig_ok.mp hvalid⟩

theorem load_ok {rule : HostRule} {doc : Document} {c : Loaded} (h : load rule doc = .ok c) :
    c.toDocument = doc ∧ (∀ qc, doc.defaults = some qc → Valid rule qc) ∧
      doc.queues.mapM (resolveQueue rule doc.defaults) = .ok c.resolved := by
  obtain ⟨-, -, h⟩ := bind_eq_ok.mp h
  split at h
  · cases h
  · rename_i hdefaults
    obtain ⟨resolved, hqueues, h⟩ := bind_eq_ok.mp h
    cases h
    refine ⟨rfl, fun qc hqc => ?_, hqueues⟩
    exact validateQueueConfig_ok.mp (whenSet_ok.mp hdefaults qc hqc)

/-- A queue has one configuration of its own. -/
theorem eq_of_mem_queues (doc : Document) {queue : String} {own own' : Option QueueConfig}
    (h : (queue, own) ∈ doc.queues) (h' : (queue, own') ∈ doc.queues) : own = own' :=
  congrArg Prod.snd (List.inj_on_of_nodup_map doc.distinct h h' rfl)

/-- The effective configuration of a queue is valid, and is the merge of the defaults and
the queue's own. -/
theorem resolvedQueue_spec {rule : HostRule} {doc : Document} {c : Loaded}
    (hload : load rule doc = .ok c) {queue : String} {qc : QueueConfig}
    (h : c.resolvedQueue queue = some qc) :
    validQueue queue = true ∧ Valid rule qc ∧
      ∃ own, (queue, own) ∈ doc.queues ∧ qc = mergeQueueConfig doc.defaults own := by
  obtain ⟨-, -, hqueues⟩ := load_ok hload
  obtain ⟨x, hfind, rfl⟩ := Option.map_eq_some_iff.mp h
  have hname : x.1 = queue := by simpa using List.find?_some hfind
  obtain ⟨entry, hentry, hx⟩ := mem_mapM_ok hqueues (List.mem_of_find?_eq_some hfind)
  obtain ⟨hvalid, rfl, hok⟩ := resolveQueue_ok hx
  subst hname
  exact ⟨hvalid, hok, entry.2, hentry, rfl⟩

end Rdq.Config
