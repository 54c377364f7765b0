import Rdq.Core.WirePlain
import Rdq.Server.Router

/-!
# Looking up a task

`handleGetTask` of `server/http/tasks.go` with its `writeJSON`. The answer is encoded from
the tags of the envelope and not by the codec, so a client that decodes it as the wire
contract says gets the envelope without its unknown fields.

## Implementation notes

The status is sent before the body. When the encoder fails, the body stays empty and
the error is dropped.
-/

namespace Rdq.Server

open Foundation Foundation.JsonText
open Wire (writePlain unmarshal decode)

/-- The errors of `Storage.Get`. -/
inductive GetError
  | notFound
  | other (text : String)
deriving DecidableEq, Repr

inductive GetProblem
  | storageUnavailable
  | notFound
  | internal
deriving DecidableEq, Repr

inductive GetResponse
  | problem (code : GetProblem) (detail : String)
  | ok (body : Bytes)
deriving DecidableEq

/-- The body that `writeJSON` sends. -/
def writeJSON (written : Except Wire.MarshalError Cst) : Bytes :=
  match written with
  | .ok v => v.text ++ [ascii '\n']
  | .error _ => []

def taskBody (task : Wire.Envelope) : Bytes := writeJSON (writePlain task)

def handleGetTask (storage : Option (String → Except GetError Wire.Envelope)) (id : String) :
    GetResponse :=
  match storage with
  | none => .problem .storageUnavailable "storage not configured"
  | some get =>
    match get id with
    | .error .notFound => .problem .notFound ("no task with id " ++ id)
    | .error (.other text) => .problem .internal ("storage: " ++ text)
    | .ok task => .ok (taskBody task)

/-! ## The answer behind the router -/

def GetResponse.status : GetResponse → Nat
  | .problem .storageUnavailable _ => 503
  | .problem .notFound _ => 404
  | .problem .internal _ => 500
  | .ok _ => 200

/-- Two lookups of a task end alike. -/
inductive SameLookup : Except GetError Wire.Envelope → Except StorageError Envelope → Prop
  | found (task : Wire.Envelope) (task' : Envelope) : SameLookup (.ok task) (.ok task')
  | notFound : SameLookup (.error .notFound) (.error .notFound)
  | other (text : String) (err : StorageError) (h : err ≠ .notFound) :
    SameLookup (.error (.other text)) (.error err)

/-- The answer has the status that the route of the lookup answers with. -/
theorem status_handleGetTask (srv : ApiServer)
    (storage : Option (String → Except GetError Wire.Envelope)) (id : String)
    (h : Option.Rel SameLookup (storage.map (· id)) (srv.storage.map (· id))) :
    (handleGetTask storage id).status = (srv.handleGetTask id).status := by
  unfold handleGetTask ApiServer.handleGetTask
  cases storage with
  | none =>
    cases hsrv : srv.storage with
    | none => rfl
    | some get =>
      rw [hsrv] at h
      cases h
  | some get =>
    cases hsrv : srv.storage with
    | none =>
      rw [hsrv] at h
      cases h
    | some get' =>
      rw [hsrv] at h
      simp only [Option.map_some, Option.rel_some_some] at h
      dsimp only
      generalize get id = x at h
      generalize get' id = y at h
      cases h with
      | found | notFound => rfl
      | other text err hne => cases err <;> first | rfl | exact absurd rfl hne

/-! ## The body -/

/-- A value with a newline behind it is read as the value. -/
theorem decode_line (fold : Bool) (v : Cst) :
    decode fold (v.text ++ [ascii '\n']) = Wire.Envelope.unmarshalJSON fold v := by
  obtain ⟨d, hd, hvalue⟩ := parse_line v
  rw [decode, hd, ← hvalue]
  rfl

/-- The body of an envelope that can be written decodes to what was sent of it. -/
theorem unmarshal_taskBody {e : Wire.Envelope} (h : e.Sendable) :
    unmarshal (taskBody e) = some e.sent := by
  obtain ⟨v, hv, -, hread⟩ := Wire.unmarshal_plain h
  rw [taskBody, hv]
  exact (decode_line true v).trans hread

/-- The body of any other envelope is empty, and does not decode. -/
theorem unmarshal_taskBody_eq_none {e : Wire.Envelope} (h : ¬e.Sendable) :
    unmarshal (taskBody e) = none := by
  cases hwrite : writePlain e with
  | ok v => exact absurd (Wire.sendable_of_writePlain hwrite) h
  | error err =>
    rw [taskBody, hwrite]
    rfl

theorem unmarshal_taskBody_iff (e : Wire.Envelope) :
    unmarshal (taskBody e) = some e ↔ e.Whole := by
  rw [← e.sendable_and_sent_iff]
  by_cases h : e.Sendable
  · rw [unmarshal_taskBody h, Option.some.injEq, and_iff_right h]
  · rw [unmarshal_taskBody_eq_none h]
    constructor
    · intro heq
      cases heq
    · intro hboth
      exact absurd hboth.1 h

variable {get : String → Except GetError Wire.Envelope} {id : String} {e : Wire.Envelope}

/-- The answer to a lookup decodes to the stored envelope exactly when every time has a
year of four digits, no unknown field is stored with the envelope or an attempt, and
every error detail is compact and has no character of HTML. -/
theorem task_lookup_full_iff (h : get id = .ok e) :
    (∃ body, handleGetTask (some get) id = .ok body ∧ unmarshal body = some e) ↔
      e.Whole := by
  have hanswer : handleGetTask (some get) id = .ok (taskBody e) := by
    simp only [handleGetTask, h]
  rw [hanswer, ← unmarshal_taskBody_iff]
  constructor
  · rintro ⟨body, hbody, hread⟩
    cases hbody
    exact hread
  · intro hread
    exact ⟨_, rfl, hread⟩

/-- A task whose one attempt failed with a structured error. -/
def failedTask : Wire.Envelope :=
  { id := "t"
    attempts := [⟨1, zeroTime, some zeroTime, "FAILURE",
      some ⟨"E", "m", bytesOf "[1]", ""⟩, StringMap.empty⟩] }

theorem failed_task_looked_up :
    ∃ body, handleGetTask (some fun _ => .ok failedTask) "t" = .ok body ∧
      unmarshal body = some failedTask := by
  have hget : (fun _ : String => (.ok failedTask : Except GetError Wire.Envelope)) "t" =
      .ok failedTask := rfl
  apply (task_lookup_full_iff hget).mpr
  refine ⟨by decide, rfl, ?_⟩
  intro a ha
  rw [List.mem_singleton.mp ha]
  refine ⟨rfl, ?_⟩
  intro err herr
  rw [← Option.some.inj herr]
  decide +kernel

/-- An envelope of a newer version, with a field that is not known here. -/
def newerTask : Wire.Envelope :=
  { id := "t", residual := StringMap.empty.insert "priority" (bytesOf "1") }

theorem unknown_field_not_looked_up :
    ∃ body, handleGetTask (some fun _ => .ok newerTask) "t" = .ok body ∧
      unmarshal body = some { newerTask with residual := StringMap.empty } ∧
      unmarshal body ≠ some newerTask := by
  refine ⟨_, rfl, ?_⟩
  decide +kernel

end Rdq.Server
