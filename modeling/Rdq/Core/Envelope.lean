import Mathlib.Data.List.Pairwise
import Mathlib.Order.Basic
import Mathlib.Data.String.Basic

/-!
# The wire envelope

The task representation shared by every component: `core/envelope/envelope.go`
with its enumerations. Times count nanoseconds from the zero `time.Time`, and
durations count nanoseconds; both are unbounded. A nil pointer is `none`. Maps
keep their entries in key order, so that equal maps are equal values; a nil map
or slice is the empty one, except for the payload, where nil and empty bytes
are stored differently.
-/

namespace Rdq

abbrev Time := Int

abbrev Duration := Int

/-- The zero value of `time.Time`. -/
def zeroTime : Time := 0

/-- Raw JSON text, kept without interpretation. -/
abbrev RawMessage := String

/-- A map with string keys. -/
structure StringMap (α : Type) where
  entries : List (String × α)
  sorted : entries.Pairwise fun a b => a.1 < b.1
deriving DecidableEq, Repr

namespace StringMap

def empty {α : Type} : StringMap α := ⟨[], List.Pairwise.nil⟩

instance {α : Type} : Inhabited (StringMap α) := ⟨empty⟩

/-- The value stored under a key. -/
def get? {α : Type} (m : StringMap α) (key : String) : Option α :=
  (m.entries.find? fun entry => entry.1 = key).map Prod.snd

end StringMap

/-- Lifecycle state of a task. -/
inductive Status
  | pending
  | inFlight
  | succeeded
  | dead
deriving DecidableEq, Repr

/-- Result recorded for a single attempt. -/
inductive Outcome
  | success
  | retryableFailure
  | permanentFailure
  | leaseExpired
deriving DecidableEq, Repr

/-- Failure detail of a non-successful attempt (`envelope.Error`). -/
structure TaskError where
  type : String
  message : String
  detail : Option RawMessage := none
  stack : String := ""
deriving DecidableEq, Repr

/-- One execution record in a task's history. -/
structure Attempt where
  attemptNo : Int
  startedAt : Time
  finishedAt : Option Time
  outcome : Outcome
  error : Option TaskError := none
  residual : StringMap RawMessage := StringMap.empty
deriving DecidableEq, Repr

/-- The attempt numbers are 1, 2, 3, … in the order of the history. -/
def Numbered (attempts : List Attempt) : Prop :=
  attempts.map Attempt.attemptNo = (List.range' 1 attempts.length).map Int.ofNat

instance (attempts : List Attempt) : Decidable (Numbered attempts) :=
  inferInstanceAs (Decidable (_ = _))

theorem Numbered.nil : Numbered [] := rfl

/-- An attempt numbered past the history continues it. -/
theorem Numbered.concat {attempts : List Attempt} {att : Attempt} (h : Numbered attempts)
    (hno : att.attemptNo = attempts.length + 1) : Numbered (attempts ++ [att]) := by
  unfold Numbered at h ⊢
  rw [List.map_append, h, List.length_append, List.length_singleton, List.range'_concat,
    List.map_append]
  simp only [List.map_cons, List.map_nil, hno, Nat.one_mul, Int.ofNat_eq_natCast]
  push_cast
  rw [Int.add_comm]

/-- The full task representation. -/
structure Envelope where
  envelopeVersion : Int := 1
  id : String
  queue : String
  handlerRef : String
  handlerVersion : String := ""
  payload : Option (List UInt8) := some []
  payloadContentType : String := "application/octet-stream"
  payloadRef : Option String := none
  headers : StringMap String := StringMap.empty
  status : Status
  attemptCount : Int := 0
  redriveCount : Int := 0
  nextAttemptAt : Option Time
  leaseExpiresAt : Option Time := none
  createdAt : Time
  attempts : List Attempt := []
  residual : StringMap RawMessage := StringMap.empty
deriving DecidableEq, Repr

namespace Envelope

/-- The shape in which `submit.Submit` hands over every envelope it builds. -/
structure SubmitShaped (e : Envelope) : Prop where
  pending : e.status = .pending
  due : e.nextAttemptAt.isSome = true
  unleased : e.leaseExpiresAt = none
  no_attempts : e.attempts = []
  no_count : e.attemptCount = 0
  no_redrive : e.redriveCount = 0

/-- The envelope `submit.Submit` builds at time `ts` when no option but the id
is given. -/
def submitted (id queue handlerRef : String) (ts : Time) : Envelope where
  id := id
  queue := queue
  handlerRef := handlerRef
  status := .pending
  nextAttemptAt := some ts
  createdAt := ts

theorem submitted_shaped (id queue handlerRef : String) (ts : Time) :
    (submitted id queue handlerRef ts).SubmitShaped :=
  ⟨rfl, rfl, rfl, rfl, rfl, rfl⟩

end Envelope

end Rdq
