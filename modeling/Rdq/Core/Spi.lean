import Rdq.Core.Envelope

/-!
# Values of the storage interface

The value and error types of `core/spi` that every backend shares.
-/

namespace Rdq

abbrev TaskID := String

/-- Opaque fencing token; the empty token names no claim. -/
abbrev ClaimToken := String

/-- The errors of the storage interface: its sentinels, what a database refuses to
store, with the text the backend puts before it, and a row that the backend does not
read back. -/
inductive StorageError
  | staleClaim
  | notFound
  | staleCursor
  | idConflict
  | uniqueViolation (context : String)
  | checkViolation (context : String)
  | unreadableRow (message : String)
deriving DecidableEq, Repr

/-- One task handed out by a claim, with the token that fences it. -/
structure Claimed where
  task : Envelope
  token : ClaimToken
deriving DecidableEq, Repr

/-- Narrows a selection over the dead-letter queue; zero-valued fields are
unconstrained. -/
structure DLQFilter where
  errorType : String := ""
  handlerRef : String := ""
  deadLetteredAfter : Option Time := none
  deadLetteredBefore : Option Time := none
  includeAttempts : Bool := false
deriving DecidableEq, Repr

/-- Chooses tasks for a redrive or a purge. -/
structure Selector where
  ids : List TaskID := []
  filter : Option DLQFilter := none
deriving DecidableEq, Repr

/-! ## Calls of the interface -/

/-- One call of a mutating method, with the clock reading the backend makes. -/
inductive Op
  | enqueue (task : Envelope)
  | claimDue (queue : String) (limit : Int) (lease : Duration) (now : Time)
  | extendLease (id : TaskID) (token : ClaimToken) (lease : Duration) (now : Time)
  | reschedule (id : TaskID) (token : ClaimToken) (attempt : Attempt) (nextAt : Time)
  | complete (id : TaskID) (token : ClaimToken) (attempt : Attempt) (now : Time)
  | deadLetter (id : TaskID) (token : ClaimToken) (attempt : Attempt) (now : Time)
  | redrive (queue : String) (sel : Selector) (now : Time)
  | purge (queue : String) (sel : Selector)
  | purgeSucceeded (queue : String) (olderThan : Time)
deriving DecidableEq, Repr

/-- The answer of a call. -/
inductive Reply
  | done
  | claimed (claims : List Claimed)
  | count (n : Nat)
  | failed (e : StorageError)
deriving DecidableEq, Repr

def Reply.ofUnit : Except StorageError Unit → Reply
  | .ok () => .done
  | .error e => .failed e

def Reply.ofClaims : Except StorageError (List Claimed) → Reply
  | .ok cs => .claimed cs
  | .error e => .failed e

namespace Op

/-- The id and token of an outcome call. -/
def outcome? : Op → Option (TaskID × ClaimToken)
  | .reschedule id token _ _ => some (id, token)
  | .complete id token _ _ => some (id, token)
  | .deadLetter id token _ _ => some (id, token)
  | _ => none

/-- The id and token of a call that needs a valid token. -/
def fenced? : Op → Option (TaskID × ClaimToken)
  | .extendLease id token _ _ => some (id, token)
  | op => op.outcome?

theorem fenced?_of_outcome? {op : Op} {x : TaskID × ClaimToken} (h : op.outcome? = some x) :
    op.fenced? = some x := by
  cases op <;> first | exact h | cases h

end Op

/-- The claims handed out by an answer. -/
def Reply.claims : Reply → List Claimed
  | .claimed cs => cs
  | _ => []

end Rdq
