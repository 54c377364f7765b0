import Rdq.Core.Spi
import Rdq.Foundation.KeyedTable
import Mathlib.Data.List.Sort

/-!
# The in-memory reference store

`core/memstore/memstore.go`. Every method runs under the store's mutex, so a
method is one function from the state before it to the state after it and its
answer. A method that reads the clock takes the reading as its argument `now`;
nothing relates the readings of different calls.

The map of records is a table keyed by the id of the stored envelope. The two
sequence counters are natural numbers: the model is about runs in which the
64-bit counters of the source do not overflow. Deep copies are values here.
-/

namespace Rdq.MemStore

open Rdq.Foundation

/-- The store's bookkeeping around one envelope. -/
structure Record where
  env : Envelope
  token : ClaimToken := ""
  claimedAt : Time := zeroTime
  dlqSeq : Nat := 0
  terminalAt : Time := zeroTime
deriving DecidableEq, Repr

/-- The key of a record in the task map. -/
def Record.id (r : Record) : TaskID := r.env.id

structure Store where
  tasks : KeyedTable Record.id
  claimSeq : Nat
  dlqSeq : Nat
deriving DecidableEq

/-- `memstore.New`. -/
def Store.new : Store := ⟨KeyedTable.empty, 0, 0⟩

/-! ## Helpers of the methods -/

def leaseExpiredType : String := "rdq.LeaseExpired"

/-- The fencing token minted from a value of the claim counter. -/
def mintToken (seq : Nat) : ClaimToken := "ct-" ++ seq.repr

/-- Append an attempt to the history and count it. -/
def appendAttempt (r : Record) (att : Attempt) : Record :=
  { r with env := { r.env with
      attempts := r.env.attempts ++ [att]
      attemptCount := r.env.attemptCount + 1 } }

/-- The attempt recorded when an expired lease is claimed again. -/
def leaseExpiredAttempt (r : Record) (now : Time) : Attempt where
  attemptNo := r.env.attemptCount + 1
  startedAt := r.claimedAt
  finishedAt := some now
  outcome := .leaseExpired
  error := some {
    type := leaseExpiredType
    message := "lease expired before an outcome was reported" }

/-- Whether a record can be claimed at `now`. -/
def isDue (r : Record) (now : Time) : Bool :=
  match r.env.status with
  | .pending => r.env.nextAttemptAt.any fun t => decide (t ≤ now)
  | .inFlight => r.env.leaseExpiresAt.any fun t => decide (t ≤ now)
  | _ => false

/-- The ordering key of a claim. -/
def dueKey (r : Record) : Time := r.env.nextAttemptAt.getD zeroTime

/-- The comparison the source sorts due records by. -/
def dueBefore (a b : Record) : Bool :=
  if dueKey a = dueKey b then decide (a.id < b.id) else decide (dueKey a < dueKey b)

/-- Whether the final attempt carries an error of the given type. -/
def finalErrorTypeIs (env : Envelope) (errorType : String) : Bool :=
  match env.attempts.getLast? with
  | none => false
  | some last => last.error.any fun e => decide (e.type = errorType)

/-- Whether a record satisfies a filter; zero-valued fields are unconstrained. -/
def matchFilter (r : Record) (f : DLQFilter) : Bool :=
  if f.handlerRef ≠ "" ∧ r.env.handlerRef ≠ f.handlerRef then false
  else if f.errorType ≠ "" ∧ finalErrorTypeIs r.env f.errorType = false then false
  else if f.deadLetteredAfter.any fun t => decide (r.terminalAt < t) then false
  else if f.deadLetteredBefore.any fun t => decide (¬ r.terminalAt < t) then false
  else true

namespace Store

/-- The record of `id`, provided `token` is its current claim token. -/
def resolveClaim (s : Store) (id : TaskID) (token : ClaimToken) :
    Except StorageError Record :=
  match s.tasks.find? id with
  | none => .error .staleClaim
  | some r =>
    if r.env.status ≠ .inFlight ∨ r.token = "" ∨ r.token ≠ token then .error .staleClaim
    else .ok r

/-- The DEAD records of `queue` that a selector names or matches. A repeated id
yields its record once for every repetition. -/
def selectDead (s : Store) (queue : String) (sel : Selector) : List Record :=
  if sel.ids ≠ [] then
    sel.ids.filterMap fun id =>
      (s.tasks.find? id).filter fun r => r.env.queue = queue ∧ r.env.status = .dead
  else
    match sel.filter with
    | none => []
    | some f => s.tasks.rows.filter fun r =>
      r.env.queue = queue ∧ r.env.status = .dead ∧ matchFilter r f = true

end Store

/-! ## What the methods write into a record -/

namespace Record

/-- A claim: count an expired lease, then lease the task under a new token. -/
def claim (now : Time) (lease : Duration) (token : ClaimToken) (r : Record) : Record :=
  let counted :=
    if r.env.status = .inFlight then appendAttempt r (leaseExpiredAttempt r now) else r
  { counted with
    env := { counted.env with status := .inFlight, leaseExpiresAt := some (now + lease) }
    token := token
    claimedAt := now }

def extendLease (now : Time) (lease : Duration) (r : Record) : Record :=
  { r with env := { r.env with leaseExpiresAt := some (now + lease) } }

def reschedule (attempt : Attempt) (nextAt : Time) (r : Record) : Record :=
  let counted := appendAttempt r attempt
  { counted with
    env := { counted.env with
      status := .pending, nextAttemptAt := some nextAt, leaseExpiresAt := none }
    token := "" }

def complete (attempt : Attempt) (now : Time) (r : Record) : Record :=
  let counted := appendAttempt r attempt
  { counted with
    env := { counted.env with
      status := .succeeded, nextAttemptAt := none, leaseExpiresAt := none }
    token := ""
    terminalAt := now }

def deadLetter (attempt : Attempt) (now : Time) (seq : Nat) (r : Record) : Record :=
  let counted := appendAttempt r attempt
  { counted with
    env := { counted.env with
      status := .dead, nextAttemptAt := none, leaseExpiresAt := none }
    token := ""
    dlqSeq := seq
    terminalAt := now }

/-- A redrive leaves the attempt history and the token as they are. -/
def redrive (now : Time) (r : Record) : Record :=
  { r with
    env := { r.env with
      status := .pending
      attemptCount := 0
      redriveCount := r.env.redriveCount + 1
      nextAttemptAt := some now
      leaseExpiresAt := none }
    dlqSeq := 0
    terminalAt := zeroTime }

@[simp] theorem id_claim (now : Time) (lease : Duration) (token : ClaimToken) (r : Record) :
    (claim now lease token r).id = r.id := by
  simp only [claim, Record.id]
  split <;> rfl

@[simp] theorem id_extendLease (now : Time) (lease : Duration) (r : Record) :
    (extendLease now lease r).id = r.id := rfl

@[simp] theorem id_reschedule (attempt : Attempt) (nextAt : Time) (r : Record) :
    (reschedule attempt nextAt r).id = r.id := rfl

@[simp] theorem id_complete (attempt : Attempt) (now : Time) (r : Record) :
    (complete attempt now r).id = r.id := rfl

@[simp] theorem id_deadLetter (attempt : Attempt) (now : Time) (seq : Nat) (r : Record) :
    (deadLetter attempt now seq r).id = r.id := rfl

@[simp] theorem id_redrive (now : Time) (r : Record) : (redrive now r).id = r.id := rfl

end Record

/-! ## The methods -/

namespace Store

/-- Admit a task; a known id of the same queue is left alone. -/
def enqueue (s : Store) (task : Envelope) : Store × Except StorageError Unit :=
  match s.tasks.find? task.id with
  | some existing =>
    if existing.env.queue ≠ task.queue then (s, .error .idConflict) else (s, .ok ())
  | none => ({ s with tasks := s.tasks.insertNew { env := task } }, .ok ())

/-- The due records of a queue in claim order, cut to the limit. -/
def dueRecords (s : Store) (queue : String) (limit : Int) (now : Time) : List Record :=
  ((s.tasks.rows.filter fun r => decide (r.env.queue = queue) && isDue r now).insertionSort
    fun a b => dueBefore b a = false).take limit.toNat

/-- Claim the selected records one after the other, each under a fresh token. -/
def claimAll (now : Time) (lease : Duration) : Store → List Record → Store × List Claimed
  | s, [] => (s, [])
  | s, r :: rest =>
    let seq := s.claimSeq + 1
    let token := mintToken seq
    let next : Store := { s with
      tasks := s.tasks.modify r.id (Record.claim now lease token) (Record.id_claim now lease token)
      claimSeq := seq }
    let tail := claimAll now lease next rest
    (tail.1, ⟨(r.claim now lease token).env, token⟩ :: tail.2)

def claimDue (s : Store) (queue : String) (limit : Int) (lease : Duration) (now : Time) :
    Store × Except StorageError (List Claimed) :=
  if limit ≤ 0 then (s, .ok [])
  else
    let claimed := claimAll now lease s (s.dueRecords queue limit now)
    (claimed.1, .ok claimed.2)

def extendLease (s : Store) (id : TaskID) (token : ClaimToken) (lease : Duration)
    (now : Time) : Store × Except StorageError Unit :=
  match s.resolveClaim id token with
  | .error e => (s, .error e)
  | .ok _ =>
    ({ s with
      tasks := s.tasks.modify id (Record.extendLease now lease)
        (Record.id_extendLease now lease) }, .ok ())

def reschedule (s : Store) (id : TaskID) (token : ClaimToken) (attempt : Attempt)
    (nextAt : Time) : Store × Except StorageError Unit :=
  match s.resolveClaim id token with
  | .error e => (s, .error e)
  | .ok _ =>
    ({ s with
      tasks := s.tasks.modify id (Record.reschedule attempt nextAt)
        (Record.id_reschedule attempt nextAt) }, .ok ())

def complete (s : Store) (id : TaskID) (token : ClaimToken) (attempt : Attempt)
    (now : Time) : Store × Except StorageError Unit :=
  match s.resolveClaim id token with
  | .error e => (s, .error e)
  | .ok _ =>
    ({ s with
      tasks := s.tasks.modify id (Record.complete attempt now)
        (Record.id_complete attempt now) }, .ok ())

def deadLetter (s : Store) (id : TaskID) (token : ClaimToken) (attempt : Attempt)
    (now : Time) : Store × Except StorageError Unit :=
  match s.resolveClaim id token with
  | .error e => (s, .error e)
  | .ok _ =>
    let seq := s.dlqSeq + 1
    ({ s with
      tasks := s.tasks.modify id (Record.deadLetter attempt now seq)
        (Record.id_deadLetter attempt now seq)
      dlqSeq := seq }, .ok ())

/-- Fetch one task in any status. -/
def get (s : Store) (id : TaskID) : Except StorageError Envelope :=
  match s.tasks.find? id with
  | none => .error .notFound
  | some r => .ok r.env

def redrive (s : Store) (queue : String) (sel : Selector) (now : Time) : Store × Nat :=
  let selected := s.selectDead queue sel
  let tasks := selected.foldl
    (fun tasks r => tasks.modify r.id (Record.redrive now) (Record.id_redrive now)) s.tasks
  ({ s with tasks := tasks }, selected.length)

def purge (s : Store) (queue : String) (sel : Selector) : Store × Nat :=
  let selected := s.selectDead queue sel
  let tasks := selected.foldl (fun tasks r => tasks.erase r.id) s.tasks
  ({ s with tasks := tasks }, selected.length)

/-- Whether the retention sweep of `queue` removes a record. -/
def isExpired (queue : String) (olderThan : Time) (r : Record) : Bool :=
  r.env.queue = queue ∧ r.env.status = .succeeded ∧ r.terminalAt < olderThan

def purgeSucceeded (s : Store) (queue : String) (olderThan : Time) : Store × Nat :=
  ({ s with tasks := s.tasks.deleteWhere (isExpired queue olderThan) },
    (s.tasks.rows.filter (isExpired queue olderThan)).length)

end Store

/-! ## The store as a state machine -/

/-- Perform one call. -/
def step (s : Store) : Op → Store × Reply
  | .enqueue task => (s.enqueue task).map id Reply.ofUnit
  | .claimDue queue limit lease now => (s.claimDue queue limit lease now).map id Reply.ofClaims
  | .extendLease i token lease now => (s.extendLease i token lease now).map id Reply.ofUnit
  | .reschedule i token att nextAt => (s.reschedule i token att nextAt).map id Reply.ofUnit
  | .complete i token att now => (s.complete i token att now).map id Reply.ofUnit
  | .deadLetter i token att now => (s.deadLetter i token att now).map id Reply.ofUnit
  | .redrive queue sel now => (s.redrive queue sel now).map id Reply.count
  | .purge queue sel => (s.purge queue sel).map id Reply.count
  | .purgeSucceeded queue olderThan => (s.purgeSucceeded queue olderThan).map id Reply.count

end Rdq.MemStore
