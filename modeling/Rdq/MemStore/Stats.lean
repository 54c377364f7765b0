import Rdq.MemStore.Store

/-!
# The statistics of a queue

`core/memstore/memstore.go`, `Stats`, and the snapshot type of `core/spi/types.go`.
The loop over the records is one pass with a running tally; what it arrives at does
not depend on the order of the records.
-/

namespace Rdq

/-- `spi.Stats`. -/
structure Stats where
  pending : Nat
  inFlight : Nat
  dlqDepth : Nat
  oldestPendingAge : Duration
deriving DecidableEq, Repr

/-- The tasks of a queue that the snapshot counts. -/
def Stats.total (st : Stats) : Nat := st.pending + st.inFlight + st.dlqDepth

/-- The age of the oldest pending task, zero when there is none or it is not in the past. -/
def pendingAge (oldest : Option Time) (now : Time) : Duration :=
  match oldest with
  | none => 0
  | some t => if 0 < now - t then now - t else 0

namespace MemStore

open Rdq.Foundation

/-- The variables of the loop in `Stats`; `oldest` is none before the first pending task. -/
structure Tally where
  pending : Nat := 0
  inFlight : Nat := 0
  dlqDepth : Nat := 0
  oldest : Option Time := none

/-- One turn of the loop. -/
def Tally.add (queue : String) (c : Tally) (r : Record) : Tally :=
  if r.env.queue ≠ queue then c
  else
    match r.env.status with
    | .pending =>
      { c with
        pending := c.pending + 1
        oldest :=
          if c.oldest.all fun t => decide (r.env.createdAt < t) then some r.env.createdAt
          else c.oldest }
    | .inFlight => { c with inFlight := c.inFlight + 1 }
    | .dead => { c with dlqDepth := c.dlqDepth + 1 }
    | .succeeded => c

/-- `Stats`. -/
def Store.stats (s : Store) (queue : String) (now : Time) : Stats :=
  let c := s.tasks.rows.foldl (Tally.add queue) {}
  { pending := c.pending
    inFlight := c.inFlight
    dlqDepth := c.dlqDepth
    oldestPendingAge := pendingAge c.oldest now }

/-- The record is in the queue and has the status. -/
def Record.isAt (queue : String) (status : Status) (r : Record) : Bool :=
  decide (r.env.queue = queue) && decide (r.env.status = status)

end MemStore

end Rdq
