import Mathlib.Data.Set.Card
import Rdq.Core.Spi

/-!
# Redriving and purging dead letters

What `Redrive` and `Purge` of the storage interface are for, in terms of any store:
which dead letters a selector chooses, and what becomes of them. A store is seen as the
envelope it returns for each id.
-/

namespace Rdq

/-- What a selector can ask about a dead letter. -/
structure DeadLetter where
  id : TaskID
  queue : String
  handlerRef : String
  /-- The error type of the final attempt. -/
  errorType : Option String
  diedAt : Time
deriving DecidableEq, Repr

/-- The time lies between the bounds, the lower one included. -/
def DLQFilter.Admits (f : DLQFilter) (t : Time) : Prop :=
  (∀ a ∈ f.deadLetteredAfter, a ≤ t) ∧ ∀ b ∈ f.deadLetteredBefore, t < b

/-- The dead letter meets every constraint of the filter. -/
def DLQFilter.Matches (f : DLQFilter) (d : DeadLetter) : Prop :=
  (f.handlerRef = "" ∨ d.handlerRef = f.handlerRef) ∧
    (f.errorType = "" ∨ d.errorType = some f.errorType) ∧ f.Admits d.diedAt

/-- The selector names the dead letter, or its filter matches it. -/
def Selector.Chooses (sel : Selector) (d : DeadLetter) : Prop :=
  if sel.ids ≠ [] then d.id ∈ sel.ids else ∃ f ∈ sel.filter, f.Matches d

end Rdq
