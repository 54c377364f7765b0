import Mathlib.Algebra.BigOperators.Group.List.Basic
import Mathlib.Algebra.Order.Monoid.Defs
import Mathlib.Algebra.Ring.Nat
import Rdq.Foundation.Trace

/-!
# Potentials

The amortised bound on what a run gains. If no step gains more than the potential it
uses up, then no run gains more than the potential it starts with, less the one it
leaves.
-/

namespace Rdq.Foundation

variable {σ ι ο : Type*} {step : σ → ι → σ × ο}
variable {α : Type*} [AddCommMonoid α]

/-- The sum of the gains of the steps of a run. -/
def gained (step : σ → ι → σ × ο) (gain : Entry σ ι ο → α) (s : σ) (is : List ι) : α :=
  ((trace step s is).map gain).sum

@[simp] theorem gained_nil (gain : Entry σ ι ο → α) (s : σ) : gained step gain s [] = 0 := rfl

@[simp] theorem gained_cons (gain : Entry σ ι ο → α) (s : σ) (i : ι) (is : List ι) :
    gained step gain s (i :: is) =
      gain (entry step s i) + gained step gain (step s i).1 is := by
  simp [gained]

theorem gained_append (gain : Entry σ ι ο → α) (s : σ) (is js : List ι) :
    gained step gain s (is ++ js) =
      gained step gain s is + gained step gain (run step s is) js := by
  simp [gained, trace_append]

variable [PartialOrder α] [IsOrderedAddMonoid α]

/-- The amortised bound, for steps that meet a condition in the state they start from. -/
theorem gained_add_potential_le (step : σ → ι → σ × ο) (gain : Entry σ ι ο → α)
    (potential : σ → α) {c : σ → ι → Prop}
    (hstep : ∀ s i, c s i → gain (entry step s i) + potential (step s i).1 ≤ potential s)
    {s : σ} {is : List ι} (hall : AllSteps step c s is) :
    gained step gain s is + potential (run step s is) ≤ potential s := by
  induction is generalizing s with
  | nil => simp
  | cons i is ih =>
    have hrest := add_le_add_right (ih hall.2) (gain (entry step s i))
    calc gained step gain s (i :: is) + potential (run step s (i :: is))
        = gain (entry step s i) +
            (gained step gain (step s i).1 is + potential (run step (step s i).1 is)) := by
          rw [gained_cons, run_cons, add_assoc]
      _ ≤ gain (entry step s i) + potential (step s i).1 := hrest
      _ ≤ potential s := hstep s i hall.1

/-- A sum over parts changes by the part that is replaced. -/
theorem sum_map_set {β : Type*} (f : β → Nat) {l : List β} {i : Nat} {a : β} (h : l[i]? = some a)
    (b : β) : ((l.set i b).map f).sum + f a = (l.map f).sum + f b := by
  induction l generalizing i with
  | nil => cases h
  | cons c l ih =>
    cases i with
    | zero =>
      cases h
      simp only [List.set_cons_zero, List.map_cons, List.sum_cons]
      omega
    | succ i =>
      have hrest := ih h
      simp only [List.set_cons_succ, List.map_cons, List.sum_cons]
      omega

end Rdq.Foundation
