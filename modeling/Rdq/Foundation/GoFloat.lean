import Mathlib.Data.Rat.Init

/-!
# Floating-point values

The values of a `float64`, with the finite ones read as exact rationals. Comparisons are
those of IEEE 754: none holds of a NaN.
-/

namespace Rdq.Foundation

inductive GoFloat
  | finite (x : ℚ)
  | inf (negative : Bool)
  | nan
deriving DecidableEq

namespace GoFloat

/-- The operator `<`. -/
def lt : GoFloat → GoFloat → Bool
  | .finite x, .finite y => decide (x < y)
  | .finite _, .inf negative => !negative
  | .inf negative, .finite _ => negative
  | .inf negative, .inf negative' => negative && !negative'
  | .nan, _ => false
  | _, .nan => false

@[simp] theorem lt_finite (x y : ℚ) : lt (.finite x) (.finite y) = decide (x < y) := rfl

end GoFloat

end Rdq.Foundation
