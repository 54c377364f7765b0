import Mathlib.Algebra.Order.Floor.Ring
import Mathlib.Data.Rat.Floor
import Mathlib.Tactic.Linarith

/-!
# Rational numbers converted to machine integers

Conversion of a number to a signed machine integer of 64 bits: the fraction is
dropped, and a number out of range becomes the least integer.
-/

namespace Rdq.Foundation

/-- Truncation toward zero. -/
def truncRat (x : ℚ) : ℤ := x.num.tdiv x.den

theorem truncRat_of_nonneg {x : ℚ} (h : 0 ≤ x) : truncRat x = ⌊x⌋ := by
  rw [truncRat, Int.tdiv_eq_ediv_of_nonneg (Rat.num_nonneg.mpr h)]
  exact (Rat.floor_def x).symm

/-- The conversion `int64(x)`. -/
def int64OfRat (x : ℚ) : Int64 :=
  if Int64.minValue.toInt ≤ truncRat x ∧ truncRat x ≤ Int64.maxValue.toInt then
    Int64.ofInt (truncRat x)
  else Int64.minValue

theorem toInt_maxValue : Int64.maxValue.toInt = 2 ^ 63 - 1 := rfl

theorem toInt_minValue : Int64.minValue.toInt = -2 ^ 63 := rfl

theorem toInt_nonneg_iff {x : Int64} : 0 ≤ x.toInt ↔ 0 ≤ x := by
  rw [Int64.le_iff_toInt_le]
  rfl

theorem toInt_le_maxValue (x : Int64) : x.toInt ≤ 2 ^ 63 - 1 := x.toInt_le

theorem toInt_ofInt_of_nonneg {i : ℤ} (hlow : 0 ≤ i) (hhigh : i < 2 ^ 63) :
    (Int64.ofInt i).toInt = i :=
  Int64.toInt_ofInt_of_le (by omega) hhigh

/-- A number in range is truncated. -/
theorem toInt_int64OfRat {x : ℚ} (hlow : 0 ≤ x) (hhigh : x < 2 ^ 63) :
    (int64OfRat x).toInt = ⌊x⌋ := by
  have htrunc := truncRat_of_nonneg hlow
  have hfloor : 0 ≤ ⌊x⌋ := Int.floor_nonneg.mpr hlow
  have hlt : ⌊x⌋ < 2 ^ 63 := Int.floor_lt.mpr (by exact_mod_cast hhigh)
  have hrange : Int64.minValue.toInt ≤ truncRat x ∧ truncRat x ≤ Int64.maxValue.toInt := by
    rw [htrunc, toInt_minValue, toInt_maxValue]
    omega
  rw [int64OfRat, if_pos hrange, htrunc, toInt_ofInt_of_nonneg hfloor hlt]

/-- A number past the range becomes negative. -/
theorem int64OfRat_of_le {x : ℚ} (h : 2 ^ 63 ≤ x) : int64OfRat x = Int64.minValue := by
  have hpos : 0 ≤ x := by linarith
  have hfloor : 2 ^ 63 ≤ ⌊x⌋ := Int.le_floor.mpr (by exact_mod_cast h)
  have hrange : ¬(Int64.minValue.toInt ≤ truncRat x ∧ truncRat x ≤ Int64.maxValue.toInt) := by
    rw [truncRat_of_nonneg hpos, toInt_maxValue]
    omega
  rw [int64OfRat, if_neg hrange]

end Rdq.Foundation
