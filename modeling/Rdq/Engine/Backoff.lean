import Mathlib.Algebra.Order.Field.Rat
import Mathlib.Tactic.NormNum
import Mathlib.Tactic.Positivity
import Rdq.Foundation.RatInt64

/-!
# The retry backoff ladder

`core/policy/backoff.go`: the delay before a retry grows with the retry number up to a
cap, and is then spread by a random fraction. Floating-point arithmetic is read as exact
rational arithmetic, and the conversion to a machine integer as truncation, with the
least integer for a number out of range.
-/

namespace Rdq.Engine

open Foundation

/-- The resolved ladder of a queue. Durations are nanoseconds. -/
structure Backoff where
  initial : Int64
  multiplier : ℚ
  max : Int64
  jitter : ℚ
deriving DecidableEq

namespace Backoff

/-- `initial × multiplier^(n−1)`; retry numbers below 1 are taken as 1. -/
def scaled (b : Backoff) (n : Int64) : ℚ :=
  b.initial.toInt * b.multiplier ^ ((if n < 1 then 1 else n).toInt - 1).toNat

/-- The delay before jitter. -/
def baseDelay (b : Backoff) (n : Int64) : Int64 :=
  if 0 < b.max ∧ (b.max.toInt : ℚ) ≤ b.scaled n then b.max
  else if (Int64.maxValue.toInt : ℚ) ≤ b.scaled n then Int64.maxValue
  else int64OfRat (b.scaled n)

/-- The spread of a random draw from `[0, 1)`. -/
def factor (b : Backoff) (draw : ℚ) : ℚ := 1 + b.jitter * (2 * draw - 1)

/-- The wait before retry `n`. -/
def delay (b : Backoff) (n : Int64) (draw : ℚ) : Int64 :=
  let base := b.baseDelay n
  if b.jitter ≤ 0 then base
  else
    let d := int64OfRat (base.toInt * b.factor draw)
    if d < 0 then 0 else d

/-! ## The ladder in exact numbers -/

/-- The most a delay before jitter may be. -/
def cap (b : Backoff) : ℤ := if 0 < b.max then b.max.toInt else Int64.maxValue.toInt

/-- `min(initial × multiplier^(n−1), cap)` in whole nanoseconds. -/
def preJitter (b : Backoff) (n : Int64) : ℤ := ⌊min (b.scaled n) b.cap⌋

/-- What the configuration loader guarantees of a ladder. -/
structure Valid (b : Backoff) : Prop where
  initial : 0 ≤ b.initial
  multiplier : 1 ≤ b.multiplier
  jitter_nonneg : 0 ≤ b.jitter
  jitter_le : b.jitter ≤ 1

variable {b : Backoff}

theorem scaled_nonneg (h : b.Valid) (n : Int64) : 0 ≤ b.scaled n := by
  have hinitial : (0 : ℚ) ≤ b.initial.toInt := by
    exact_mod_cast toInt_nonneg_iff.mpr h.initial
  have hmult : 0 ≤ b.multiplier := by linarith [h.multiplier]
  exact mul_nonneg hinitial (pow_nonneg hmult _)

theorem scaled_mono (h : b.Valid) {m n : Int64} (hmn : m ≤ n) : b.scaled m ≤ b.scaled n := by
  have hinitial : (0 : ℚ) ≤ b.initial.toInt := by
    exact_mod_cast toInt_nonneg_iff.mpr h.initial
  apply mul_le_mul_of_nonneg_left _ hinitial
  apply pow_le_pow_right₀ h.multiplier
  apply Int.toNat_le_toNat
  have hone : (1 : Int64).toInt = 1 := rfl
  rw [Int64.le_iff_toInt_le] at hmn
  simp only [Int64.lt_iff_toInt_lt, hone]
  split_ifs with hm hn hn
  · omega
  · rw [hone]
    omega
  · omega
  · omega

theorem cap_nonneg (b : Backoff) : 0 ≤ b.cap := by
  unfold cap
  split
  · rename_i hmax
    exact le_of_lt (Int64.lt_iff_toInt_lt.mp hmax)
  · decide

theorem cap_le (b : Backoff) : b.cap ≤ 2 ^ 63 - 1 := by
  unfold cap
  split
  · exact toInt_le_maxValue b.max
  · exact le_refl _

theorem preJitter_nonneg (h : b.Valid) (n : Int64) : 0 ≤ b.preJitter n := by
  apply Int.floor_nonneg.mpr
  apply le_min (scaled_nonneg h n)
  exact_mod_cast b.cap_nonneg

theorem preJitter_mono (h : b.Valid) {m n : Int64} (hmn : m ≤ n) :
    b.preJitter m ≤ b.preJitter n :=
  Int.floor_mono (min_le_min_right _ (scaled_mono h hmn))

theorem preJitter_le_cap (b : Backoff) (n : Int64) : b.preJitter n ≤ b.cap := by
  have hfloor : (b.preJitter n : ℚ) ≤ min (b.scaled n) b.cap := Int.floor_le _
  exact_mod_cast hfloor.trans (min_le_right _ _)

/-- The delay before jitter is the exact ladder in whole nanoseconds. -/
theorem toInt_baseDelay (h : b.Valid) (n : Int64) : (b.baseDelay n).toInt = b.preJitter n := by
  have hnonneg := scaled_nonneg h n
  unfold baseDelay preJitter
  split
  · rename_i hmax
    have hcap : b.cap = b.max.toInt := if_pos hmax.1
    rw [hcap, min_eq_right hmax.2, Int.floor_intCast]
  · rename_i hmax
    split
    · -- past the range of integers: no cap is set, since a cap would have been reached before
      rename_i hbig
      have hcap : b.cap = Int64.maxValue.toInt := by
        apply if_neg
        intro hpos
        apply hmax ⟨hpos, le_trans _ hbig⟩
        exact_mod_cast b.max.toInt_le
      rw [hcap, min_eq_right hbig, Int.floor_intCast]
    · rename_i hsmall
      have hlt : b.scaled n < (Int64.maxValue.toInt : ℚ) := not_le.mp hsmall
      have hcap : b.scaled n ≤ b.cap := by
        unfold cap
        split
        · rename_i hpos
          exact le_of_lt (not_le.mp fun hle => hmax ⟨hpos, hle⟩)
        · exact hlt.le
      rw [min_eq_left hcap]
      apply toInt_int64OfRat hnonneg
      rw [toInt_maxValue] at hlt
      push_cast at hlt
      linarith

/-! ## Jitter -/

theorem le_factor (h : b.Valid) {draw : ℚ} (hlow : 0 ≤ draw) :
    1 - b.jitter ≤ b.factor draw := by
  have hspread : -1 ≤ 2 * draw - 1 := by linarith
  have hmul := mul_le_mul_of_nonneg_left hspread h.jitter_nonneg
  unfold factor
  linarith

/-- The delay is the exact product in whole nanoseconds, as long as that is in range. -/
theorem toInt_delay_of_lt (h : b.Valid) (n : Int64) {draw : ℚ} (hlow : 0 ≤ draw)
    (hrange : b.preJitter n * b.factor draw < 2 ^ 63) :
    (b.delay n draw).toInt = ⌊b.preJitter n * b.factor draw⌋ := by
  have hbase := toInt_baseDelay h n
  unfold delay
  dsimp only
  split
  · rename_i hjitter
    have hzero : b.jitter = 0 := le_antisymm hjitter h.jitter_nonneg
    rw [factor, hzero, hbase]
    simp
  · have hfactor : 0 ≤ b.factor draw := by
      linarith [le_factor h hlow, h.jitter_le]
    have hproduct : 0 ≤ (b.preJitter n : ℚ) * b.factor draw :=
      mul_nonneg (by exact_mod_cast preJitter_nonneg h n) hfactor
    have hd := toInt_int64OfRat hproduct hrange
    have hpos : ¬int64OfRat (b.preJitter n * b.factor draw) < 0 := by
      rw [Int64.lt_iff_toInt_lt, hd]
      exact not_lt.mpr (Int.floor_nonneg.mpr hproduct)
    rw [hbase, if_neg hpos, hd]

/-- A product past the range of integers becomes no delay at all. -/
theorem delay_of_le (h : b.Valid) (n : Int64) {draw : ℚ}
    (hrange : 2 ^ 63 ≤ b.preJitter n * b.factor draw) : b.delay n draw = 0 := by
  have hbase := toInt_baseDelay h n
  have hjitter : ¬b.jitter ≤ 0 := by
    intro hjitter
    have hzero : b.jitter = 0 := le_antisymm hjitter h.jitter_nonneg
    have hcap : (b.preJitter n : ℚ) ≤ 2 ^ 63 - 1 := by
      exact_mod_cast (b.preJitter_le_cap n).trans b.cap_le
    rw [factor, hzero] at hrange
    linarith
  unfold delay
  dsimp only
  rw [if_neg hjitter, hbase, int64OfRat_of_le hrange, if_pos (by decide)]

/-- The delay is the jittered delay truncated, or the greatest integer if that is larger;
so it is not zero while its lower end is at least a nanosecond. -/
def DelayExact (b : Backoff) (n : Int64) (draw : ℚ) : Prop :=
  (b.delay n draw).toInt =
    min (truncRat ((b.baseDelay n).toInt * (1 + b.jitter * (2 * draw - 1)))) Int64.maxValue.toInt ∧
  (1 ≤ (b.baseDelay n).toInt * (1 - b.jitter) → b.delay n draw ≠ 0)

theorem delayExact_iff (h : b.Valid) (n : Int64) {draw : ℚ} (hlow : 0 ≤ draw) :
    b.DelayExact n draw ↔ b.preJitter n * (1 + b.jitter * (2 * draw - 1)) < 2 ^ 63 := by
  have hbase := toInt_baseDelay h n
  have hnonneg : (0 : ℚ) ≤ b.preJitter n := by exact_mod_cast preJitter_nonneg h n
  have hfactor := le_factor h hlow
  have hproduct : 0 ≤ (b.preJitter n : ℚ) * b.factor draw :=
    mul_nonneg hnonneg (by linarith [h.jitter_le])
  change _ ↔ b.preJitter n * b.factor draw < 2 ^ 63
  constructor
  · rintro ⟨hexact, -⟩
    by_contra hrange
    have hle : 2 ^ 63 ≤ b.preJitter n * b.factor draw := not_lt.mp hrange
    change _ = min (truncRat ((b.baseDelay n).toInt * b.factor draw)) _ at hexact
    have hfloor : 2 ^ 63 ≤ ⌊b.preJitter n * b.factor draw⌋ :=
      Int.le_floor.mpr (by exact_mod_cast hle)
    rw [delay_of_le h n hle, hbase, truncRat_of_nonneg hproduct, toInt_maxValue] at hexact
    have hzero : (0 : Int64).toInt = 0 := rfl
    omega
  · intro hrange
    have hdelay := toInt_delay_of_lt h n hlow hrange
    have hfloor : ⌊b.preJitter n * b.factor draw⌋ < 2 ^ 63 :=
      Int.floor_lt.mpr (by exact_mod_cast hrange)
    constructor
    · change _ = min (truncRat ((b.baseDelay n).toInt * b.factor draw)) _
      rw [hbase, truncRat_of_nonneg hproduct, hdelay, toInt_maxValue, min_eq_left (by omega)]
    · intro hone hzero
      rw [hzero, eq_comm, Int.floor_eq_iff] at hdelay
      rw [hbase] at hone
      have hle := mul_le_mul_of_nonneg_left hfactor hnonneg
      have hend := hdelay.2
      have hcast : (((0 : Int64).toInt : ℤ) : ℚ) = 0 := rfl
      rw [hcast] at hend
      linarith

/-- The delay before jitter grows with the retry number up to its cap; the delay itself is
exact as long as the jittered product is in the range of integers. -/
theorem backoff_bounds_iff (b : Backoff) (h : b.Valid) :
    (∀ m n, m ≤ n → b.baseDelay m ≤ b.baseDelay n) ∧
    (∀ n, 0 ≤ b.baseDelay n ∧ (0 < b.max → b.baseDelay n ≤ b.max) ∧
      b.baseDelay n ≤ Int64.maxValue) ∧
    ∀ n draw, 0 ≤ draw → draw < 1 →
      (b.DelayExact n draw ↔ b.preJitter n * (1 + b.jitter * (2 * draw - 1)) < 2 ^ 63) := by
  refine ⟨?_, ?_, ?_⟩
  · intro m n hmn
    rw [Int64.le_iff_toInt_le, toInt_baseDelay h, toInt_baseDelay h]
    exact preJitter_mono h hmn
  · intro n
    have hbase := toInt_baseDelay h n
    refine ⟨?_, ?_, ?_⟩
    · rw [← toInt_nonneg_iff, hbase]
      exact preJitter_nonneg h n
    · intro hmax
      rw [Int64.le_iff_toInt_le, hbase]
      exact (b.preJitter_le_cap n).trans_eq (if_pos hmax)
    · rw [Int64.le_iff_toInt_le]
      exact (b.baseDelay n).toInt_le
  · intro n draw hlow _
    exact delayExact_iff h n hlow

/-- One second, doubled up to a minute, with a tenth of jitter. -/
def minuteLadder : Backoff where
  initial := 1000000000
  multiplier := 2
  max := 60000000000
  jitter := 1 / 10

theorem minuteLadder_valid : minuteLadder.Valid := by
  constructor <;> decide +kernel

theorem backoff_bounds_minuteLadder :
    minuteLadder.Valid ∧ minuteLadder.baseDelay 3 ≤ minuteLadder.baseDelay 9 ∧
      minuteLadder.baseDelay 9 ≤ minuteLadder.max ∧ minuteLadder.DelayExact 9 (3 / 4) := by
  obtain ⟨hmono, hbound, hexact⟩ := backoff_bounds_iff minuteLadder minuteLadder_valid
  refine ⟨minuteLadder_valid, hmono 3 9 (by decide), (hbound 9).2.1 (by decide), ?_⟩
  apply (hexact 9 (3 / 4) (by norm_num) (by norm_num)).mpr
  decide +kernel

/-- One second, doubled without a cap, with half of jitter. -/
def uncappedLadder : Backoff where
  initial := 1000000000
  multiplier := 2
  max := 0
  jitter := 1 / 2

/-- At the top of the range the jittered delay wraps around, and the retry is due at
once. -/
theorem uncapped_delay_zero :
    uncappedLadder.Valid ∧ uncappedLadder.baseDelay 64 = Int64.maxValue ∧
      uncappedLadder.delay 64 (3 / 4) = 0 ∧ ¬uncappedLadder.DelayExact 64 (3 / 4) := by
  have hvalid : uncappedLadder.Valid := by constructor <;> decide +kernel
  have hrange : ¬uncappedLadder.preJitter 64 *
      (1 + uncappedLadder.jitter * (2 * (3 / 4) - 1)) < 2 ^ 63 := by decide +kernel
  refine ⟨hvalid, by decide +kernel, delay_of_le hvalid 64 (not_lt.mp hrange), ?_⟩
  rw [delayExact_iff hvalid 64 (by norm_num)]
  exact hrange

end Backoff

end Rdq.Engine
