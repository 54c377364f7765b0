import Mathlib.Tactic.Linarith
import Mathlib.Tactic.NormNum
import Rdq.Core.Envelope
import Rdq.Foundation.Potential
import Rdq.Foundation.RatInt64

/-!
# The rate limiter of a queue

`core/engine/ratelimit.go`: a token bucket that refills with time up to its burst. The
arithmetic on floating-point numbers is read over exact rationals. The clock is read by
every call that asks for tokens, and may stand still or go backwards.
-/

namespace Rdq.Engine

open Foundation

/-- A rate as it is configured: a count per period, in nanoseconds. -/
structure Rate where
  count : Int64
  per : Int64
deriving DecidableEq

/-- Nanoseconds as seconds. -/
def seconds (d : Int) : ℚ := d / 1000000000

def Rate.perSecond (r : Rate) : ℚ :=
  if r.per ≤ 0 then 0 else r.count.toInt / seconds r.per.toInt

/-- The token bucket. A rate of zero means unlimited. -/
structure Limiter where
  ratePerSec : ℚ
  burst : ℚ
  tokens : ℚ
  /-- When the tokens were last recomputed. -/
  last : Time
deriving DecidableEq

/-- `NewLimiter`, at a reading of the clock. -/
def newLimiter (rate : Option Rate) (now : Time) : Limiter :=
  let unlimited : Limiter := ⟨0, 0, 0, now⟩
  match rate with
  | none => unlimited
  | some r =>
    if r.perSecond ≤ 0 then unlimited
    else
      let burst : ℚ := if (r.count.toInt : ℚ) < 1 then 1 else r.count.toInt
      ⟨r.perSecond, burst, burst, now⟩

/-- `Time.Sub`, which saturates. -/
def timeSub (t u : Int) : Int :=
  if Int64.maxValue.toInt < t - u then Int64.maxValue.toInt
  else if t - u < Int64.minValue.toInt then Int64.minValue.toInt
  else t - u

namespace Limiter

/-- `refillLocked`: tokens for the time since the last call; never backwards. -/
def refill (l : Limiter) (now : Time) : Limiter :=
  let elapsed := timeSub now l.last
  if elapsed ≤ 0 then l
  else
    let tokens := l.tokens + seconds elapsed * l.ratePerSec
    { l with last := now, tokens := if l.burst < tokens then l.burst else tokens }

/-- `AllowN`: all or nothing. -/
def allowN (l : Limiter) (n : Int) (now : Time) : Limiter × Bool :=
  if n ≤ 0 then (l, true)
  else if l.ratePerSec = 0 then (l, true)
  else
    let l := l.refill now
    if l.tokens < n then (l, false) else ({ l with tokens := l.tokens - n }, true)

/-! ## Refilling -/

/-- A bucket with a rate, within its bounds. -/
structure Filled (l : Limiter) : Prop where
  rate_pos : 0 < l.ratePerSec
  tokens_nonneg : 0 ≤ l.tokens
  tokens_le : l.tokens ≤ l.burst

theorem timeSub_nonpos_iff {t u : Int} : timeSub t u ≤ 0 ↔ t ≤ u := by
  unfold timeSub
  rw [toInt_maxValue, toInt_minValue]
  split_ifs <;> omega

theorem timeSub_le {t u : Int} (h : u ≤ t) : timeSub t u ≤ t - u := by
  unfold timeSub
  rw [toInt_maxValue, toInt_minValue]
  split_ifs <;> omega

theorem seconds_mono {d e : Int} (h : d ≤ e) : seconds d ≤ seconds e := by
  have hcast : (d : ℚ) ≤ e := by exact_mod_cast h
  unfold seconds
  linarith

theorem seconds_sub (d e : Int) : seconds (d - e) = seconds d - seconds e := by
  unfold seconds
  push_cast
  ring

variable {l : Limiter}

@[simp] theorem ratePerSec_refill (now : Time) : (l.refill now).ratePerSec = l.ratePerSec := by
  unfold refill
  dsimp only
  split <;> rfl

@[simp] theorem burst_refill (now : Time) : (l.refill now).burst = l.burst := by
  unfold refill
  dsimp only
  split <;> rfl

/-- The bucket remembers the greatest reading. -/
theorem last_refill (now : Time) : (l.refill now).last = max l.last now := by
  unfold refill
  dsimp only
  split
  · rename_i h
    exact (max_eq_left (timeSub_nonpos_iff.mp h)).symm
  · rename_i h
    rw [timeSub_nonpos_iff, not_le] at h
    exact (max_eq_right h.le).symm

/-- Refilling takes no tokens. -/
theorem le_tokens_refill (h : l.Filled) (now : Time) : l.tokens ≤ (l.refill now).tokens := by
  unfold refill
  dsimp only
  split
  · exact le_refl _
  · rename_i hpos
    have hcredit : 0 ≤ seconds (timeSub now l.last) * l.ratePerSec :=
      mul_nonneg (seconds_mono (not_le.mp hpos).le |>.trans' (by simp [seconds])) h.rate_pos.le
    dsimp only
    split
    · exact h.tokens_le
    · linarith

theorem filled_refill (h : l.Filled) (now : Time) : (l.refill now).Filled where
  rate_pos := by
    rw [ratePerSec_refill]
    exact h.rate_pos
  tokens_nonneg := h.tokens_nonneg.trans (le_tokens_refill h now)
  tokens_le := by
    rw [burst_refill]
    unfold refill
    dsimp only
    split
    · exact h.tokens_le
    · dsimp only
      split
      · exact le_refl _
      · rename_i hle
        exact not_lt.mp hle

/-- Refilling credits no more than the rate allows for the time that passed. -/
theorem tokens_refill_le (h : l.Filled) (now : Time) :
    (l.refill now).tokens ≤
      l.tokens + l.ratePerSec * (seconds (l.refill now).last - seconds l.last) := by
  have hlast := last_refill (l := l) now
  rw [hlast]
  unfold refill
  dsimp only
  split
  · rename_i hle
    rw [max_eq_left (timeSub_nonpos_iff.mp hle)]
    linarith
  · rename_i hpos
    rw [timeSub_nonpos_iff, not_le] at hpos
    rw [max_eq_right hpos.le]
    have hsub := seconds_mono (timeSub_le hpos.le)
    have hcredit := mul_le_mul_of_nonneg_left hsub h.rate_pos.le
    rw [seconds_sub] at hcredit
    dsimp only
    split
    · linarith
    · linarith

/-! ## Calls -/

/-- The tokens a call took. -/
def taken (n : Int) (allowed : Bool) : ℚ := if 0 < n ∧ allowed = true then n else 0

@[simp] theorem taken_one (allowed : Bool) : taken 1 allowed = if allowed then 1 else 0 := by
  simp [taken]

/-- What a call does: nothing when it asks for none; otherwise it refills the bucket and is
refused, or takes its tokens. -/
theorem allowN_cases (h : l.Filled) (n : Int) (now : Time) :
    (n ≤ 0 ∧ l.allowN n now = (l, true)) ∨
    (0 < n ∧ (l.refill now).tokens < n ∧ l.allowN n now = (l.refill now, false)) ∨
    (0 < n ∧ n ≤ (l.refill now).tokens ∧
      l.allowN n now = ({ l.refill now with tokens := (l.refill now).tokens - n }, true)) := by
  unfold allowN
  split
  · rename_i hn
    exact Or.inl ⟨hn, rfl⟩
  · rename_i hn
    rw [if_neg h.rate_pos.ne']
    dsimp only
    split
    · rename_i hfew
      exact Or.inr (Or.inl ⟨not_le.mp hn, hfew, rfl⟩)
    · rename_i henough
      exact Or.inr (Or.inr ⟨not_le.mp hn, not_lt.mp henough, rfl⟩)

theorem ratePerSec_allowN (h : l.Filled) (n : Int) (now : Time) :
    (l.allowN n now).1.ratePerSec = l.ratePerSec := by
  rcases allowN_cases h n now with ⟨-, hcall⟩ | ⟨-, -, hcall⟩ | ⟨-, -, hcall⟩
  · rw [hcall]
  · rw [hcall, ratePerSec_refill]
  · rw [hcall]
    exact ratePerSec_refill now

theorem burst_allowN (h : l.Filled) (n : Int) (now : Time) :
    (l.allowN n now).1.burst = l.burst := by
  rcases allowN_cases h n now with ⟨-, hcall⟩ | ⟨-, -, hcall⟩ | ⟨-, -, hcall⟩
  · rw [hcall]
  · rw [hcall, burst_refill]
  · rw [hcall]
    exact burst_refill now

theorem last_allowN (h : l.Filled) (n : Int) (now : Time) :
    (l.allowN n now).1.last = if 0 < n then max l.last now else l.last := by
  rcases allowN_cases h n now with ⟨hn, hcall⟩ | ⟨hn, -, hcall⟩ | ⟨hn, -, hcall⟩
  · rw [hcall, if_neg (not_lt.mpr hn)]
  · rw [hcall, if_pos hn, last_refill]
  · rw [hcall, if_pos hn]
    exact last_refill now

/-- A call keeps the bucket within its bounds. -/
theorem filled_allowN (h : l.Filled) (n : Int) (now : Time) : (l.allowN n now).1.Filled := by
  have hrefill := filled_refill h now
  rcases allowN_cases h n now with ⟨-, hcall⟩ | ⟨-, -, hcall⟩ | ⟨hn, henough, hcall⟩
  · rw [hcall]
    exact h
  · rw [hcall]
    exact hrefill
  · have hpos : (0 : ℚ) < n := by exact_mod_cast hn
    rw [hcall]
    constructor
    · exact hrefill.rate_pos
    · exact sub_nonneg.mpr henough
    · exact (sub_le_self _ hpos.le).trans hrefill.tokens_le

/-- The tokens in the bucket, less those that the clock has brought so far. -/
def potential (rate : ℚ) (l : Limiter) : ℚ := l.tokens - rate * seconds l.last

/-- A call takes no more tokens than the potential it uses up. -/
theorem taken_add_potential_le (h : l.Filled) (n : Int) (now : Time) :
    taken n (l.allowN n now).2 + potential l.ratePerSec (l.allowN n now).1 ≤
      potential l.ratePerSec l := by
  have hrefill := tokens_refill_le h now
  unfold potential
  rcases allowN_cases h n now with ⟨hn, hcall⟩ | ⟨hn, -, hcall⟩ | ⟨hn, -, hcall⟩
  · rw [hcall, taken, if_neg fun hpos => not_lt.mpr hn hpos.1]
    linarith
  · rw [hcall, taken, if_neg fun hpos => Bool.false_ne_true hpos.2]
    linarith
  · rw [hcall, taken, if_pos ⟨hn, rfl⟩]
    dsimp only
    linarith

/-! ## Runs -/

/-- A call of `AllowN`, with the reading of the clock it gets when it asks for tokens. -/
structure Call where
  n : Int
  now : Time
deriving DecidableEq, Repr

def step (l : Limiter) (c : Call) : Limiter × Bool := l.allowN c.n c.now

/-- The tokens granted by a list of calls. -/
def granted (l : Limiter) (calls : List Call) : ℚ :=
  gained step (fun e => taken e.input.n e.output) l calls

/-- The greatest reading of the clock, from the first one on. -/
def greatestReading (start : Time) (calls : List Call) : Time :=
  calls.foldl (fun t c => if 0 < c.n then max t c.now else t) start

theorem allSteps_filled (h : l.Filled) (calls : List Call) :
    AllSteps step (fun k _ => k.Filled ∧ k.ratePerSec = l.ratePerSec) l calls := by
  have hall : AllSteps step (fun _ _ => True) l calls := allSteps_of_forall (fun _ _ => trivial) l
  apply (hall.with_invariant (P := fun k => k.Filled ∧ k.ratePerSec = l.ratePerSec)
    ⟨h, rfl⟩ ?_).mono
    fun _ _ hk => hk.1
  rintro k c ⟨hk, hrate⟩ -
  exact ⟨filled_allowN hk c.n c.now, (ratePerSec_allowN hk c.n c.now).trans hrate⟩

theorem run_spec (h : l.Filled) (calls : List Call) :
    (run step l calls).Filled ∧ (run step l calls).ratePerSec = l.ratePerSec ∧
      (run step l calls).burst = l.burst ∧
      (run step l calls).last = greatestReading l.last calls := by
  induction calls generalizing l with
  | nil => exact ⟨h, rfl, rfl, rfl⟩
  | cons c calls ih =>
    obtain ⟨hfilled, hrate, hburst, hlast⟩ := ih (filled_allowN h c.n c.now)
    refine ⟨hfilled, hrate.trans (ratePerSec_allowN h c.n c.now),
      hburst.trans (burst_allowN h c.n c.now), hlast.trans ?_⟩
    rw [last_allowN h c.n c.now]
    rfl

/-- The tokens a run of calls takes are those in the bucket and those the clock brings. -/
theorem granted_le (h : l.Filled) (calls : List Call) :
    granted l calls ≤
      l.burst + l.ratePerSec * (seconds (greatestReading l.last calls) - seconds l.last) := by
  have hbound : granted l calls + potential l.ratePerSec (run step l calls) ≤
      potential l.ratePerSec l :=
    gained_add_potential_le step (fun e => taken e.input.n e.output) (potential l.ratePerSec)
      (fun k c hk => hk.2 ▸ taken_add_potential_le hk.1 c.n c.now) (allSteps_filled h calls)
  obtain ⟨hfilled, -, -, hlast⟩ := run_spec h calls
  have hleft := hfilled.tokens_nonneg
  have hstart := h.tokens_le
  unfold potential at hbound
  rw [hlast] at hbound
  linarith

theorem filled_newLimiter {r : Rate} (hrate : 0 < r.perSecond) (now : Time) :
    (newLimiter (some r) now).Filled := by
  unfold newLimiter
  dsimp only
  rw [if_neg (not_le.mpr hrate)]
  have hburst : (0 : ℚ) ≤ if (r.count.toInt : ℚ) < 1 then 1 else (r.count.toInt : ℚ) := by
    split
    · norm_num
    · rename_i hcount
      linarith [not_lt.mp hcount]
  exact ⟨hrate, hburst, le_refl _⟩

theorem newLimiter_spec {r : Rate} (hrate : 0 < r.perSecond) (now : Time) :
    (newLimiter (some r) now).ratePerSec = r.perSecond ∧ (newLimiter (some r) now).last = now := by
  unfold newLimiter
  dsimp only
  rw [if_neg (not_le.mpr hrate)]
  exact ⟨rfl, rfl⟩

end Limiter

end Rdq.Engine
