import Mathlib.Algebra.Group.Int.Defs
import Mathlib.Algebra.Group.Nat.Defs
import Mathlib.Tactic.Common

/-!
# Synchronous retry

`RetrySync.execute` of the Java SDK with the `RetryConfig` it reads. The loop counts
failed calls and stops when the count equals the configured attempts, so a configured
number that the count passes only by wrapping around does not bound it.

## Implementation notes

An exception class is a test of exceptions. The backoff and its multiplier only give the delay
that is handed to `Thread.sleep` after a failure. What a sleep does is an input of the loop,
so they are left out; it refuses a negative delay. The loop runs on fuel, one unit for each
call.
-/

namespace Rdq.Sdk.RetrySync

variable {ε α : Type}

/-- `RetryConfig`, except the backoff. -/
structure RetryConfig (ε : Type) where
  attempts : Int32 := 1
  retryableExceptions : List (ε → Bool) := []
  skippableExceptions : List (ε → Bool) := []

/-- `RetryConfig.shouldRetry`. -/
def RetryConfig.shouldRetry (config : RetryConfig ε) (ex : ε) : Bool :=
  let retry := config.retryableExceptions.isEmpty || config.retryableExceptions.any (· ex)
  if config.skippableExceptions.any (· ex) then false else retry

/-- What one call of the supplier does; an error is not an exception and is not caught. -/
inductive CallResult (ε α : Type)
  | value (v : α)
  | exception (ex : ε)
  | error

inductive SleepResult
  | returned
  | interrupted
  | refused
deriving DecidableEq, Repr

/-- How `execute` ends. -/
inductive Ending (ε α : Type)
  | returned (v : α)
  | threw (ex : ε)
  | error
  | illegalArgument
deriving DecidableEq, Repr

variable (config : RetryConfig ε) (sleeps : Int32 → SleepResult) (func : Nat → CallResult ε α)

/-- The loop of `execute` after `calls` calls of the supplier, with its counter of failed
attempts: the ending, and the number of calls made. -/
def loop : Nat → Nat → Int32 → Option (Ending ε α × Nat)
  | 0, _, _ => none
  | fuel + 1, calls, attempt =>
    match func calls with
    | .value v => some (.returned v, calls + 1)
    | .error => some (.error, calls + 1)
    | .exception ex =>
      if config.shouldRetry ex = false then some (.threw ex, calls + 1)
      else if attempt + 1 = config.attempts then some (.threw ex, calls + 1)
      else
        match sleeps (attempt + 1) with
        | .refused => some (.illegalArgument, calls + 1)
        | .returned | .interrupted => loop fuel (calls + 1) (attempt + 1)

def execute (fuel : Nat) : Option (Ending ε α × Nat) := loop config sleeps func fuel 0 0

/-- The calls `execute` may make: the configured attempts, and one at least. -/
def maxCalls : Nat := max 1 config.attempts.toInt.toNat

/-- The retries are bounded: a supplier that always fails is called that often and its last
exception is thrown, and the first success within that many calls is returned. -/
structure Bounded : Prop where
  exhausted : ∀ func : Nat → CallResult ε α,
    (∀ n, ∃ ex, func n = .exception ex ∧ config.shouldRetry ex = true) →
    ∃ fuel n ex, execute config sleeps func fuel = some (.threw ex, n + 1) ∧
      n + 1 ≤ maxCalls config ∧ func n = .exception ex
  success : ∀ (func : Nat → CallResult ε α) (n : Nat) (v : α), n < maxCalls config →
    func n = .value v →
    (∀ i < n, ∃ ex, func i = .exception ex ∧ config.shouldRetry ex = true) →
    ∃ fuel, execute config sleeps func fuel = some (.returned v, n + 1)

variable {config sleeps func}

/-- A caught exception that is not the last one leads to the next call. -/
theorem loop_retry (hsleep : ∀ i, sleeps i ≠ .refused) {fuel calls : Nat} {attempt : Int32}
    {ex : ε} (hcall : func calls = .exception ex) (hretry : config.shouldRetry ex = true)
    (hmore : attempt + 1 ≠ config.attempts) :
    loop config sleeps func (fuel + 1) calls attempt =
      loop config sleeps func fuel (calls + 1) (attempt + 1) := by
  rw [loop, hcall]
  simp only [hretry, if_neg hmore, Bool.true_eq_false, if_false]
  cases hresult : sleeps (attempt + 1) with
  | refused => exact absurd hresult (hsleep _)
  | returned => rfl
  | interrupted => rfl

/-- The counter of the first calls. -/
def counter (n : Nat) : Int32 := Int32.ofInt n

theorem counter_succ (n : Nat) : counter n + 1 = counter (n + 1) := by
  simp [counter, Int32.ofInt_add]

theorem counter_eq_iff {n : Nat} {a : Int32} (h : n ≤ 2 ^ 31 - 1) :
    counter n = a ↔ (n : Int) = a.toInt := by
  have hnat : (counter n).toInt = n := by
    apply Int32.toInt_ofInt_of_le <;> omega
  rw [← Int32.toInt_inj, hnat]

theorem toInt_attempts_lt (config : RetryConfig ε) : config.attempts.toInt < 2 ^ 31 :=
  config.attempts.toInt_lt

/-- The first calls that fail and are retried bring the loop to the next one. -/
theorem loop_of_failures (hsleep : ∀ i, sleeps i ≠ .refused) {n : Nat}
    (hfail : ∀ i < n, ∃ ex, func i = .exception ex ∧ config.shouldRetry ex = true)
    (hmore : ∀ i < n, counter (i + 1) ≠ config.attempts) (fuel : Nat) :
    loop config sleeps func (n + fuel) 0 0 = loop config sleeps func fuel n (counter n) := by
  induction n generalizing fuel with
  | zero => rw [Nat.zero_add]; rfl
  | succ n ih =>
    obtain ⟨ex, hcall, hretry⟩ := hfail n (Nat.lt_succ_self n)
    have hfuel : n + 1 + fuel = n + (fuel + 1) := by omega
    rw [hfuel, ih (fun i hi => hfail i (by omega)) (fun i hi => hmore i (by omega)),
      loop_retry hsleep hcall hretry, counter_succ]
    rw [counter_succ]
    exact hmore n (Nat.lt_succ_self n)

/-- Within the configured attempts the counter does not meet them early. -/
theorem counter_ne {n : Nat} (h : n + 1 < maxCalls config) (i : Nat) (hi : i ≤ n) :
    counter (i + 1) ≠ config.attempts := by
  have hmax := toInt_attempts_lt config
  unfold maxCalls at h
  intro heq
  rw [counter_eq_iff (by omega)] at heq
  push_cast at heq
  omega

/-- Every ending counts the calls already made. -/
theorem lt_of_loop {fuel calls n : Nat} {attempt : Int32} {ending : Ending ε α}
    (h : loop config sleeps func fuel calls attempt = some (ending, n)) : calls < n := by
  induction fuel generalizing calls attempt with
  | zero => cases h
  | succ fuel ih =>
    rw [loop] at h
    cases hcall : func calls with
    | value v =>
      rw [hcall] at h
      cases h
      exact Nat.lt_succ_self calls
    | error =>
      rw [hcall] at h
      cases h
      exact Nat.lt_succ_self calls
    | exception ex =>
      rw [hcall] at h
      dsimp only at h
      split at h
      · cases h
        exact Nat.lt_succ_self calls
      · split at h
        · cases h
          exact Nat.lt_succ_self calls
        · cases hsleep : sleeps (attempt + 1) with
          | refused =>
            rw [hsleep] at h
            cases h
            exact Nat.lt_succ_self calls
          | returned =>
            rw [hsleep] at h
            exact Nat.lt_of_succ_lt (ih h)
          | interrupted =>
            rw [hsleep] at h
            exact Nat.lt_of_succ_lt (ih h)

theorem success_returned (hsleep : ∀ i, sleeps i ≠ .refused) {n : Nat} {v : α}
    (hn : n < maxCalls config) (hcall : func n = .value v)
    (hfail : ∀ i < n, ∃ ex, func i = .exception ex ∧ config.shouldRetry ex = true) :
    execute config sleeps func (n + 1) = some (.returned v, n + 1) := by
  have hmore : ∀ i < n, counter (i + 1) ≠ config.attempts := by
    intro i hi
    exact counter_ne (n := n - 1) (by omega) i (by omega)
  rw [execute, loop_of_failures hsleep hfail hmore, loop, hcall]

/-- With a positive number of attempts a supplier that always fails is called that often. -/
theorem exhausted_threw (hsleep : ∀ i, sleeps i ≠ .refused) (hpos : 1 ≤ config.attempts.toInt)
    (hfail : ∀ n, ∃ ex, func n = .exception ex ∧ config.shouldRetry ex = true) :
    ∃ n ex, execute config sleeps func (n + 1) = some (.threw ex, n + 1) ∧
      n + 1 = maxCalls config ∧ func n = .exception ex := by
  have hmax := toInt_attempts_lt config
  obtain ⟨n, hn⟩ : ∃ n, maxCalls config = n + 1 := ⟨maxCalls config - 1, by unfold maxCalls; omega⟩
  obtain ⟨ex, hcall, hretry⟩ := hfail n
  have hmore : ∀ i < n, counter (i + 1) ≠ config.attempts := by
    intro i hi
    exact counter_ne (n := n - 1) (by omega) i (by omega)
  have hlast : counter n + 1 = config.attempts := by
    unfold maxCalls at hn
    rw [counter_succ, counter_eq_iff (by omega)]
    push_cast
    omega
  refine ⟨n, ex, ?_, hn.symm, hcall⟩
  rw [execute, loop_of_failures hsleep (fun i _ => hfail i) hmore, loop, hcall]
  simp [hretry, hlast]

/-- While sleeps are not refused, the retries are bounded exactly when the number of
attempts is positive or the config retries no exception at all. -/
theorem retries_bounded_iff (config : RetryConfig ε) (sleeps : Int32 → SleepResult)
    (hsleep : ∀ i, sleeps i ≠ .refused) :
    Bounded config sleeps (α := α) ↔
      1 ≤ config.attempts.toInt ∨ ∀ ex, config.shouldRetry ex = false := by
  constructor
  · intro h
    by_contra hcond
    push Not at hcond
    obtain ⟨hattempts, ex, hretry⟩ := hcond
    let failing : Nat → CallResult ε α := fun _ => .exception ex
    have hcall : failing 0 = .exception ex := rfl
    obtain ⟨fuel, n, ex', hrun, hn, -⟩ :=
      h.exhausted failing fun _ => ⟨ex, rfl, Bool.of_not_eq_false hretry⟩
    have hone : n = 0 := by
      unfold maxCalls at hn
      omega
    cases fuel with
    | zero => cases hrun
    | succ fuel =>
      have hne : (0 : Int32) + 1 ≠ config.attempts := by
        intro heq
        rw [← heq] at hattempts
        exact absurd hattempts (by decide)
      rw [execute, loop_retry hsleep hcall (Bool.of_not_eq_false hretry) hne] at hrun
      have hlt := lt_of_loop hrun
      omega
  · intro hcond
    refine ⟨?_, fun func n v hn hcall hfail => ⟨n + 1, success_returned hsleep hn hcall hfail⟩⟩
    intro func hfail
    rcases hcond with hpos | hnone
    · obtain ⟨n, ex, hrun, hn, hcall⟩ := exhausted_threw hsleep hpos hfail
      exact ⟨n + 1, n, ex, hrun, Nat.le_of_eq hn, hcall⟩
    · obtain ⟨ex, -, hretry⟩ := hfail 0
      exact absurd hretry (by simp [hnone ex])

theorem retries_bounded_three :
    Bounded (ε := Unit) (α := Nat) { attempts := 3 } (fun _ => .returned) :=
  (retries_bounded_iff _ _ fun _ h => by cases h).mpr (Or.inl (by decide))

/-- With no attempts configured the loop goes on: three calls have not ended it, and every
ending comes after two calls at least. -/
theorem zero_attempts_go_on :
    let config : RetryConfig Unit := { attempts := 0 }
    let func : Nat → CallResult Unit Nat := fun _ => .exception ()
    maxCalls config = 1 ∧ config.shouldRetry () = true ∧
      execute config (fun _ => .returned) func 3 = none ∧
      ∀ fuel ending n, execute config (fun _ => .returned) func fuel = some (ending, n) →
        2 ≤ n := by
  refine ⟨by decide, rfl, rfl, ?_⟩
  intro fuel ending n h
  cases fuel with
  | zero => cases h
  | succ fuel => exact lt_of_loop h

end Rdq.Sdk.RetrySync
