import Mathlib.Algebra.Group.Nat.Defs
import Mathlib.Tactic.Common
import Rdq.Foundation.Strconv

/-!
# The calendar and RFC 3339

Instants are nanoseconds from the start of year 1 of the proleptic Gregorian calendar
in UTC. `Civil.ofInstant` splits one into year, month, day and time of the day, and
`Civil.instant` puts it together again.

`formatMillis` writes an instant as Go's layout `2006-01-02T15:04:05.000Z07:00` does in
UTC, which drops what is below a millisecond. `parseRFC3339` is `time.Parse` with the
layout `time.RFC3339`, which takes a one-digit hour, a comma before the fraction, and
offsets of up to 24 hours and 60 minutes.
-/

namespace Rdq.Foundation

/-! ## The calendar -/

def isLeap (year : Int) : Bool := year % 4 == 0 && (year % 100 != 0 || year % 400 == 0)

/-- The days from the start of year 1 to the start of a year. -/
def daysBeforeYear (year : Int) : Int :=
  365 * (year - 1) + (year - 1) / 4 - (year - 1) / 100 + (year - 1) / 400

/-- The days of a year before a month. -/
def daysBeforeMonth (leap : Bool) (month : Nat) : Nat :=
  [0, 31, 59, 90, 120, 151, 181, 212, 243, 273, 304, 334].getD (month - 1) 365 +
    if leap ∧ 2 < month then 1 else 0

def daysInMonth (leap : Bool) (month : Nat) : Nat :=
  [31, if leap then 29 else 28, 31, 30, 31, 30, 31, 31, 30, 31, 30, 31].getD (month - 1) 0

theorem daysBeforeYear_succ (year : Int) :
    daysBeforeYear (year + 1) = daysBeforeYear year + 365 + if isLeap year then 1 else 0 := by
  have hleap : isLeap year = true ↔ year % 4 = 0 ∧ (year % 100 ≠ 0 ∨ year % 400 = 0) := by
    simp [isLeap]
  unfold daysBeforeYear
  by_cases h : isLeap year = true
  · have := hleap.mp h
    rw [if_pos h]
    omega
  · have := mt hleap.mpr h
    rw [if_neg h]
    omega

/-- The year a day falls in. -/
def yearOfDay (day : Int) : Int :=
  let guess := day * 400 / 146097 + 1
  if day < daysBeforeYear guess then guess - 1
  else if day < daysBeforeYear (guess + 1) then guess
  else guess + 1

theorem yearOfDay_spec (day : Int) :
    daysBeforeYear (yearOfDay day) ≤ day ∧ day < daysBeforeYear (yearOfDay day + 1) := by
  simp only [yearOfDay]
  split
  · rename_i h
    simp only [daysBeforeYear] at h ⊢
    omega
  · split
    · rename_i h₁ h₂
      exact ⟨Int.not_lt.mp h₁, h₂⟩
    · rename_i h₁ h₂
      simp only [daysBeforeYear] at h₁ h₂ ⊢
      omega

/-- The month a day of the year falls in. -/
def monthOfDay (leap : Bool) (n : Nat) : Nat :=
  ((List.range 12).filter fun m => daysBeforeMonth leap (m + 1) ≤ n).length

theorem monthOfDay_spec : ∀ (leap : Bool) (n : Fin 366), n.val < 365 + leap.toNat →
    1 ≤ monthOfDay leap n ∧ monthOfDay leap n ≤ 12 ∧
      daysBeforeMonth leap (monthOfDay leap n) ≤ n.val ∧
      n.val < daysBeforeMonth leap (monthOfDay leap n) + daysInMonth leap (monthOfDay leap n) := by
  decide +kernel

/-- An instant by its parts; the parts are in range. -/
structure Civil where
  year : Int
  month : Nat
  day : Nat
  hour : Nat
  minute : Nat
  second : Nat
  nano : Nat
  month_pos : 1 ≤ month
  month_le : month ≤ 12
  day_pos : 1 ≤ day
  day_le : day ≤ daysInMonth (isLeap year) month
  hour_lt : hour < 24
  minute_lt : minute < 60
  second_lt : second < 60
  nano_lt : nano < 1000000000

/-- The instant of a date and a time of the day. -/
def instantOf (year : Int) (month day hour minute second nano : Nat) : Int :=
  (daysBeforeYear year + daysBeforeMonth (isLeap year) month + (day - 1 : Nat)) * 86400000000000 +
    ((hour * 3600 + minute * 60 + second : Nat) * 1000000000 + nano : Nat)

def Civil.instant (c : Civil) : Int :=
  instantOf c.year c.month c.day c.hour c.minute c.second c.nano

/-- The day of the year of a day, from zero. -/
def dayOfYear (day : Int) : Nat := (day - daysBeforeYear (yearOfDay day)).toNat

theorem dayOfYear_lt (day : Int) :
    dayOfYear day < 365 + (isLeap (yearOfDay day)).toNat := by
  have hspec := yearOfDay_spec day
  rw [daysBeforeYear_succ] at hspec
  unfold dayOfYear
  cases h : isLeap (yearOfDay day) <;> simp only [h, Bool.toNat_true, Bool.toNat_false, if_true,
    Bool.false_eq_true, if_false] at hspec ⊢ <;> omega

theorem dayOfYear_spec (day : Int) :
    daysBeforeYear (yearOfDay day) + dayOfYear day = day := by
  have hspec := yearOfDay_spec day
  unfold dayOfYear
  omega

theorem monthOfDay_dayOfYear (day : Int) :
    1 ≤ monthOfDay (isLeap (yearOfDay day)) (dayOfYear day) ∧
      monthOfDay (isLeap (yearOfDay day)) (dayOfYear day) ≤ 12 ∧
      daysBeforeMonth (isLeap (yearOfDay day))
        (monthOfDay (isLeap (yearOfDay day)) (dayOfYear day)) ≤ dayOfYear day ∧
      dayOfYear day < daysBeforeMonth (isLeap (yearOfDay day))
          (monthOfDay (isLeap (yearOfDay day)) (dayOfYear day)) +
        daysInMonth (isLeap (yearOfDay day))
          (monthOfDay (isLeap (yearOfDay day)) (dayOfYear day)) := by
  have hlt := dayOfYear_lt day
  have hsmall : dayOfYear day < 366 := by
    have := Bool.toNat_le (isLeap (yearOfDay day))
    omega
  exact monthOfDay_spec _ ⟨dayOfYear day, hsmall⟩ hlt

/-- The nanoseconds of the day of an instant. -/
def nanoOfDay (t : Int) : Nat := (t % 86400000000000).toNat

theorem nanoOfDay_lt (t : Int) : nanoOfDay t < 86400000000000 := by
  unfold nanoOfDay
  omega

def Civil.ofInstant (t : Int) : Civil :=
  let day := t / 86400000000000
  let leap := isLeap (yearOfDay day)
  let month := monthOfDay leap (dayOfYear day)
  have hmonth := monthOfDay_dayOfYear day
  have hnano := nanoOfDay_lt t
  { year := yearOfDay day
    month := month
    day := dayOfYear day - daysBeforeMonth leap month + 1
    hour := nanoOfDay t / 3600000000000
    minute := nanoOfDay t / 60000000000 % 60
    second := nanoOfDay t / 1000000000 % 60
    nano := nanoOfDay t % 1000000000
    month_pos := hmonth.1
    month_le := hmonth.2.1
    day_pos := Nat.succ_pos _
    day_le := Nat.sub_lt_left_of_lt_add hmonth.2.2.1 hmonth.2.2.2
    hour_lt := by omega
    minute_lt := by omega
    second_lt := by omega
    nano_lt := by omega }

@[simp] theorem Civil.instant_ofInstant (t : Int) : (Civil.ofInstant t).instant = t := by
  have hday := dayOfYear_spec (t / 86400000000000)
  have hmonth := (monthOfDay_dayOfYear (t / 86400000000000)).2.2.1
  have hnano : (nanoOfDay t : Int) = t % 86400000000000 := by
    unfold nanoOfDay
    omega
  simp only [Civil.instant, Civil.ofInstant, instantOf, Nat.add_sub_cancel]
  generalize nanoOfDay t = n at hnano
  generalize dayOfYear (t / 86400000000000) = d at hday hmonth
  omega

/-! ## Digits in a fixed width -/

def fixedDigits : Nat → Nat → List Char
  | 0, _ => []
  | width + 1, n => Nat.digitChar (n / 10 ^ width) :: fixedDigits width (n % 10 ^ width)

/-- Exactly `width` digits, read into the number so far. -/
def readDigits : Nat → Nat → List Char → Option (Nat × List Char)
  | 0, n, s => some (n, s)
  | _ + 1, _, [] => none
  | width + 1, n, c :: s =>
    if c.isDigit then readDigits width (n * 10 + (c.toNat - 48)) s else none

theorem digitChar_spec : ∀ d < 10,
    (Nat.digitChar d).isDigit = true ∧ (Nat.digitChar d).toNat - 48 = d := by
  decide

theorem readDigits_fixedDigits {width n : Nat} (h : n < 10 ^ width) (m : Nat) (s : List Char) :
    readDigits width m (fixedDigits width n ++ s) = some (m * 10 ^ width + n, s) := by
  induction width generalizing n m with
  | zero =>
    have hn : n = 0 := by simpa using h
    simp [readDigits, fixedDigits, hn]
  | succ width ih =>
    have hpos : 0 < 10 ^ width := Nat.pow_pos (by decide)
    have hlead : n / 10 ^ width < 10 := by
      rw [Nat.div_lt_iff_lt_mul hpos, Nat.mul_comm]
      exact h
    obtain ⟨hdigit, hvalue⟩ := digitChar_spec _ hlead
    have hsum : (m * 10 + n / 10 ^ width) * 10 ^ width + n % 10 ^ width =
        m * 10 ^ (width + 1) + n := by
      calc (m * 10 + n / 10 ^ width) * 10 ^ width + n % 10 ^ width
          = m * 10 * 10 ^ width + (10 ^ width * (n / 10 ^ width) + n % 10 ^ width) := by
            rw [Nat.add_mul, Nat.add_assoc, Nat.mul_comm (n / 10 ^ width)]
        _ = m * 10 ^ (width + 1) + n := by
            rw [Nat.div_add_mod, Nat.pow_succ, Nat.mul_comm (10 ^ width), Nat.mul_assoc]
    rw [fixedDigits, List.cons_append, readDigits, if_pos hdigit, hvalue,
      ih (Nat.mod_lt _ hpos), hsum]

/-! ## RFC 3339 -/

/-- A year in at least four digits. -/
def formatYear (year : Int) : List Char :=
  let magnitude :=
    if year.natAbs < 10000 then fixedDigits 4 year.natAbs else formatNat year.natAbs
  if year < 0 then '-' :: magnitude else magnitude

/-- What follows the year: date, time with milliseconds, and the mark for UTC. -/
def formatRest (c : Civil) : List Char :=
  '-' :: (fixedDigits 2 c.month ++ '-' :: (fixedDigits 2 c.day ++ 'T' ::
    (fixedDigits 2 c.hour ++ ':' :: (fixedDigits 2 c.minute ++ ':' ::
      (fixedDigits 2 c.second ++ '.' :: (fixedDigits 3 (c.nano / 1000000) ++ ['Z']))))))

/-- The layout `2006-01-02T15:04:05.000Z07:00` in UTC. -/
def formatMillis (t : Int) : List Char :=
  let c := Civil.ofInstant t
  formatYear c.year ++ formatRest c

def expect (c : Char) : List Char → Option (List Char)
  | [] => none
  | d :: s => if d = c then some s else none

/-- One digit or two. -/
def readHour (s : List Char) : Option (Nat × List Char) :=
  match readDigits 2 0 s with
  | some x => some x
  | none => readDigits 1 0 s

/-- The nanoseconds of the digits of a fraction; digits past the ninth are not read. -/
def fractionNanos (digits : List Char) : Nat :=
  let used := digits.take 9
  Nat.ofDigitChars 10 used 0 * 10 ^ (9 - used.length)

/-- An optional fraction of a second. -/
def readFraction : List Char → Nat × List Char
  | [] => (0, [])
  | c :: s =>
    let digits := s.takeWhile Char.isDigit
    if (c = '.' ∨ c = ',') ∧ digits ≠ [] then
      (fractionNanos digits, s.dropWhile Char.isDigit)
    else (0, c :: s)

/-- The offset from UTC, in minutes. -/
def readZone : List Char → Option (Int × List Char)
  | [] => none
  | c :: s =>
    if c = 'Z' then some (0, s)
    else do
      let (hour, s₁) ← readDigits 2 0 s
      let s₂ ← expect ':' s₁
      let (minute, s₃) ← readDigits 2 0 s₂
      if 24 < hour ∨ 60 < minute then none
      else if c = '+' then some ((hour * 60 + minute : Nat), s₃)
      else if c = '-' then some (-(hour * 60 + minute : Nat), s₃)
      else none

/-- `2006-01-02`; the day is checked with the rest. -/
def readDate (s : List Char) : Option ((Nat × Nat × Nat) × List Char) := do
  let (year, s) ← readDigits 4 0 s
  let s ← expect '-' s
  let (month, s) ← readDigits 2 0 s
  let s ← expect '-' s
  let (day, s) ← readDigits 2 0 s
  if 1 ≤ month ∧ month ≤ 12 then some ((year, month, day), s) else none

/-- `15:04:05`, and the fraction. -/
def readClock (s : List Char) : Option ((Nat × Nat × Nat × Nat) × List Char) := do
  let (hour, s) ← readHour s
  let s ← expect ':' s
  let (minute, s) ← readDigits 2 0 s
  let s ← expect ':' s
  let (second, s) ← readDigits 2 0 s
  if hour < 24 ∧ minute < 60 ∧ second < 60 then
    some ((hour, minute, second, (readFraction s).1), (readFraction s).2)
  else none

def parseRFC3339 (s : List Char) : Option Int := do
  let ((year, month, day), s) ← readDate s
  let s ← expect 'T' s
  let ((hour, minute, second, nano), s) ← readClock s
  let (offset, s) ← readZone s
  if s = [] ∧ 1 ≤ day ∧ day ≤ daysInMonth (isLeap year) month then
    some (instantOf year month day hour minute second nano - offset * 60000000000)
  else none

theorem readFraction_fixedDigits : ∀ millis : Fin 1000,
    readFraction ('.' :: (fixedDigits 3 millis ++ ['Z'])) =
      (millis.val * 1000000, ['Z']) := by
  decide +kernel

theorem readHour_fixedDigits {n : Nat} (h : n < 100) (s : List Char) :
    readHour (fixedDigits 2 n ++ s) = some (n, s) := by
  rw [readHour, readDigits_fixedDigits h, Nat.zero_mul, Nat.zero_add]

theorem daysInMonth_le : ∀ (leap : Bool) (month : Fin 13), daysInMonth leap month ≤ 31 := by
  decide

/-- An instant to the millisecond. -/
def truncMillis (t : Int) : Int := t - t % 1000000

theorem instantOf_millis (t : Int) :
    instantOf (Civil.ofInstant t).year (Civil.ofInstant t).month (Civil.ofInstant t).day
      (Civil.ofInstant t).hour (Civil.ofInstant t).minute (Civil.ofInstant t).second
      ((Civil.ofInstant t).nano / 1000000 * 1000000) = truncMillis t := by
  have ht := Civil.instant_ofInstant t
  have hnano := (Civil.ofInstant t).nano_lt
  simp only [Civil.instant, instantOf] at ht
  simp only [instantOf, truncMillis]
  generalize (Civil.ofInstant t).nano = n at ht hnano ⊢
  omega

/-- The years that four digits can write. -/
def FourDigits (t : Int) : Prop :=
  0 ≤ (Civil.ofInstant t).year ∧ (Civil.ofInstant t).year ≤ 9999

instance (t : Int) : Decidable (FourDigits t) := inferInstanceAs (Decidable (_ ∧ _))

@[simp] theorem expect_cons (c : Char) (s : List Char) : expect c (c :: s) = some s := if_pos rfl

theorem readDate_fixedDigits {year month day : Nat} (hyear : year < 10000)
    (hmonth : 1 ≤ month ∧ month ≤ 12) (hday : day < 100) (s : List Char) :
    readDate (fixedDigits 4 year ++ '-' :: (fixedDigits 2 month ++ '-' ::
      (fixedDigits 2 day ++ s))) = some ((year, month, day), s) := by
  have hyear₄ : year < 10 ^ 4 := hyear
  have hmonth₂ : month < 10 ^ 2 := by omega
  have hday₂ : day < 10 ^ 2 := hday
  simp only [readDate, readDigits_fixedDigits hyear₄, readDigits_fixedDigits hmonth₂,
    readDigits_fixedDigits hday₂, expect_cons, Option.bind_eq_bind, Option.bind_some, Nat.zero_mul,
    Nat.zero_add, if_pos hmonth]

theorem readClock_fixedDigits {hour minute second millis : Nat} (hhour : hour < 24)
    (hminute : minute < 60) (hsecond : second < 60) (hmillis : millis < 1000) :
    readClock (fixedDigits 2 hour ++ ':' :: (fixedDigits 2 minute ++ ':' ::
      (fixedDigits 2 second ++ '.' :: (fixedDigits 3 millis ++ ['Z'])))) =
        some ((hour, minute, second, millis * 1000000), ['Z']) := by
  have hfrac := readFraction_fixedDigits ⟨millis, hmillis⟩
  have hminute₂ : minute < 10 ^ 2 := by omega
  have hsecond₂ : second < 10 ^ 2 := by omega
  simp only [readClock, readHour_fixedDigits (Nat.lt_trans hhour (by decide)),
    readDigits_fixedDigits hminute₂, readDigits_fixedDigits hsecond₂, expect_cons,
    Option.bind_eq_bind, Option.bind_some, Nat.zero_mul, Nat.zero_add,
    hhour, hminute, hsecond, and_self, if_true, hfrac]

/-- An instant in a four-digit year is read back to the millisecond. -/
theorem parseRFC3339_formatMillis {t : Int} (h : FourDigits t) :
    parseRFC3339 (formatMillis t) = some (truncMillis t) := by
  have htrunc := instantOf_millis t
  obtain ⟨hlow, hhigh⟩ := h
  unfold formatMillis
  generalize Civil.ofInstant t = c at htrunc hlow hhigh
  have hsmall : c.year.natAbs < 10000 := by omega
  have hyear : formatYear c.year = fixedDigits 4 c.year.natAbs := by
    have hsign : ¬c.year < 0 := by omega
    simp only [formatYear, if_pos hsmall, if_neg hsign]
  have hcast : (c.year.natAbs : Int) = c.year := by omega
  have hday : c.day < 100 := by
    have hle := Nat.le_trans c.day_le
      (daysInMonth_le (isLeap c.year) ⟨c.month, Nat.lt_succ_of_le c.month_le⟩)
    omega
  have hmillis : c.nano / 1000000 < 1000 := by
    have := c.nano_lt
    omega
  simp only [parseRFC3339, formatRest, hyear,
    readDate_fixedDigits hsmall ⟨c.month_pos, c.month_le⟩ hday, expect_cons,
    readClock_fixedDigits c.hour_lt c.minute_lt c.second_lt hmillis, Option.bind_eq_bind,
    Option.bind_some, readZone, if_true, hcast, c.day_pos, c.day_le, and_self, htrunc,
    Int.zero_mul, Int.sub_zero]

/-- Any other year is written in a way that is not read. -/
theorem parseRFC3339_formatMillis_eq_none {t : Int} (h : ¬FourDigits t) :
    parseRFC3339 (formatMillis t) = none := by
  unfold FourDigits at h
  unfold formatMillis
  generalize Civil.ofInstant t = c at h
  simp only [formatYear]
  split
  · -- a sign stands where the first digit is expected
    rfl
  · -- the fifth digit stands where the dash is expected
    have hbig : ¬c.year.natAbs < 10000 := by omega
    have hlen : ¬(formatNat c.year.natAbs).length ≤ 4 := by
      rw [formatNat, Nat.length_toDigits_le_iff (by decide) (by decide)]
      exact hbig
    have hdigit : ∀ d ∈ formatNat c.year.natAbs, d.isDigit = true := fun d hd =>
      isDigit_of_mem_formatNat hd
    rw [if_neg hbig]
    generalize formatNat c.year.natAbs = ds at hlen hdigit
    rcases ds with _ | ⟨d₁, _ | ⟨d₂, _ | ⟨d₃, _ | ⟨d₄, _ | ⟨d₅, ds⟩⟩⟩⟩⟩
    case cons.cons.cons.cons.cons =>
      have hdash : d₅ ≠ '-' := by
        rintro rfl
        cases hdigit '-' (by simp)
      simp [parseRFC3339, readDate, readDigits, hdigit, expect, hdash]
    all_goals exact absurd (by simp) hlen

/-! ## Instants to the millisecond -/

theorem truncMillis_of_dvd {t : Int} (h : t % 1000000 = 0) : truncMillis t = t := by
  rw [truncMillis, h, Int.sub_zero]

/-- What is below a millisecond is not written. -/
@[simp] theorem formatMillis_truncMillis (t : Int) :
    formatMillis (truncMillis t) = formatMillis t := by
  have hday : truncMillis t / 86400000000000 = t / 86400000000000 := by
    unfold truncMillis
    omega
  have hhour : nanoOfDay (truncMillis t) / 3600000000000 = nanoOfDay t / 3600000000000 := by
    unfold nanoOfDay truncMillis
    omega
  have hminute : nanoOfDay (truncMillis t) / 60000000000 = nanoOfDay t / 60000000000 := by
    unfold nanoOfDay truncMillis
    omega
  have hsecond : nanoOfDay (truncMillis t) / 1000000000 = nanoOfDay t / 1000000000 := by
    unfold nanoOfDay truncMillis
    omega
  have hmillis : nanoOfDay (truncMillis t) % 1000000000 / 1000000 =
      nanoOfDay t % 1000000000 / 1000000 := by
    unfold nanoOfDay truncMillis
    omega
  simp only [formatMillis, formatRest, Civil.ofInstant, hday, hhour, hminute, hsecond, hmillis]

end Rdq.Foundation
