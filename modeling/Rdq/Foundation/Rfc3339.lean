import Mathlib.Data.List.TakeWhile
import Rdq.Foundation.Calendar

/-!
# RFC 3339 with zones and fractions

Texts of an instant in a zone: `time.RFC3339` drops the fraction of the second,
`time.RFC3339Nano` writes it without trailing zeros. A zone is an offset from UTC in whole
minutes, and a text is read together with its zone.
-/

namespace Rdq.Foundation

/-! ## Fractions of a second -/

/-- The digits without the zeros at the end. -/
def trimZeros (ds : List Char) : List Char := (ds.reverse.dropWhile fun c => c == '0').reverse

/-- A point and the fraction, or nothing for a whole second. -/
def formatFraction (nano : Nat) : List Char :=
  let ds := trimZeros (fixedDigits 9 nano)
  if ds = [] then [] else '.' :: ds

theorem length_fixedDigits (width n : Nat) : (fixedDigits width n).length = width := by
  induction width generalizing n with
  | zero => rfl
  | succ width ih => rw [fixedDigits, List.length_cons, ih]

theorem isDigit_of_mem_fixedDigits {width n : Nat} (h : n < 10 ^ width) {c : Char}
    (hc : c ∈ fixedDigits width n) : c.isDigit = true := by
  induction width generalizing n with
  | zero => cases hc
  | succ width ih =>
    have hpos : 0 < 10 ^ width := Nat.pow_pos (by decide)
    rcases List.mem_cons.mp hc with rfl | hc
    · have hlead : n / 10 ^ width < 10 := by
        rw [Nat.div_lt_iff_lt_mul hpos, Nat.mul_comm]
        exact h
      exact (digitChar_spec _ hlead).1
    · exact ih (Nat.mod_lt _ hpos) hc

theorem ofDigitChars_fixedDigits {width n : Nat} (h : n < 10 ^ width) (m : Nat) :
    Nat.ofDigitChars 10 (fixedDigits width n) m = m * 10 ^ width + n := by
  induction width generalizing n m with
  | zero =>
    have hn : n = 0 := by simpa using h
    simp [fixedDigits, hn]
  | succ width ih =>
    have hpos : 0 < 10 ^ width := Nat.pow_pos (by decide)
    have hlead : n / 10 ^ width < 10 := by
      rw [Nat.div_lt_iff_lt_mul hpos, Nat.mul_comm]
      exact h
    have hvalue : (Nat.digitChar (n / 10 ^ width)).toNat - '0'.toNat = n / 10 ^ width :=
      (digitChar_spec _ hlead).2
    calc Nat.ofDigitChars 10 (fixedDigits (width + 1) n) m
        = Nat.ofDigitChars 10 (fixedDigits width (n % 10 ^ width))
            (10 * m + ((Nat.digitChar (n / 10 ^ width)).toNat - '0'.toNat)) := by
          rw [fixedDigits, Nat.ofDigitChars_cons]
      _ = (10 * m + n / 10 ^ width) * 10 ^ width + n % 10 ^ width := by
          rw [hvalue, ih (Nat.mod_lt _ hpos)]
      _ = 10 * m * 10 ^ width + (10 ^ width * (n / 10 ^ width) + n % 10 ^ width) := by
          rw [Nat.add_mul, Nat.add_assoc, Nat.mul_comm (n / 10 ^ width)]
      _ = m * 10 ^ (width + 1) + n := by
          rw [Nat.div_add_mod, Nat.pow_succ, Nat.mul_comm (10 ^ width), ← Nat.mul_assoc,
            Nat.mul_comm m 10]

/-- Zeros at the end are a power of ten. -/
theorem trimZeros_spec (ds : List Char) :
    ∃ k, ds = trimZeros ds ++ List.replicate k '0' := by
  have hzeros : ∀ c ∈ ds.reverse.takeWhile (fun c => c == '0'), c = '0' := by
    intro c hc
    have hzero := List.mem_takeWhile_imp (p := fun c => c == '0') hc
    exact beq_iff_eq.mp hzero
  refine ⟨(ds.reverse.takeWhile fun c => c == '0').length, ?_⟩
  have hsplit := List.takeWhile_append_dropWhile (p := fun c => c == '0') (l := ds.reverse)
  rw [List.eq_replicate_of_mem hzeros] at hsplit
  have hback := congrArg List.reverse hsplit
  rw [List.reverse_append, List.reverse_replicate, List.reverse_reverse] at hback
  exact hback.symm

theorem ofDigitChars_zeros (ds : List Char) (k : Nat) :
    Nat.ofDigitChars 10 (ds ++ List.replicate k '0') 0 = Nat.ofDigitChars 10 ds 0 * 10 ^ k := by
  induction k with
  | zero => simp
  | succ k ih =>
    rw [List.replicate_succ', ← List.append_assoc, Nat.ofDigitChars_append, ih]
    simp [Nat.ofDigitChars_cons, Nat.pow_succ, Nat.mul_comm, Nat.mul_assoc]

theorem fractionNanos_trimZeros {nano : Nat} (h : nano < 1000000000) :
    fractionNanos (trimZeros (fixedDigits 9 nano)) = nano := by
  obtain ⟨k, hk⟩ := trimZeros_spec (fixedDigits 9 nano)
  have hlen := congrArg List.length hk
  rw [length_fixedDigits, List.length_append, List.length_replicate] at hlen
  have hwidth₉ : nano < 10 ^ 9 := h
  have hvalue := ofDigitChars_fixedDigits hwidth₉ 0
  rw [hk, ofDigitChars_zeros, Nat.zero_mul, Nat.zero_add] at hvalue
  have hwidth : 9 - (trimZeros (fixedDigits 9 nano)).length = k := by omega
  rw [fractionNanos, List.take_of_length_le (by omega), hwidth]
  exact hvalue

/-- Something that is not read as part of a fraction. -/
def EndsFraction (s : List Char) : Prop :=
  ∀ c ∈ s.head?, c.isDigit = false ∧ c ≠ '.' ∧ c ≠ ','

theorem readFraction_of_ends {s : List Char} (h : EndsFraction s) : readFraction s = (0, s) := by
  cases s with
  | nil => rfl
  | cons c s =>
    obtain ⟨-, hpoint, hcomma⟩ := h c rfl
    simp [readFraction, hpoint, hcomma]

/-- A fraction that was written is read back. -/
theorem readFraction_formatFraction {nano : Nat} (hnano : nano < 1000000000) {s : List Char}
    (hs : EndsFraction s) : readFraction (formatFraction nano ++ s) = (nano, s) := by
  have hvalue := fractionNanos_trimZeros hnano
  have hdigits : ∀ c ∈ trimZeros (fixedDigits 9 nano), c.isDigit = true := by
    obtain ⟨k, hk⟩ := trimZeros_spec (fixedDigits 9 nano)
    intro c hc
    have hmem : c ∈ fixedDigits 9 nano := by
      rw [hk]
      exact List.mem_append_left _ hc
    exact isDigit_of_mem_fixedDigits hnano hmem
  rw [formatFraction]
  by_cases hnil : trimZeros (fixedDigits 9 nano) = []
  · rw [if_pos hnil, List.nil_append, readFraction_of_ends hs]
    rw [hnil] at hvalue
    exact congrArg (fun n => (n, s)) hvalue
  · rw [if_neg hnil, List.cons_append]
    have htake : (trimZeros (fixedDigits 9 nano) ++ s).takeWhile Char.isDigit =
        trimZeros (fixedDigits 9 nano) := by
      rw [List.takeWhile_append_of_pos hdigits]
      cases s with
      | nil => simp
      | cons c s => simp [(hs c rfl).1]
    have hdrop : (trimZeros (fixedDigits 9 nano) ++ s).dropWhile Char.isDigit = s := by
      rw [List.dropWhile_append_of_pos hdigits]
      cases s with
      | nil => simp
      | cons c s => simp [(hs c rfl).1]
    simp only [readFraction, htake, hdrop, true_or, ne_eq, hnil, not_false_eq_true, and_self,
      if_true, hvalue]

/-! ## Zones -/

/-- `Z07:00`: the letter for UTC, and hours and minutes elsewhere. -/
def formatZone (offset : Int) : List Char :=
  if offset = 0 then ['Z']
  else (if offset < 0 then '-' else '+') ::
    (fixedDigits 2 (offset.natAbs / 60) ++ ':' :: fixedDigits 2 (offset.natAbs % 60))

theorem endsFraction_formatZone (offset : Int) : EndsFraction (formatZone offset) := by
  unfold formatZone
  split
  · simp [EndsFraction]
  · split <;> simp [EndsFraction]

/-- A zone of at most a day, and an hour less a minute, is read back. -/
theorem readZone_formatZone {offset : Int} (h : offset.natAbs < 1500) :
    readZone (formatZone offset) = some (offset, []) := by
  unfold formatZone
  by_cases hzero : offset = 0
  · rw [if_pos hzero, hzero]
    rfl
  · have hhour : offset.natAbs / 60 < 10 ^ 2 := by omega
    have hminute : offset.natAbs % 60 < 10 ^ 2 := by omega
    have hrange : ¬(24 < offset.natAbs / 60 ∨ 60 < offset.natAbs % 60) := by omega
    have hsum : offset.natAbs / 60 * 60 + offset.natAbs % 60 = offset.natAbs := by omega
    have hlast : readDigits 2 0 (fixedDigits 2 (offset.natAbs % 60)) =
        some (offset.natAbs % 60, []) := by
      have hread := readDigits_fixedDigits hminute 0 []
      rwa [List.append_nil, Nat.zero_mul, Nat.zero_add] at hread
    rw [if_neg hzero]
    by_cases hneg : offset < 0
    · have hsign : -(offset.natAbs : Int) = offset := by omega
      rw [if_pos hneg]
      simp only [readZone, readDigits_fixedDigits hhour, hlast, expect_cons, Option.bind_eq_bind,
        Option.bind_some, Nat.zero_mul, Nat.zero_add, if_neg hrange, hsum, hsign]
      rfl
    · have hsign : (offset.natAbs : Int) = offset := by omega
      rw [if_neg hneg]
      simp only [readZone, readDigits_fixedDigits hhour, hlast, expect_cons, Option.bind_eq_bind,
        Option.bind_some, Nat.zero_mul, Nat.zero_add, if_neg hrange, hsum, hsign]
      rfl

/-- A zone of more hours is not. -/
theorem readZone_formatZone_eq_none {offset : Int} (h : 1500 ≤ offset.natAbs)
    (hhour : offset.natAbs < 6000) : readZone (formatZone offset) = none := by
  have hzero : offset ≠ 0 := by omega
  have hhour₂ : offset.natAbs / 60 < 10 ^ 2 := by omega
  have hminute : offset.natAbs % 60 < 10 ^ 2 := by omega
  have hrange : 24 < offset.natAbs / 60 ∨ 60 < offset.natAbs % 60 := by omega
  have hlast : readDigits 2 0 (fixedDigits 2 (offset.natAbs % 60)) =
      some (offset.natAbs % 60, []) := by
    have hread := readDigits_fixedDigits hminute 0 []
    rwa [List.append_nil, Nat.zero_mul, Nat.zero_add] at hread
  have hletter : (if offset < 0 then '-' else '+') ≠ 'Z' := by split <;> decide
  rw [formatZone, if_neg hzero]
  simp only [readZone, if_neg hletter, readDigits_fixedDigits hhour₂, hlast, expect_cons,
    Option.bind_eq_bind, Option.bind_some, Nat.zero_mul, Nat.zero_add, if_pos hrange]

/-! ## Texts with a zone -/

/-- What a text says: the instant, and the offset of its zone. -/
structure Zoned where
  instant : Int
  offset : Int
deriving DecidableEq, Repr

/-- The instant on the clock of its zone. -/
def Zoned.wall (z : Zoned) : Int := z.instant + z.offset * 60000000000

/-- `time.Parse(time.RFC3339, ·)` with the zone. -/
def parseZoned (s : List Char) : Option Zoned := do
  let ((year, month, day), s) ← readDate s
  let s ← expect 'T' s
  let ((hour, minute, second, nano), s) ← readClock s
  let (offset, s) ← readZone s
  if s = [] ∧ 1 ≤ day ∧ day ≤ daysInMonth (isLeap year) month then
    some ⟨instantOf year month day hour minute second nano - offset * 60000000000, offset⟩
  else none

theorem parseRFC3339_eq_map (s : List Char) :
    parseRFC3339 s = (parseZoned s).map Zoned.instant := by
  simp only [parseRFC3339, parseZoned, Option.bind_eq_bind, Option.map_bind, Function.comp_def,
    apply_ite (Option.map Zoned.instant), Option.map_some, Option.map_none]

/-! ### What is read -/

theorem digit_le_nine {c : Char} (h : c.isDigit = true) : c.toNat - 48 ≤ 9 := by
  have hbounds := Char.isDigit_iff_toNat.mp h
  have hnine : '9'.toNat = 57 := rfl
  omega

theorem readDigits_lt {width m n : Nat} {s s' : List Char}
    (h : readDigits width m s = some (n, s')) : n < (m + 1) * 10 ^ width := by
  induction width generalizing m s with
  | zero =>
    cases h
    omega
  | succ width ih =>
    cases s with
    | nil => cases h
    | cons c s =>
      rw [readDigits] at h
      split at h
      · rename_i hdigit
        have hle := digit_le_nine hdigit
        calc n < (m * 10 + (c.toNat - 48) + 1) * 10 ^ width := ih h
          _ ≤ ((m + 1) * 10) * 10 ^ width := Nat.mul_le_mul_right _ (by omega)
          _ = (m + 1) * 10 ^ (width + 1) := by rw [Nat.pow_succ, Nat.mul_assoc, Nat.mul_comm 10]
      · cases h

theorem ofDigitChars_lt {ds : List Char} (h : ∀ c ∈ ds, c.isDigit = true) (m : Nat) :
    Nat.ofDigitChars 10 ds m < (m + 1) * 10 ^ ds.length := by
  induction ds generalizing m with
  | nil => simp
  | cons c ds ih =>
    obtain ⟨hdigit, hrest⟩ := List.forall_mem_cons.mp h
    have hle := digit_le_nine hdigit
    rw [Nat.ofDigitChars_cons, List.length_cons]
    calc Nat.ofDigitChars 10 ds (10 * m + (c.toNat - '0'.toNat))
        < (10 * m + (c.toNat - '0'.toNat) + 1) * 10 ^ ds.length := ih hrest _
      _ ≤ ((m + 1) * 10) * 10 ^ ds.length := by
          apply Nat.mul_le_mul_right
          have hzero : '0'.toNat = 48 := rfl
          omega
      _ = (m + 1) * 10 ^ (ds.length + 1) := by rw [Nat.pow_succ, Nat.mul_assoc, Nat.mul_comm 10]

theorem fractionNanos_lt {ds : List Char} (h : ∀ c ∈ ds, c.isDigit = true) :
    fractionNanos ds < 1000000000 := by
  have hlen : (ds.take 9).length ≤ 9 := by
    rw [List.length_take]
    omega
  have hdigits : ∀ c ∈ ds.take 9, c.isDigit = true := fun c hc => h c (List.mem_of_mem_take hc)
  have hvalue := ofDigitChars_lt hdigits 0
  rw [Nat.zero_add, Nat.one_mul] at hvalue
  have hpos : 0 < 10 ^ (9 - (ds.take 9).length) := Nat.pow_pos (by decide)
  calc fractionNanos ds
      < 10 ^ (ds.take 9).length * 10 ^ (9 - (ds.take 9).length) :=
        Nat.mul_lt_mul_of_pos_right hvalue hpos
    _ = 1000000000 := by rw [← Nat.pow_add, Nat.add_sub_cancel' hlen]

theorem readFraction_lt (s : List Char) : (readFraction s).1 < 1000000000 := by
  cases s with
  | nil => decide
  | cons c s =>
    simp only [readFraction]
    split
    · apply fractionNanos_lt
      intro d hd
      exact List.mem_takeWhile_imp hd
    · exact Nat.zero_lt_succ _

theorem readZone_le {s s' : List Char} {offset : Int} (h : readZone s = some (offset, s')) :
    offset.natAbs ≤ 1500 := by
  cases s with
  | nil => cases h
  | cons c s =>
    rw [readZone] at h
    split at h
    · cases h
      decide
    · obtain ⟨⟨hour, s₁⟩, -, h⟩ := Option.bind_eq_some_iff.mp h
      obtain ⟨s₂, -, h⟩ := Option.bind_eq_some_iff.mp h
      obtain ⟨⟨minute, s₃⟩, -, h⟩ := Option.bind_eq_some_iff.mp h
      simp only at h
      split at h
      · cases h
      · split at h
        · cases h
          omega
        · split at h
          · cases h
            omega
          · cases h

theorem daysBeforeYear_mono {y z : Int} (h : y ≤ z) : daysBeforeYear y ≤ daysBeforeYear z := by
  unfold daysBeforeYear
  omega

theorem dayOfMonth_lt : ∀ (leap : Bool) (month : Fin 13), 1 ≤ month.val →
    daysBeforeMonth leap month + daysInMonth leap month ≤ 365 + leap.toNat := by
  decide

/-- The year of an instant given by its parts. -/
theorem Civil.year_ofInstant_instant (c : Civil) : (Civil.ofInstant c.instant).year = c.year := by
  have hmonth := dayOfMonth_lt (isLeap c.year) ⟨c.month, Nat.lt_succ_of_le c.month_le⟩ c.month_pos
  have hday : c.instant / 86400000000000 =
      daysBeforeYear c.year + (daysBeforeMonth (isLeap c.year) c.month + (c.day - 1) : Nat) := by
    have hhour := c.hour_lt
    have hminute := c.minute_lt
    have hsecond := c.second_lt
    have hnano := c.nano_lt
    simp only [Civil.instant, instantOf]
    omega
  have hlow := c.day_pos
  have hhigh := c.day_le
  obtain ⟨hstart, hend⟩ := yearOfDay_spec (c.instant / 86400000000000)
  have hnext := daysBeforeYear_succ c.year
  have hleap : ((isLeap c.year).toNat : Int) = if isLeap c.year then 1 else 0 := by
    cases isLeap c.year <;> rfl
  change yearOfDay (c.instant / 86400000000000) = c.year
  rcases Int.lt_trichotomy (yearOfDay (c.instant / 86400000000000)) c.year with h | h | h
  · have hle := daysBeforeYear_mono (Int.add_one_le_of_lt h)
    omega
  · exact h
  · have hle := daysBeforeYear_mono (Int.add_one_le_of_lt h)
    simp only at hmonth
    omega

/-- A text that is read has a year of four digits on the clock of its zone, and its zone is
not further from UTC than a day and an hour. -/
theorem parseZoned_spec {s : List Char} {z : Zoned} (h : parseZoned s = some z) :
    FourDigits z.wall ∧ z.offset.natAbs ≤ 1500 := by
  obtain ⟨⟨⟨year, month, day⟩, s₁⟩, hdate, h⟩ := Option.bind_eq_some_iff.mp h
  obtain ⟨s₂, -, h⟩ := Option.bind_eq_some_iff.mp h
  obtain ⟨⟨⟨hour, minute, second, nano⟩, s₃⟩, hclock, h⟩ := Option.bind_eq_some_iff.mp h
  obtain ⟨⟨offset, s₄⟩, hzone, h⟩ := Option.bind_eq_some_iff.mp h
  simp only at h
  split at h
  · rename_i hvalid
    cases h
    obtain ⟨hyear, hmonth⟩ : year < 10000 ∧ 1 ≤ month ∧ month ≤ 12 := by
      obtain ⟨⟨y, t₁⟩, hy, hdate⟩ := Option.bind_eq_some_iff.mp hdate
      obtain ⟨t₂, -, hdate⟩ := Option.bind_eq_some_iff.mp hdate
      obtain ⟨⟨m, t₃⟩, -, hdate⟩ := Option.bind_eq_some_iff.mp hdate
      obtain ⟨t₄, -, hdate⟩ := Option.bind_eq_some_iff.mp hdate
      obtain ⟨⟨d, t₅⟩, -, hdate⟩ := Option.bind_eq_some_iff.mp hdate
      simp only at hdate
      split at hdate
      · rename_i hm
        cases hdate
        exact ⟨by simpa using readDigits_lt hy, hm⟩
      · cases hdate
    obtain ⟨hhour, hminute, hsecond, hnano⟩ :
        hour < 24 ∧ minute < 60 ∧ second < 60 ∧ nano < 1000000000 := by
      obtain ⟨⟨hr, t₁⟩, -, hclock⟩ := Option.bind_eq_some_iff.mp hclock
      obtain ⟨t₂, -, hclock⟩ := Option.bind_eq_some_iff.mp hclock
      obtain ⟨⟨mi, t₃⟩, -, hclock⟩ := Option.bind_eq_some_iff.mp hclock
      obtain ⟨t₄, -, hclock⟩ := Option.bind_eq_some_iff.mp hclock
      obtain ⟨⟨se, t₅⟩, -, hclock⟩ := Option.bind_eq_some_iff.mp hclock
      simp only at hclock
      split at hclock
      · rename_i hm
        cases hclock
        exact ⟨hm.1, hm.2.1, hm.2.2, readFraction_lt _⟩
      · cases hclock
    refine ⟨?_, readZone_le hzone⟩
    let c : Civil := ⟨year, month, day, hour, minute, second, nano, hmonth.1, hmonth.2,
      hvalid.2.1, hvalid.2.2, hhour, hminute, hsecond, hnano⟩
    have hwall : Zoned.wall ⟨instantOf year month day hour minute second nano -
        offset * 60000000000, offset⟩ = c.instant := by
      simp only [Zoned.wall, Int.sub_add_cancel]
      rfl
    have hback : (Civil.ofInstant c.instant).year = (year : Int) := c.year_ofInstant_instant
    rw [hwall]
    constructor
    · rw [hback]
      omega
    · rw [hback]
      omega
  · cases h

/-! ### What is written -/

/-- The layout of RFC 3339, with a way to write the fraction of the second. -/
def formatZoned (fraction : Nat → List Char) (z : Zoned) : List Char :=
  let c := Civil.ofInstant z.wall
  formatYear c.year ++ '-' :: (fixedDigits 2 c.month ++ '-' :: (fixedDigits 2 c.day ++ 'T' ::
    (fixedDigits 2 c.hour ++ ':' :: (fixedDigits 2 c.minute ++ ':' ::
      (fixedDigits 2 c.second ++ (fraction c.nano ++ formatZone z.offset))))))

theorem readClock_append {hour minute second : Nat} (hhour : hour < 24) (hminute : minute < 60)
    (hsecond : second < 60) (s : List Char) :
    readClock (fixedDigits 2 hour ++ ':' :: (fixedDigits 2 minute ++ ':' ::
      (fixedDigits 2 second ++ s))) =
        some ((hour, minute, second, (readFraction s).1), (readFraction s).2) := by
  have hminute₂ : minute < 10 ^ 2 := by omega
  have hsecond₂ : second < 10 ^ 2 := by omega
  simp only [readClock, readHour_fixedDigits (Nat.lt_trans hhour (by decide)),
    readDigits_fixedDigits hminute₂, readDigits_fixedDigits hsecond₂, expect_cons,
    Option.bind_eq_bind, Option.bind_some, Nat.zero_mul, Nat.zero_add,
    hhour, hminute, hsecond, and_self, if_true]

/-- Reading a text up to its zone. The fraction is read as `kept` of the nanoseconds. -/
theorem parseZoned_formatZoned (fraction : Nat → List Char) (kept : Nat → Nat) {z : Zoned}
    (hyear : FourDigits z.wall)
    (hfraction : ∀ nano < 1000000000, ∀ s, EndsFraction s →
      readFraction (fraction nano ++ s) = (kept nano, s)) :
    parseZoned (formatZoned fraction z) =
      (readZone (formatZone z.offset)).bind fun zone =>
        if zone.2 = [] then
          some ⟨z.wall - z.wall % 1000000000 + kept (z.wall % 1000000000).toNat -
            zone.1 * 60000000000, zone.1⟩
        else none := by
  have hinstant := Civil.instant_ofInstant z.wall
  obtain ⟨hlow, hhigh⟩ := hyear
  unfold formatZoned
  generalize Civil.ofInstant z.wall = c at hinstant hlow hhigh
  have hsmall : c.year.natAbs < 10000 := by omega
  have hcast : (c.year.natAbs : Int) = c.year := by omega
  have hformat : formatYear c.year = fixedDigits 4 c.year.natAbs := by
    have hsign : ¬c.year < 0 := by omega
    simp only [formatYear, if_pos hsmall, if_neg hsign]
  have hday : c.day < 100 := by
    have hle := Nat.le_trans c.day_le
      (daysInMonth_le (isLeap c.year) ⟨c.month, Nat.lt_succ_of_le c.month_le⟩)
    omega
  have hnano : z.wall % 1000000000 = c.nano := by
    have hlt := c.nano_lt
    rw [← hinstant]
    simp only [Civil.instant, instantOf]
    omega
  have hkept : z.wall - z.wall % 1000000000 + kept (z.wall % 1000000000).toNat =
      instantOf c.year c.month c.day c.hour c.minute c.second (kept c.nano) := by
    rw [hnano, Int.toNat_natCast, ← hinstant]
    simp only [Civil.instant, instantOf]
    omega
  simp only [parseZoned, hformat, readDate_fixedDigits hsmall ⟨c.month_pos, c.month_le⟩ hday,
    expect_cons, readClock_append c.hour_lt c.minute_lt c.second_lt,
    hfraction c.nano c.nano_lt _ (endsFraction_formatZone z.offset), Option.bind_eq_bind,
    Option.bind_some, hcast, c.day_pos, c.day_le, and_true, hkept]

/-- `time.RFC3339`. -/
def formatRFC3339 (z : Zoned) : List Char := formatZoned (fun _ => []) z

/-- `time.RFC3339Nano`. -/
def formatRFC3339Nano (z : Zoned) : List Char := formatZoned formatFraction z

/-- The instant to the second. -/
def truncSeconds (t : Int) : Int := t - t % 1000000000

/-- `time.RFC3339` keeps the zone and loses the fraction of the second. -/
theorem parseZoned_formatRFC3339 {z : Zoned} (hyear : FourDigits z.wall)
    (hzone : z.offset.natAbs < 1500) :
    parseZoned (formatRFC3339 z) = some ⟨truncSeconds z.instant, z.offset⟩ := by
  have hsecond : z.wall % 1000000000 = z.instant % 1000000000 := by
    unfold Zoned.wall
    omega
  rw [formatRFC3339, parseZoned_formatZoned (fun _ => []) (fun _ => 0) hyear
    fun _ _ s hs => readFraction_of_ends hs, readZone_formatZone hzone, Option.bind_some,
    if_pos rfl, hsecond]
  unfold Zoned.wall truncSeconds
  congr 2
  omega

/-- `time.RFC3339Nano` loses nothing. -/
theorem parseZoned_formatRFC3339Nano {z : Zoned} (hyear : FourDigits z.wall)
    (hzone : z.offset.natAbs < 1500) : parseZoned (formatRFC3339Nano z) = some z := by
  rw [formatRFC3339Nano, parseZoned_formatZoned formatFraction (fun nano => nano) hyear
    fun _ hnano s hs => readFraction_formatFraction hnano hs, readZone_formatZone hzone,
    Option.bind_some, if_pos rfl]
  have hinstant : z.wall - z.wall % 1000000000 + ((z.wall % 1000000000).toNat : Nat) -
      z.offset * 60000000000 = z.instant := by
    unfold Zoned.wall
    omega
  rw [hinstant]

/-- A zone of a day and an hour or more is written and not read. -/
theorem parseZoned_formatRFC3339_eq_none {z : Zoned} (hyear : FourDigits z.wall)
    (hzone : 1500 ≤ z.offset.natAbs) (hlimit : z.offset.natAbs < 6000) :
    parseZoned (formatRFC3339 z) = none := by
  rw [formatRFC3339, parseZoned_formatZoned (fun _ => []) (fun _ => 0) hyear
    fun _ _ s hs => readFraction_of_ends hs, readZone_formatZone_eq_none hzone hlimit]
  rfl

end Rdq.Foundation
