import Rdq.Config.Merge
import Rdq.Foundation.ByteText
import Rdq.Foundation.GoStrings
import Rdq.Foundation.JsonCodec

/-!
# The scalar types of a configuration in JSON

`core/config/units.go`: durations are whole milliseconds in JSON and nanoseconds inside,
sizes are bytes, a rate is a text such as `100/s`, and a status is a code or a class.

## Implementation notes

The factor between the JSON form of a duration and its value is a parameter of the
reader, so that a document can also be read with its numbers as they are written.
-/

namespace Rdq.Config

open Foundation JsonText
open Foundation.ByteText (cut trimSpace isGraph cut_append_cons trimSpace_of_isGraph
  trimSpace_of_forall mem_asciiBytes_formatInt byteChars_asciiBytes_formatInt)
open Engine (Rate)

variable {ε : Type}

/-! ## Durations -/

def millisecond : Int64 := 1000000

/-- `time.Duration(ms) * time.Millisecond`. -/
def ofMillis (ms : Int64) : Int64 := ms * millisecond

/-- `Duration.UnmarshalJSON`. -/
def durationReader (ofNumber : Int64 → Int64) : Reader Int64 :=
  ⟨0, fun v _ => (readInt v 0).map ofNumber⟩

/-- `Duration.MarshalJSON`. -/
def writeDuration (d : Int64) : Except ε Cst := .ok (.num (.ofInt (d / millisecond).toInt))

/-- Dividing and multiplying again drops what is below the millisecond. -/
theorem toInt_wholeMillis (d : Int64) :
    (d / millisecond * millisecond).toInt = d.toInt - d.toInt.tmod 1000000 := by
  have hms : millisecond.toInt = 1000000 := rfl
  have hdiv : (d / millisecond).toInt = d.toInt.tdiv 1000000 :=
    Int64.toInt_div_of_ne_right d millisecond (by decide)
  have hsplit := Int.tmod_add_mul_tdiv d.toInt 1000000
  have hlow := d.le_toInt
  have hhigh := d.toInt_lt
  have hmod : d.toInt.tdiv 1000000 * 1000000 = d.toInt - d.toInt.tmod 1000000 := by omega
  rw [Int64.toInt_mul, hdiv, hms, hmod]
  have hbounds : -2 ^ 63 ≤ d.toInt - d.toInt.tmod 1000000 ∧
      d.toInt - d.toInt.tmod 1000000 < 2 ^ 63 := by
    rcases Int.le_total 0 d.toInt with hd | hd
    · have hq : 0 ≤ d.toInt.tdiv 1000000 := Int.tdiv_nonneg hd (by decide)
      have hr : 0 ≤ d.toInt.tmod 1000000 := Int.tmod_nonneg _ hd
      omega
    · have hq : 0 ≤ (-d.toInt).tdiv 1000000 := Int.tdiv_nonneg (by omega) (by decide)
      have hr : 0 ≤ (-d.toInt).tmod 1000000 := Int.tmod_nonneg _ (by omega)
      rw [Int.neg_tdiv] at hq
      rw [Int.neg_tmod] at hr
      omega
  apply Int.bmod_eq_of_le
  · omega
  · omega

theorem wholeMillis_iff (d : Int64) :
    d % millisecond = 0 ↔ d / millisecond * millisecond = d := by
  have hmod : (d % millisecond).toInt = d.toInt.tmod 1000000 := Int64.toInt_mod d millisecond
  rw [← Int64.toInt_inj, ← Int64.toInt_inj, hmod, toInt_wholeMillis]
  have hzero : (0 : Int64).toInt = 0 := rfl
  omega

/-! ## Rates -/

/-- `ratePeriods`. -/
def ratePeriods : List (Char × Int64) :=
  [('s', 1000000000), ('m', 60000000000), ('h', 3600000000000)]

/-- `Rate.String`. -/
def rateText (r : Rate) : List Char :=
  match ratePeriods.find? fun x => x.2 = r.per with
  | some (suffix, _) => formatInt r.count.toInt ++ ['/', suffix]
  | none => formatInt r.count.toInt ++ '/' :: durationText r.per.toInt

def parseRate (text : Bytes) : Option Rate := do
  let (front, period) ← cut (ascii '/') text
  let count ← parseInt64 (byteChars (trimSpace front))
  let per ← ratePeriods.find? fun x => [ascii x.1] = trimSpace period
  return ⟨count, per.2⟩

/-- `Rate.UnmarshalJSON`. -/
def rateReader : Reader Rate :=
  ⟨⟨0, 0⟩, fun v _ => (readString v "").bind fun s => parseRate (trimSpace (bytesOf s))⟩

/-- `Rate.MarshalJSON`. -/
def writeRate (r : Rate) : Except ε Cst := writeString true (String.ofList (rateText r))

/-! ## Statuses -/

/-- `validStatusClass`. -/
def validStatusClass (text : String) : Bool :=
  match text.toList with
  | [c, 'x', 'x'] => decide ('1' ≤ c ∧ c ≤ '5')
  | _ => false

/-- `StatusMatcher.UnmarshalJSON`. -/
def readStatus (v : Cst) : Option StatusMatcher :=
  match readInt v 0 with
  | some code => if code < 100 ∨ 599 < code then none else some ⟨code, ""⟩
  | none => (readString v "").bind fun s => if validStatusClass s then some ⟨0, s⟩ else none

def statusReader : Reader StatusMatcher := ⟨⟨0, ""⟩, fun v _ => readStatus v⟩

/-- `StatusMatcher.MarshalJSON`. -/
def writeStatus (m : StatusMatcher) : Except ε Cst :=
  if 0 < m.code then writeInt m.code else writeString true m.statusClass

/-! ## What is read -/

/-- The period of the rate has a suffix. -/
def RateParsed (r : Rate) : Prop := ∃ x ∈ ratePeriods, x.2 = r.per

/-- Exactly one of code and class is set, and it is a valid one. -/
def StatusParsed (m : StatusMatcher) : Prop :=
  (100 ≤ m.code ∧ m.code ≤ 599 ∧ m.statusClass = "") ∨
    (m.code = 0 ∧ validStatusClass m.statusClass = true)

theorem rateParsed_of_parseRate {text : Bytes} {r : Rate} (h : parseRate text = some r) :
    RateParsed r := by
  obtain ⟨parts, -, h⟩ := Option.bind_eq_some_iff.mp h
  obtain ⟨count, -, h⟩ := Option.bind_eq_some_iff.mp h
  obtain ⟨per, hper, h⟩ := Option.bind_eq_some_iff.mp h
  cases h
  exact ⟨per, List.mem_of_find?_eq_some hper, rfl⟩

theorem statusParsed_of_readStatus {v : Cst} {m : StatusMatcher} (h : readStatus v = some m) :
    StatusParsed m := by
  unfold readStatus at h
  split at h
  · split_ifs at h with hcode
    cases h
    rw [not_or, Int64.not_lt, Int64.not_lt] at hcode
    exact Or.inl ⟨hcode.1, hcode.2, rfl⟩
  · obtain ⟨s, -, h⟩ := Option.bind_eq_some_iff.mp h
    split_ifs at h with hclass
    cases h
    exact Or.inr ⟨rfl, hclass⟩

/-! ## Round trips -/

theorem back_duration (d : Int64) :
    (durationReader ofMillis).Back (writeDuration d : Except ε Cst)
      (some (d / millisecond * millisecond)) := by
  obtain ⟨v, hv, hstrip, hread⟩ := back_int (ε := ε) (d / millisecond)
  exact ⟨v, hv, hstrip, congrArg (Option.map ofMillis) hread⟩

theorem rateText_eq {r : Rate} {suffix : Char} {per : Int64}
    (h : ratePeriods.find? (fun x => x.2 = r.per) = some (suffix, per)) :
    rateText r = formatInt r.count.toInt ++ ['/', suffix] := by
  unfold rateText
  rw [h]

/-- The suffix of a period is read as that period. -/
theorem find?_suffix {x : Char × Int64} (hx : x ∈ ratePeriods) :
    isGraph (ascii x.1) = true ∧ x.1.toNat < 128 ∧
      (ratePeriods.find? fun y => [ascii y.1] = [ascii x.1]) = some x := by
  have htable : ∀ x ∈ ratePeriods, isGraph (ascii x.1) = true ∧ x.1.toNat < 128 ∧
      (ratePeriods.find? fun y => [ascii y.1] = [ascii x.1]) = some x := by decide
  exact htable x hx

theorem parseRate_rateText {r : Rate} (h : RateParsed r) :
    parseRate (trimSpace (bytesOf (String.ofList (rateText r)))) = some r := by
  obtain ⟨y, hy, hyper⟩ := h
  obtain ⟨⟨suffix, per⟩, hfind⟩ := Option.isSome_iff_exists.mp
    (List.find?_isSome.mpr ⟨y, hy, by simpa using hyper⟩ :
      (ratePeriods.find? fun x => x.2 = r.per).isSome = true)
  have hper : per = r.per := by simpa using List.find?_some hfind
  obtain ⟨hgraph, hascii, hsuffix⟩ := find?_suffix (List.mem_of_find?_eq_some hfind)
  have hbytes : bytesOf (String.ofList (rateText r)) =
      asciiBytes (formatInt r.count.toInt) ++ ascii '/' :: [ascii suffix] := by
    rw [rateText_eq hfind, bytesOf_ofList]
    · exact List.map_append
    · simp only [List.mem_append, List.mem_cons, List.not_mem_nil, or_false]
      rintro c (hc | rfl | rfl)
      · exact toNat_lt_of_mem_formatInt hc
      · decide
      · exact hascii
  obtain ⟨b, count, hcount⟩ := List.exists_cons_of_ne_nil
    (mt List.map_eq_nil_iff.mp (formatInt_ne_nil r.count.toInt) :
      asciiBytes (formatInt r.count.toInt) ≠ [])
  have hnum : ∀ c ∈ b :: count, isGraph c = true ∧ c < 128 ∧ c ≠ 44 ∧ c ≠ 46 ∧ c ≠ 47 :=
    fun c hc => mem_asciiBytes_formatInt (hcount ▸ hc)
  have hslash : ascii '/' ∉ b :: count := fun hmem => (hnum _ hmem).2.2.2.2 rfl
  have htrim : trimSpace (b :: count ++ ascii '/' :: [ascii suffix]) =
      b :: count ++ ascii '/' :: [ascii suffix] :=
    trimSpace_of_isGraph (t := b :: count ++ [ascii '/']) (by simp) (hnum b List.mem_cons_self).1
      hgraph
  rw [hbytes, hcount, htrim, parseRate, cut_append_cons _ _ hslash]
  simp only [Option.bind_eq_bind, Option.bind_some]
  rw [trimSpace_of_forall fun c hc => (hnum c hc).1, ← hcount, byteChars_asciiBytes_formatInt,
    parseInt64_formatInt, trimSpace_of_forall (s := []) (by simpa using hgraph), hsuffix, hper]
  rfl

theorem back_rate {r : Rate} (h : RateParsed r) :
    rateReader.Back (writeRate r : Except ε Cst) (some r) := by
  obtain ⟨v, hv, hstrip, hread⟩ := back_string (ε := ε) true (String.ofList (rateText r))
  refine ⟨v, hv, hstrip, ?_⟩
  change ((readString v "").bind fun s => parseRate (trimSpace (bytesOf s))) = _
  have hstring : readString v "" = some (String.ofList (rateText r)) := hread
  rw [hstring, Option.bind_some, parseRate_rateText h]

theorem back_status {m : StatusMatcher} (h : StatusParsed m) :
    statusReader.Back (writeStatus m : Except ε Cst) (some m) := by
  rcases m with ⟨code, statusClass⟩
  rcases h with ⟨hlow, hhigh, hclass⟩ | ⟨hcode, hclass⟩
  · dsimp only at hlow hhigh hclass
    subst hclass
    have hpos : 0 < code := Int64.lt_of_lt_of_le (by decide) hlow
    obtain ⟨v, hv, hstrip, hread⟩ := back_int (ε := ε) code
    refine ⟨v, ?_, hstrip, ?_⟩
    · rw [writeStatus, if_pos hpos, hv]
    · have hint : readInt v 0 = some code := hread
      have hrange : ¬(code < 100 ∨ 599 < code) := by
        rw [not_or, Int64.not_lt, Int64.not_lt]
        exact ⟨hlow, hhigh⟩
      change readStatus v = _
      rw [readStatus, hint]
      exact if_neg hrange
  · dsimp only at hcode hclass
    subst hcode
    have hzero : ¬(0 : Int64) < 0 := by decide
    refine ⟨_, by rw [writeStatus, if_neg hzero]; rfl, rfl, ?_⟩
    change ((some (unquote (quote true statusClass))).bind fun s =>
      if validStatusClass s then some (⟨0, s⟩ : StatusMatcher) else none) = _
    rw [unquote_quote, Option.bind_some, if_pos hclass]

end Rdq.Config
