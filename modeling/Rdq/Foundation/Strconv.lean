import Mathlib.Algebra.Group.Int.Defs
import Mathlib.Data.Char
import Mathlib.Tactic.Common

/-!
# Numbers and strings as text

Decimal numbers as Go's `strconv` writes and reads them, and strings as their
bytes. A byte list is read as a text with one character per byte, which is what
comparing it byte by byte with an ASCII text sees of it.
-/

namespace Rdq.Foundation

/-! ## Decimal numbers -/

/-- `FormatUint`. -/
def formatNat (n : Nat) : List Char := Nat.toDigits 10 n

/-- `ParseUint`: one digit or more, and nothing else. -/
def parseNat (text : List Char) : Option Nat :=
  if text ≠ [] ∧ text.all Char.isDigit then some (Nat.ofDigitChars 10 text 0) else none

/-- `FormatInt`. -/
def formatInt : Int → List Char
  | .ofNat n => formatNat n
  | .negSucc n => '-' :: formatNat (n + 1)

/-- `ParseInt`, which takes either sign. -/
def parseInt : List Char → Option Int
  | '-' :: text => (parseNat text).map fun n => -(n : Int)
  | '+' :: text => (parseNat text).map fun n => (n : Int)
  | text => (parseNat text).map fun n => (n : Int)

theorem isDigit_of_mem_formatNat {n : Nat} {c : Char} (h : c ∈ formatNat n) :
    c.isDigit = true :=
  Nat.isDigit_of_mem_toDigits (by decide) (by decide) h

theorem formatNat_ne_nil (n : Nat) : formatNat n ≠ [] := Nat.toDigits_ne_nil

@[simp] theorem parseNat_formatNat (n : Nat) : parseNat (formatNat n) = some n := by
  have hdigits : (formatNat n).all Char.isDigit = true := by
    rw [List.all_eq_true]
    intro c hc
    exact isDigit_of_mem_formatNat hc
  rw [parseNat, if_pos ⟨formatNat_ne_nil n, hdigits⟩, formatNat,
    Nat.ofDigitChars_ten_toDigits]

/-- A text that starts with a digit has no sign. -/
theorem parseInt_of_digit {c : Char} {text : List Char} (h : c.isDigit = true) :
    parseInt (c :: text) = (parseNat (c :: text)).map fun n => (n : Int) := by
  unfold parseInt
  split
  · rename_i heq
    obtain ⟨rfl, -⟩ := List.cons.inj heq
    cases h
  · rename_i heq
    obtain ⟨rfl, -⟩ := List.cons.inj heq
    cases h
  · rfl

@[simp] theorem parseInt_formatInt (i : Int) : parseInt (formatInt i) = some i := by
  cases i with
  | ofNat n =>
    obtain ⟨c, text, htext⟩ := List.exists_cons_of_ne_nil (formatNat_ne_nil n)
    have hc : c.isDigit = true := isDigit_of_mem_formatNat (n := n) (by simp [htext])
    have hparse := parseNat_formatNat n
    rw [htext] at hparse
    rw [formatInt, htext, parseInt_of_digit hc, hparse]
    rfl
  | negSucc n =>
    simp only [formatInt, parseInt, parseNat_formatNat]
    rfl

/-- The characters of a number: digits, and a minus sign in front. -/
theorem mem_formatInt {i : Int} {c : Char} (h : c ∈ formatInt i) :
    c = '-' ∨ c.isDigit = true := by
  cases i with
  | ofNat n => exact Or.inr (isDigit_of_mem_formatNat h)
  | negSucc n =>
    rcases List.mem_cons.mp h with rfl | h
    · exact Or.inl rfl
    · exact Or.inr (isDigit_of_mem_formatNat h)

theorem toNat_lt_of_mem_formatInt {i : Int} {c : Char} (h : c ∈ formatInt i) : c.toNat < 128 := by
  rcases mem_formatInt h with rfl | hdigit
  · decide
  · exact Nat.lt_of_le_of_lt (Char.isDigit_iff_toNat.mp hdigit).2 (by decide)

theorem formatInt_ne_nil (i : Int) : formatInt i ≠ [] := by
  cases i with
  | ofNat n => exact formatNat_ne_nil n
  | negSucc n => exact List.cons_ne_nil _ _

/-- The number in 64 bits, unless it is out of their range. -/
def inInt64 (i : Int) : Option Int64 :=
  if Int64.minValue.toInt ≤ i ∧ i ≤ Int64.maxValue.toInt then some (Int64.ofInt i) else none

/-- `ParseInt` in 64 bits. -/
def parseInt64 (text : List Char) : Option Int64 := (parseInt text).bind inInt64

theorem parseInt64_formatInt (x : Int64) : parseInt64 (formatInt x.toInt) = some x := by
  rw [parseInt64, parseInt_formatInt, Option.bind_some, inInt64,
    if_pos ⟨x.minValue_le_toInt, x.toInt_le⟩, Int64.ofInt_toInt]

theorem parseInt64_formatInt_of_range {i : Int} (h : -2 ^ 63 ≤ i ∧ i < 2 ^ 63) :
    (Int64.ofInt i).toInt = i ∧ parseInt64 (formatInt i) = some (Int64.ofInt i) := by
  have hback : (Int64.ofInt i).toInt = i := Int64.toInt_ofInt_of_le h.1 h.2
  have hparse := parseInt64_formatInt (Int64.ofInt i)
  rw [hback] at hparse
  exact ⟨hback, hparse⟩

/-! ## Bytes -/

/-- The bytes of a string. -/
def bytesOf (s : String) : List UInt8 := s.toByteArray.data.toList

/-- The string of its bytes; none when they are not UTF-8. -/
def ofBytes? (bytes : List UInt8) : Option String := String.fromUTF8? ⟨bytes.toArray⟩

@[simp] theorem ofBytes?_bytesOf (s : String) : ofBytes? (bytesOf s) = some s := by
  have h : (⟨(bytesOf s).toArray⟩ : ByteArray) = s.toByteArray := rfl
  rw [ofBytes?, h, String.fromUTF8?, dif_pos s.isValidUTF8]
  rfl

theorem bytesOf_injective : Function.Injective bytesOf := by
  intro s t h
  have hread : ofBytes? (bytesOf s) = ofBytes? (bytesOf t) := congrArg ofBytes? h
  rw [ofBytes?_bytesOf, ofBytes?_bytesOf] at hread
  exact Option.some.inj hread

@[simp] theorem bytesOf_append (s t : String) : bytesOf (s ++ t) = bytesOf s ++ bytesOf t := by
  simp only [bytesOf, String.toByteArray_append, ByteArray.data_append, Array.toList_append]

/-- The bytes of an ASCII text. -/
def asciiBytes (text : List Char) : List UInt8 := text.map fun c => UInt8.ofNat c.toNat

/-- A byte list read as text, one character per byte. -/
def byteChars (bytes : List UInt8) : List Char := bytes.map fun b => Char.ofNat b.toNat

@[simp] theorem byteChars_append (xs ys : List UInt8) :
    byteChars (xs ++ ys) = byteChars xs ++ byteChars ys := List.map_append

theorem byteChars_asciiBytes {text : List Char} (h : ∀ c ∈ text, c.toNat < 256) :
    byteChars (asciiBytes text) = text := by
  have hchar : ∀ c ∈ text, Char.ofNat (UInt8.ofNat c.toNat).toNat = c := by
    intro c hc
    rw [UInt8.toNat_ofNat', Nat.mod_eq_of_lt (h c hc), Char.ofNat_toNat]
  calc byteChars (asciiBytes text)
      = text.map fun c => Char.ofNat (UInt8.ofNat c.toNat).toNat := List.map_map
    _ = text.map id := List.map_congr_left hchar
    _ = text := List.map_id text

/-- The bytes of an ASCII string are its characters. -/
theorem bytesOf_ofList {text : List Char} (h : ∀ c ∈ text, c.toNat < 128) :
    bytesOf (String.ofList text) = asciiBytes text := by
  have hchar : ∀ c ∈ text, String.utf8EncodeChar c = [UInt8.ofNat c.toNat] := by
    intro c hc
    have hsize : c.utf8Size = 1 := Char.utf8Size_eq_one_iff.mpr (Nat.le_of_lt_succ (h c hc))
    exact String.utf8EncodeChar_eq_singleton hsize
  have hbytes : bytesOf (String.ofList text) = text.flatMap String.utf8EncodeChar := by
    rw [bytesOf, String.toByteArray_ofList, List.utf8Encode]
    simp
  rw [hbytes, List.flatMap_def, List.map_congr_left hchar, ← List.flatMap_def,
    ← List.map_eq_flatMap, asciiBytes]

theorem toNat_ofNat_of_lt {n : Nat} (h : n < 256) : (Char.ofNat n).toNat = n := by
  have hvalid : n.isValidChar := Or.inl (by omega)
  rw [Char.ofNat, dif_pos hvalid]
  rfl

@[simp] theorem asciiBytes_byteChars (bytes : List UInt8) :
    asciiBytes (byteChars bytes) = bytes := by
  have hbyte : ∀ b ∈ bytes, UInt8.ofNat (Char.ofNat b.toNat).toNat = b := by
    intro b _
    rw [toNat_ofNat_of_lt b.toNat_lt, UInt8.ofNat_toNat]
  calc asciiBytes (byteChars bytes)
      = bytes.map fun b => UInt8.ofNat (Char.ofNat b.toNat).toNat := List.map_map
    _ = bytes.map id := List.map_congr_left hbyte
    _ = bytes := List.map_id bytes

/-- A list is cut in one way only at the first separator. -/
theorem append_cons_inj {α : Type} {sep : α} {xs ys zs ws : List α} (hx : sep ∉ xs) (hy : sep ∉ ys)
    (h : xs ++ sep :: zs = ys ++ sep :: ws) : xs = ys ∧ zs = ws := by
  induction xs generalizing ys with
  | nil =>
    cases ys with
    | nil => exact ⟨rfl, List.tail_eq_of_cons_eq h⟩
    | cons y ys =>
      have hhead : sep = y := List.head_eq_of_cons_eq h
      exact absurd (hhead ▸ List.mem_cons_self) hy
  | cons x xs ih =>
    cases ys with
    | nil =>
      have hhead : x = sep := List.head_eq_of_cons_eq h
      exact absurd (hhead ▸ List.mem_cons_self) hx
    | cons y ys =>
      obtain ⟨hxs, hzs⟩ := ih (List.not_mem_of_not_mem_cons hx)
        (List.not_mem_of_not_mem_cons hy) (List.tail_eq_of_cons_eq h)
      exact ⟨congrArg₂ List.cons (List.head_eq_of_cons_eq h) hxs, hzs⟩

/-- The rest of a text after a text it starts with (`HasPrefix` and the slice after it). -/
def cutFront (front text : List Char) : Option (List Char) :=
  if front.isPrefixOf text then some (text.drop front.length) else none

@[simp] theorem cutFront_append (front text : List Char) :
    cutFront front (front ++ text) = some text := by
  rw [cutFront, if_pos (List.isPrefixOf_iff_prefix.mpr (List.prefix_append front text)),
    List.drop_left]

theorem toNat_lt_of_isDigit {c : Char} (h : c.isDigit = true) : c.toNat < 256 := by
  have hle : c.toNat ≤ 57 := (Char.isDigit_iff_toNat.mp h).2
  omega

end Rdq.Foundation
