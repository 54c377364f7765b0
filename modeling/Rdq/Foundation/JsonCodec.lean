import Mathlib.Algebra.Group.Int.Defs
import Mathlib.Algebra.Group.Nat.Defs
import Rdq.Foundation.Base64
import Rdq.Foundation.JsonText
import Rdq.Foundation.Strconv

/-!
# Go values in JSON

How `encoding/json` writes and reads the values of a Go type. Reading starts from the
value that is already in place, since null and partial objects leave parts of it
alone. Writing may fail; which error a failed read reports is not kept. Writers and
readers are apart, since several encoders may write what one decoder reads.
-/

namespace Rdq.Foundation.JsonText

variable {ε α : Type}

/-- How values of a type are read. -/
structure Reader (α : Type) where
  zero : α
  read : Cst → α → Option α

/-- A value was written without whitespace, and this is what reading it gives in a fresh
place. -/
def Reader.Back (c : Reader α) (written : Except ε Cst) (y : Option α) : Prop :=
  ∃ v, written = .ok v ∧ v.strip = v ∧ c.read v c.zero = y

/-! ## Integers -/

theorem head?_formatNat {n : Nat} (hn : n ≠ 0) : (formatNat n).head? ≠ some '0' := by
  induction n using Nat.strongRecOn with
  | ind n ih =>
    rcases Nat.lt_or_ge n 10 with hlt | hge
    · have hdigit : ∀ m < 10, m ≠ 0 → m.digitChar ≠ '0' := by decide
      simpa [formatNat, Nat.toDigits_of_lt_base hlt] using hdigit n hlt hn
    · have hrest := ih (n / 10) (by omega) (by omega)
      obtain ⟨c, cs, hcs⟩ := List.exists_cons_of_ne_nil (formatNat_ne_nil (n / 10))
      simp only [formatNat] at hcs hrest ⊢
      rw [Nat.toDigits_of_base_le (by decide) hge, hcs]
      simpa [hcs] using hrest

theorem toNat_ascii_digit {c : Char} (h : c.isDigit = true) : (ascii c).toNat = c.toNat := by
  rw [ascii, UInt8.toNat_ofNat', Nat.mod_eq_of_lt (toNat_lt_of_isDigit h)]

theorem isDigit_ascii {c : Char} (h : c.isDigit = true) : isDigit (ascii c) = true := by
  have hbounds := Char.isDigit_iff_toNat.mp h
  simp only [isDigit, decide_eq_true_eq, UInt8.le_iff_toNat_le, toNat_ascii_digit h]
  exact hbounds

theorem isDigit_of_mem_asciiBytes {n : Nat} {d : UInt8} (h : d ∈ asciiBytes (formatNat n)) :
    isDigit d = true := by
  obtain ⟨c, hc, rfl⟩ := List.mem_map.mp h
  exact isDigit_ascii (isDigit_of_mem_formatNat hc)

theorem head?_asciiBytes {n : Nat} (hn : n ≠ 0) :
    (asciiBytes (formatNat n)).head? ≠ some (ascii '0') := by
  intro hhead
  obtain ⟨c, cs, hcs⟩ := List.exists_cons_of_ne_nil (formatNat_ne_nil n)
  have hdigit : c.isDigit = true := isDigit_of_mem_formatNat (n := n) (by simp [hcs])
  have hzero : ascii c = ascii '0' := by simpa [asciiBytes, hcs, ascii] using hhead
  have hnat : c.toNat = '0'.toNat := (toNat_ascii_digit hdigit).symm.trans
    (congrArg UInt8.toNat hzero)
  apply head?_formatNat hn
  rw [hcs, List.head?_cons, Char.ext (UInt32.toNat_inj.mp hnat)]

def Whole.ofNat (n : Nat) : Whole :=
  if hn : n = 0 then .zero
  else .digits ⟨asciiBytes (formatNat n), by simpa [asciiBytes] using formatNat_ne_nil n,
    fun _ hd => isDigit_of_mem_asciiBytes hd⟩ (head?_asciiBytes hn)

theorem Whole.text_ofNat (n : Nat) : (Whole.ofNat n).text = asciiBytes (formatNat n) := by
  unfold Whole.ofNat
  split
  · rename_i hn
    subst hn
    rfl
  · rfl

/-- A number without fraction and exponent. -/
def Number.ofInt (i : Int) : Number := ⟨decide (i < 0), .ofNat i.natAbs, none, none⟩

theorem Number.text_ofInt (i : Int) : (Number.ofInt i).text = asciiBytes (formatInt i) := by
  cases i with
  | ofNat n => simp [Number.text, Number.ofInt, Whole.text_ofNat, formatInt, fractionText,
      exponentText, asciiBytes, ascii]
  | negSucc n => simp [Number.text, Number.ofInt, Whole.text_ofNat, formatInt, fractionText,
      exponentText, asciiBytes, ascii]

/-- `ParseInt` of the text of a number. -/
def Number.int? (n : Number) : Option Int := parseInt (byteChars n.text)

@[simp] theorem Number.int?_ofInt (i : Int) : (Number.ofInt i).int? = some i := by
  have hsmall : ∀ c ∈ formatInt i, c.toNat < 256 := by
    intro c hc
    rcases mem_formatInt hc with rfl | hdigit
    · decide
    · exact toNat_lt_of_isDigit hdigit
  rw [Number.int?, Number.text_ofInt, byteChars_asciiBytes hsmall, parseInt_formatInt]

def readInt : Cst → Int64 → Option Int64
  | .null, x => some x
  | .num n, _ => n.int?.bind fun i =>
    if Int64.minValue.toInt ≤ i ∧ i ≤ Int64.maxValue.toInt then some (Int64.ofInt i) else none
  | _, _ => none

/-- An `int`. -/
def intReader : Reader Int64 := ⟨0, readInt⟩

def writeInt (x : Int64) : Except ε Cst := .ok (.num (.ofInt x.toInt))

theorem back_int (x : Int64) : intReader.Back (writeInt x : Except ε Cst) (some x) := by
  refine ⟨_, rfl, rfl, ?_⟩
  simp only [intReader, readInt, Number.int?_ofInt, Option.bind_some]
  rw [if_pos ⟨x.minValue_le_toInt, x.toInt_le⟩, Int64.ofInt_toInt]

/-! ## Strings and texts -/

def readString : Cst → String → Option String
  | .null, s => some s
  | .str ps, _ => some (unquote ps)
  | _, _ => none

/-- A `string`. -/
def stringReader : Reader String := ⟨"", readString⟩

/-- A string in quotes; `html` says whether the characters of HTML are escaped. -/
def writeString (html : Bool) (s : String) : Except ε Cst := .ok (.str (quote html s))

theorem back_string (html : Bool) (s : String) :
    stringReader.Back (writeString html s : Except ε Cst) (some s) :=
  ⟨_, rfl, rfl, congrArg some (unquote_quote html s)⟩

def readText (parseText : List Char → Option α) : Cst → α → Option α
  | .null, x => some x
  | .str ps, _ => parseText (unquote ps).toList
  | _, _ => none

/-- A value that reads itself from a text in quotes. Null leaves it alone. -/
def textReader (zero : α) (parseText : List Char → Option α) : Reader α :=
  ⟨zero, readText parseText⟩

def writeText (text : List Char) : Cst := .str (quote false (String.ofList text))

theorem back_text (zero : α) (parseText : List Char → Option α) (text : List Char) :
    (textReader zero parseText).Back (.ok (writeText text) : Except ε Cst) (parseText text) := by
  refine ⟨_, rfl, rfl, ?_⟩
  simp only [textReader, readText, writeText, unquote_quote, String.toList_ofList]

/-! ## Bytes -/

/-- A `[]byte`, and what its backing array holds behind it. -/
structure BackedBytes where
  bytes : Option (List UInt8) := none
  spare : List UInt8 := []

/-- A number of 8 bits. Null leaves the element alone. -/
def readByte : Cst → UInt8 → Option UInt8
  | .null, x => some x
  | .num n, _ => (parseNat (byteChars n.text)).bind fun k =>
    if k < 256 then some (UInt8.ofNat k) else none
  | _, _ => none

/-- Elements are read in place, so null keeps what the backing array held. -/
def readElems : List UInt8 → List Cst → Option (List UInt8)
  | _, [] => some []
  | old, v :: vs => do
    let x ← readByte v (old.headD 0)
    let xs ← readElems old.tail vs
    return x :: xs

/-- A text in base64, null for nil. An array of numbers is read too, into the bytes that are
already there unless it is empty. -/
def readBytes : Cst → BackedBytes → Option BackedBytes
  | .null, _ => some {}
  | .str ps, _ =>
    (Base64.decode Base64.stdEncoding (unquote ps).toList).map fun bytes => ⟨some bytes, []⟩
  | v, x => v.items?.bind fun vs =>
    let backing := if vs.isEmpty then [] else x.bytes.getD [] ++ x.spare
    (readElems backing vs).map fun bytes => ⟨some bytes, backing.drop bytes.length⟩

def bytesReader : Reader BackedBytes := ⟨{}, readBytes⟩

def writeBytes : Option (List UInt8) → Except ε Cst
  | none => .ok .null
  | some bytes => .ok (writeText (Base64.encode Base64.stdEncoding bytes))

theorem back_bytes (x : Option (List UInt8)) :
    bytesReader.Back (writeBytes x : Except ε Cst) (some { bytes := x }) := by
  cases x with
  | none => exact ⟨_, rfl, rfl, rfl⟩
  | some bytes =>
    refine ⟨_, rfl, rfl, ?_⟩
    simp only [bytesReader, readBytes, writeText, unquote_quote, String.toList_ofList,
      Base64.decode_encode, Option.map_some]

/-! ## Raw values -/

/-- What the encoder makes of the text a value writes for itself: the text of one value,
without insignificant whitespace. -/
def embed (post : Cst → Cst) (text : Bytes) : Option Cst :=
  (parse text).map fun d => post d.value.strip

theorem embed_text (post : Cst → Cst) (t : Cst) : embed post t.text = some (post t.strip) := by
  rw [embed, parse_value]
  rfl

theorem embed_nil (post : Cst → Cst) : embed post [] = none := rfl

/-- A `json.RawMessage`: whatever text is read. -/
def rawReader : Reader Bytes := ⟨[], fun v _ => some v.text⟩

/-- Null for nil, and the text itself otherwise. -/
def writeRaw (post : Cst → Cst) (invalid : ε) (text : Bytes) : Except ε Cst :=
  if text = [] then .ok .null
  else match embed post text with
    | some v => .ok v
    | none => .error invalid

theorem back_raw {post : Cst → Cst} (invalid : ε) {text : Bytes} {v : Cst}
    (h : embed post text = some v) (hstrip : v.strip = v) :
    rawReader.Back (writeRaw post invalid text) (some v.text) := by
  have hne : text ≠ [] := by
    rintro rfl
    rw [embed_nil] at h
    cases h
  refine ⟨v, ?_, hstrip, rfl⟩
  simp only [writeRaw, if_neg hne, h]

/-! ## Pointers and slices -/

def readPointer (c : Reader α) : Cst → Option α → Option (Option α)
  | .null, _ => some none
  | v, x => (c.read v (x.getD c.zero)).map some

/-- A pointer. A value is read into what it already points to. -/
def pointerReader (c : Reader α) : Reader (Option α) := ⟨none, readPointer c⟩

/-- Null for nil. -/
def writePointer (write : α → Except ε Cst) : Option α → Except ε Cst
  | none => .ok .null
  | some x => write x

theorem readPointer_of_ne_null (c : Reader α) {v : Cst} (hv : v ≠ .null) (x : Option α) :
    readPointer c v x = (c.read v (x.getD c.zero)).map some := by
  cases v with
  | null => exact absurd rfl hv
  | _ => rfl

theorem readPointer_cases {c : Reader α} {v : Cst} {x y : Option α}
    (h : readPointer c v x = some y) :
    y = none ∨ ∃ z, y = some z ∧ c.read v (x.getD c.zero) = some z := by
  unfold readPointer at h
  split at h
  · cases h
    exact Or.inl rfl
  · obtain ⟨z, hz, rfl⟩ := Option.map_eq_some_iff.mp h
    exact Or.inr ⟨z, rfl, hz⟩

theorem back_none (c : Reader α) (write : α → Except ε Cst) :
    (pointerReader c).Back (writePointer write none) (some none) :=
  ⟨_, rfl, rfl, rfl⟩

/-- A pointer to a value that is not written as null. -/
theorem back_some {c : Reader α} {write : α → Except ε Cst} {x : α} {y : Option α}
    (h : c.Back (write x) y) (hnull : write x ≠ .ok .null) :
    (pointerReader c).Back (writePointer write (some x)) (y.map some) := by
  obtain ⟨v, hv, hstrip, hread⟩ := h
  have hne : v ≠ .null := by
    rintro rfl
    exact hnull hv
  refine ⟨v, hv, hstrip, ?_⟩
  calc (pointerReader c).read v (pointerReader c).zero
      = (c.read v c.zero).map some := readPointer_of_ne_null c hne none
    _ = y.map some := by rw [hread]

def readSlice (c : Reader α) : Cst → List α → Option (List α)
  | .null, _ => some []
  | v, _ => v.items?.bind fun vs => vs.mapM fun v => c.read v c.zero

/-- A slice. Every element is read into a fresh place. -/
def sliceReader (c : Reader α) : Reader (List α) := ⟨[], readSlice c⟩

/-- Null for nil. -/
def writeSlice (write : α → Except ε Cst) : List α → Except ε Cst
  | [] => .ok .null
  | x :: xs => ((x :: xs).mapM write).map Cst.array

theorem Cst.array_ne_null (vs : List Cst) : Cst.array vs ≠ .null := by
  cases vs with
  | nil => exact fun h => by cases h
  | cons v vs => exact fun h => by cases h

theorem Cst.object_ne_null (ms : List (List Piece × Cst)) : Cst.object ms ≠ .null := by
  cases ms with
  | nil => exact fun h => by cases h
  | cons m ms => exact fun h => by cases h

theorem readSlice_array (c : Reader α) (vs : List Cst) (xs : List α) :
    readSlice c (Cst.array vs) xs = vs.mapM fun v => c.read v c.zero := by
  have hitems := Cst.items?_array vs
  have hne := Cst.array_ne_null vs
  generalize Cst.array vs = v at hitems hne
  cases v with
  | null => exact absurd rfl hne
  | _ => simp only [readSlice, hitems, Option.bind_some]

/-- Every element of a slice that was read was read from some value. -/
theorem mem_readSlice {c : Reader α} {v : Cst} {xs ys : List α} (h : readSlice c v xs = some ys)
    {y : α} (hy : y ∈ ys) : ∃ u, c.read u c.zero = some y := by
  unfold readSlice at h
  split at h
  · cases h
    cases hy
  · obtain ⟨vs, -, hvs⟩ := Option.bind_eq_some_iff.mp h
    clear h
    induction vs generalizing ys with
    | nil =>
      cases hvs
      cases hy
    | cons u vs ih =>
      rw [List.mapM_cons] at hvs
      obtain ⟨z, hz, hrest⟩ := Option.bind_eq_some_iff.mp hvs
      obtain ⟨zs, hzs, hcons⟩ := Option.bind_eq_some_iff.mp hrest
      cases hcons
      rcases List.mem_cons.mp hy with rfl | hy
      · exact ⟨u, hz⟩
      · exact ih hy hzs

theorem mapM_write {c : Reader α} {write : α → Except ε Cst} {f : α → Option α} {xs : List α}
    (h : ∀ x ∈ xs, c.Back (write x) (f x)) :
    ∃ vs, xs.mapM write = .ok vs ∧ (∀ v ∈ vs, v.strip = v) ∧
      (vs.mapM fun v => c.read v c.zero) = xs.mapM f := by
  induction xs with
  | nil => exact ⟨[], rfl, by simp, rfl⟩
  | cons x xs ih =>
    obtain ⟨⟨v, hv, hstrip, hread⟩, hrest⟩ := List.forall_mem_cons.mp h
    obtain ⟨vs, hvs, hstrips, hreads⟩ := ih hrest
    refine ⟨v :: vs, ?_, List.forall_mem_cons.mpr ⟨hstrip, hstrips⟩, ?_⟩
    · rw [List.mapM_cons, hv, hvs]
      rfl
    · rw [List.mapM_cons, List.mapM_cons, hread, hreads]

/-- A slice is read back element by element. -/
theorem back_slice {c : Reader α} {write : α → Except ε Cst} {f : α → Option α} {xs : List α}
    (h : ∀ x ∈ xs, c.Back (write x) (f x)) :
    (sliceReader c).Back (writeSlice write xs) (xs.mapM f) := by
  cases xs with
  | nil => exact ⟨_, rfl, rfl, rfl⟩
  | cons x xs =>
    obtain ⟨vs, hvs, hstrips, hreads⟩ := mapM_write h
    refine ⟨Cst.array vs, congrArg (Except.map Cst.array) hvs, ?_, ?_⟩
    · rw [Cst.strip_array, List.map_congr_left hstrips, List.map_id']
    rw [← hreads]
    exact readSlice_array c vs _

end Rdq.Foundation.JsonText
