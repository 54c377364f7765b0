import Mathlib.Data.Fin.VecNotation
import Rdq.Foundation.BigEndian
import Rdq.Foundation.Calendar

/-!
# ULIDs

`core/envelope/codec.go`: an id of 16 bytes, of which the first six hold the Unix
milliseconds of its creation, and its text of 26 digits of Crockford's alphabet.

The source spells out both directions of the text codec digit by digit and byte by
byte. Apart from the first byte, with its two digits, both tables consist of three equal
parts, each of five bytes and eight digits. A part keeps the value of the numeral
(`bigEndian_groupDigits`, `bigEndian_groupBytes`), and everything else is said about
values.
-/

namespace Rdq

open Foundation

/-- `ulidEnc`: Crockford's base 32 alphabet. -/
def ulidEnc : List UInt8 :=
  ['0', '1', '2', '3', '4', '5', '6', '7', '8', '9', 'A', 'B', 'C', 'D', 'E', 'F', 'G', 'H', 'J',
    'K', 'M', 'N', 'P', 'Q', 'R', 'S', 'T', 'V', 'W', 'X', 'Y', 'Z'].map Char.toUInt8

/-- `ulidDec`, filled as `init` does: the value of each digit, 0xFF elsewhere. -/
def ulidDec : UInt8 → UInt8 :=
  (List.range ulidEnc.length).foldl
    (fun table i => Function.update table (ulidEnc.getD i 0) (UInt8.ofNat i)) fun _ => 0xFF

/-- `ulidEnc[i]`. -/
def ulidDigit (i : UInt8) : UInt8 := ulidEnc.getD i.toNat 0

/-- The bytes of an id. -/
def ulidSize : Nat := 16

instance : NeZero ulidSize := ⟨by decide⟩

/-- `ULID`: an array of bytes. -/
abbrev ULID := Fin ulidSize → UInt8

namespace ULID

/-- The 128-bit number of an id. -/
def toNat (id : ULID) : Nat := bigEndian 256 ((List.ofFn id).map UInt8.toNat)

/-- The indices into `ulidEnc` of `ULID.String`, from `dst[0]` to `dst[25]`. -/
def digits (id : ULID) : List UInt8 :=
  [(id 0 &&& 224) >>> 5,
    id 0 &&& 31,
    (id 1 &&& 248) >>> 3,
    (id 1 &&& 7) <<< 2 ||| (id 2 &&& 192) >>> 6,
    (id 2 &&& 62) >>> 1,
    (id 2 &&& 1) <<< 4 ||| (id 3 &&& 240) >>> 4,
    (id 3 &&& 15) <<< 1 ||| (id 4 &&& 128) >>> 7,
    (id 4 &&& 124) >>> 2,
    (id 4 &&& 3) <<< 3 ||| (id 5 &&& 224) >>> 5,
    id 5 &&& 31,
    (id 6 &&& 248) >>> 3,
    (id 6 &&& 7) <<< 2 ||| (id 7 &&& 192) >>> 6,
    (id 7 &&& 62) >>> 1,
    (id 7 &&& 1) <<< 4 ||| (id 8 &&& 240) >>> 4,
    (id 8 &&& 15) <<< 1 ||| (id 9 &&& 128) >>> 7,
    (id 9 &&& 124) >>> 2,
    (id 9 &&& 3) <<< 3 ||| (id 10 &&& 224) >>> 5,
    id 10 &&& 31,
    (id 11 &&& 248) >>> 3,
    (id 11 &&& 7) <<< 2 ||| (id 12 &&& 192) >>> 6,
    (id 12 &&& 62) >>> 1,
    (id 12 &&& 1) <<< 4 ||| (id 13 &&& 240) >>> 4,
    (id 13 &&& 15) <<< 1 ||| (id 14 &&& 128) >>> 7,
    (id 14 &&& 124) >>> 2,
    (id 14 &&& 3) <<< 3 ||| (id 15 &&& 224) >>> 5,
    id 15 &&& 31]

/-- `ULID.String`. -/
def string (id : ULID) : List UInt8 := id.digits.map ulidDigit

/-- The bytes `ParseULID` puts together from the values of the 26 digits. -/
def ofDigits (v : Fin 26 → UInt8) : ULID :=
  ![v 0 <<< 5 ||| v 1,
    v 2 <<< 3 ||| v 3 >>> 2,
    v 3 <<< 6 ||| v 4 <<< 1 ||| v 5 >>> 4,
    v 5 <<< 4 ||| v 6 >>> 1,
    v 6 <<< 7 ||| v 7 <<< 2 ||| v 8 >>> 3,
    v 8 <<< 5 ||| v 9,
    v 10 <<< 3 ||| v 11 >>> 2,
    v 11 <<< 6 ||| v 12 <<< 1 ||| v 13 >>> 4,
    v 13 <<< 4 ||| v 14 >>> 1,
    v 14 <<< 7 ||| v 15 <<< 2 ||| v 16 >>> 3,
    v 16 <<< 5 ||| v 17,
    v 18 <<< 3 ||| v 19 >>> 2,
    v 19 <<< 6 ||| v 20 <<< 1 ||| v 21 >>> 4,
    v 21 <<< 4 ||| v 22 >>> 1,
    v 22 <<< 7 ||| v 23 <<< 2 ||| v 24 >>> 3,
    v 24 <<< 5 ||| v 25]

/-- The Unix milliseconds in the first six bytes; they fit into 48 bits. -/
def millis (id : ULID) : Nat :=
  (id 0).toNat <<< 40 ||| (id 1).toNat <<< 32 ||| (id 2).toNat <<< 24 |||
    (id 3).toNat <<< 16 ||| (id 4).toNat <<< 8 ||| (id 5).toNat

/-- `ULID.Time`, in nanoseconds from the Unix epoch. -/
def time (id : ULID) : Int := id.millis * 1000000

end ULID

/-- `NewULIDAt` for a time in nanoseconds from the Unix epoch; `read` is what
`rand.Read` gives for the last ten bytes. -/
def newULIDAt {ε : Type} (t : Int) (read : Except ε (Fin 10 → UInt8)) : Except ε ULID :=
  let ms := UInt64.ofInt (t / 1000000)
  read.map fun random =>
    ![(ms >>> 40).toUInt8, (ms >>> 32).toUInt8, (ms >>> 24).toUInt8, (ms >>> 16).toUInt8,
      (ms >>> 8).toUInt8, ms.toUInt8, random 0, random 1, random 2, random 3, random 4, random 5,
      random 6, random 7, random 8, random 9]

/-- The errors of `ParseULID`, in its order of checks; each begins with the text
`envelope: invalid ULID` and quotes the argument. -/
inductive ULIDError where
  /-- The text `want 26 chars, got n`. -/
  | wantChars (s : List UInt8) (n : Nat)
  /-- The text `bad character c`. -/
  | badCharacter (s : List UInt8) (c : UInt8)
  /-- The text `timestamp overflow`. -/
  | timestampOverflow (s : List UInt8)
  deriving DecidableEq, Repr

/-- `ParseULID`. -/
def parseULID (s : List UInt8) : Except ULIDError ULID :=
  if s.length ≠ 26 then .error (.wantChars s s.length)
  else
    match s.find? fun c => ulidDec c = 0xFF with
    | some c => .error (.badCharacter s c)
    | none =>
      let v : Fin 26 → UInt8 := fun i => ulidDec (s.getD i 0)
      if 7 < v 0 then .error (.timestampOverflow s) else .ok (ULID.ofDigits v)

/-! ## The alphabet -/

theorem ulidDigit_table : ∀ n < 32, ulidDigit (UInt8.ofNat n) ∈ ulidEnc ∧
    ulidDec (ulidDigit (UInt8.ofNat n)) = UInt8.ofNat n ∧
    ∀ m < 32, ulidDigit (UInt8.ofNat m) < ulidDigit (UInt8.ofNat n) ↔ m < n := by
  decide +kernel

/-- A table filled entry by entry keeps its default elsewhere. -/
theorem foldl_update_of_forall_ne {α β ι : Type} [DecidableEq α] {key : ι → α} {value : ι → β}
    {is : List ι} {x : α} (h : ∀ i ∈ is, x ≠ key i) (table : α → β) :
    is.foldl (fun t i => Function.update t (key i) (value i)) table x = table x := by
  induction is generalizing table with
  | nil => rfl
  | cons i is ih =>
    obtain ⟨hi, his⟩ := List.forall_mem_cons.mp h
    rw [List.foldl_cons, ih his, Function.update_of_ne hi]

/-- Outside the alphabet the table holds 0xFF, inside it the position. -/
theorem ulidDec_cases (c : UInt8) : ulidDec c = 0xFF ∧ c ∉ ulidEnc ∨
    (ulidDec c).toNat < 32 ∧ c ∈ ulidEnc ∧ ulidDigit (ulidDec c) = c := by
  by_cases hc : c ∈ ulidEnc
  · right
    obtain ⟨n, hn, hcn⟩ := List.mem_iff_getElem.mp hc
    have hlt : n < 32 := hn
    have hnat : (UInt8.ofNat n).toNat = n := UInt8.toNat_ofNat_of_lt' (Nat.lt_trans hlt (by decide))
    have hdigit : ulidDigit (UInt8.ofNat n) = c := by
      rw [ulidDigit, hnat, List.getD_eq_getElem?_getD, List.getElem?_eq_getElem hn,
        Option.getD_some, hcn]
    have hdec : ulidDec c = UInt8.ofNat n := by
      rw [← hdigit, (ulidDigit_table n hlt).2.1]
    rw [hdec, hnat]
    exact ⟨hlt, hc, hdigit⟩
  · left
    refine ⟨foldl_update_of_forall_ne ?_ _, hc⟩
    intro i hi heq
    have hlt := List.mem_range.mp hi
    rw [List.getD_eq_getElem?_getD, List.getElem?_eq_getElem hlt, Option.getD_some] at heq
    exact hc (heq ▸ List.getElem_mem hlt)

variable {s : List UInt8} {c : UInt8}

theorem ulidDec_ne_iff : ulidDec c ≠ 0xFF ↔ c ∈ ulidEnc := by
  rcases ulidDec_cases c with ⟨hff, hmem⟩ | ⟨hlt, hmem, -⟩
  · exact iff_of_false (fun h => h hff) hmem
  · refine iff_of_true (fun h => ?_) hmem
    rw [h] at hlt
    exact absurd hlt (by decide)

theorem ulidDec_lt (h : c ∈ ulidEnc) : (ulidDec c).toNat < 32 := by
  rcases ulidDec_cases c with ⟨-, hmem⟩ | ⟨hlt, -, -⟩
  · exact absurd h hmem
  · exact hlt

theorem ulidDigit_ulidDec (h : c ∈ ulidEnc) : ulidDigit (ulidDec c) = c := by
  rcases ulidDec_cases c with ⟨-, hmem⟩ | ⟨-, -, heq⟩
  · exact absurd h hmem
  · exact heq

theorem ulidDigit_mem {x : UInt8} (h : x.toNat < 32) : ulidDigit x ∈ ulidEnc := by
  have := (ulidDigit_table x.toNat h).1
  rwa [UInt8.ofNat_toNat] at this

theorem ulidDec_ulidDigit {x : UInt8} (h : x.toNat < 32) : ulidDec (ulidDigit x) = x := by
  have := (ulidDigit_table x.toNat h).2.1
  rwa [UInt8.ofNat_toNat] at this

/-- The alphabet is in byte order. -/
theorem ulidDigit_lt_iff {x y : UInt8} (hx : x.toNat < 32) (hy : y.toNat < 32) :
    ulidDigit x < ulidDigit y ↔ x < y := by
  have := (ulidDigit_table y.toNat hy).2.2 x.toNat hx
  rwa [UInt8.ofNat_toNat, UInt8.ofNat_toNat] at this

/-- The digits up to 7 are the characters up to `7`. -/
theorem ulidDec_le_seven_iff (h : c ∈ ulidEnc) :
    ulidDec c ≤ 7 ↔ c ≤ '7'.toUInt8 := by
  have hseven : ulidDigit 7 = '7'.toUInt8 := by decide
  have hlt := ulidDigit_lt_iff (x := 7) (by decide) (ulidDec_lt h)
  rw [ulidDigit_ulidDec h, hseven] at hlt
  rw [← UInt8.not_lt, ← UInt8.not_lt, hlt]

/-! ## The value of a numeral in base 32 and in base 256 -/

/-- The eight digits of five bytes. -/
def groupDigits (a b c d e : UInt8) : List UInt8 :=
  [(a &&& 248) >>> 3, (a &&& 7) <<< 2 ||| (b &&& 192) >>> 6, (b &&& 62) >>> 1,
    (b &&& 1) <<< 4 ||| (c &&& 240) >>> 4, (c &&& 15) <<< 1 ||| (d &&& 128) >>> 7,
    (d &&& 124) >>> 2, (d &&& 3) <<< 3 ||| (e &&& 224) >>> 5, e &&& 31]

/-- The five bytes of eight digits. -/
def groupBytes (a b c d e f g h : UInt8) : List UInt8 :=
  [a <<< 3 ||| b >>> 2, b <<< 6 ||| c <<< 1 ||| d >>> 4, d <<< 4 ||| e >>> 1,
    e <<< 7 ||| f <<< 2 ||| g >>> 3, g <<< 5 ||| h]

theorem groupDigits_toNat (a b c d e : UInt8) : (groupDigits a b c d e).map UInt8.toNat =
    [a.toNat / 8, a.toNat % 8 * 4 + b.toNat / 64, b.toNat / 2 % 32,
      b.toNat % 2 * 16 + c.toNat / 16, c.toNat % 16 * 2 + d.toNat / 128, d.toNat / 4 % 32,
      d.toNat % 4 * 8 + e.toNat / 32, e.toNat % 32] := by
  simp only [groupDigits, List.map_cons, List.map_nil,
    toNat_top a 248 3 3 (by decide), toNat_field b 62 1 1 5 (by decide),
    toNat_field d 124 2 2 5 (by decide), toNat_low e 31 5 rfl,
    toNat_straddle a b 7 192 2 6 3 2 6 (by decide) (by decide),
    toNat_straddle b c 1 240 4 4 1 4 4 (by decide) (by decide),
    toNat_straddle c d 15 128 1 7 4 1 7 (by decide) (by decide),
    toNat_straddle d e 3 224 3 5 2 3 5 (by decide) (by decide), Nat.reducePow]

theorem groupBytes_toNat {a b c d e f g h : UInt8} (ha : a.toNat < 32) (hb : b.toNat < 32)
    (hc : c.toNat < 32) (hd : d.toNat < 32) (he : e.toNat < 32) (hf : f.toNat < 32)
    (hg : g.toNat < 32) (hh : h.toNat < 32) : (groupBytes a b c d e f g h).map UInt8.toNat =
    [a.toNat * 8 + b.toNat / 4, b.toNat % 4 * 64 + c.toNat * 2 + d.toNat / 16,
      d.toNat % 16 * 16 + e.toNat / 2, e.toNat % 2 * 128 + f.toNat * 4 + g.toNat / 8,
      g.toNat % 8 * 32 + h.toNat] := by
  have b3 := toNat_high b 2 2 rfl
  have d1 := toNat_high d 4 4 rfl
  have e4 := toNat_high e 1 1 rfl
  have g2 := toNat_high g 3 3 rfl
  have ab := toNat_join a (b >>> 2) 3 3 rfl (by omega)
  have cd := toNat_join c (d >>> 4) 1 1 rfl (by omega)
  have bcd := toNat_join b (c <<< 1 ||| d >>> 4) 6 6 rfl (by omega)
  have de := toNat_join d (e >>> 1) 4 4 rfl (by omega)
  have fg := toNat_join f (g >>> 3) 2 2 rfl (by omega)
  have efg := toNat_join e (f <<< 2 ||| g >>> 3) 7 7 rfl (by omega)
  have gh := toNat_join g h 5 5 rfl (by omega)
  simp only [groupBytes, UInt8.or_assoc, List.map_cons, List.map_nil, List.cons.injEq, and_true]
  omega

theorem groupDigits_lt (a b c d e : UInt8) : ∀ x ∈ (groupDigits a b c d e).map UInt8.toNat,
    x < 32 := by
  have ha := a.toNat_lt
  have hb := b.toNat_lt
  have hc := c.toNat_lt
  have hd := d.toNat_lt
  have he := e.toNat_lt
  rw [groupDigits_toNat]
  simp only [List.mem_cons, List.not_mem_nil, or_false, forall_eq_or_imp, forall_eq]
  omega

/-- Eight digits have the value of their five bytes. -/
theorem bigEndian_groupDigits (a b c d e : UInt8) :
    bigEndian 32 ((groupDigits a b c d e).map UInt8.toNat) =
      bigEndian 256 ([a, b, c, d, e].map UInt8.toNat) := by
  have ha := a.toNat_lt
  have hb := b.toNat_lt
  have hc := c.toNat_lt
  have hd := d.toNat_lt
  have he := e.toNat_lt
  rw [groupDigits_toNat]
  simp only [List.map_cons, List.map_nil, bigEndian_cons, bigEndian_nil, List.length_cons,
    List.length_nil]
  omega

/-- Five bytes have the value of their eight digits. -/
theorem bigEndian_groupBytes {a b c d e f g h : UInt8} (ha : a.toNat < 32) (hb : b.toNat < 32)
    (hc : c.toNat < 32) (hd : d.toNat < 32) (he : e.toNat < 32) (hf : f.toNat < 32)
    (hg : g.toNat < 32) (hh : h.toNat < 32) :
    bigEndian 256 ((groupBytes a b c d e f g h).map UInt8.toNat) =
      bigEndian 32 ([a, b, c, d, e, f, g, h].map UInt8.toNat) := by
  rw [groupBytes_toNat ha hb hc hd he hf hg hh]
  simp only [List.map_cons, List.map_nil, bigEndian_cons, bigEndian_nil, List.length_cons,
    List.length_nil]
  omega

namespace ULID

theorem digits_eq (id : ULID) : id.digits =
    [(id 0 &&& 224) >>> 5, id 0 &&& 31] ++ groupDigits (id 1) (id 2) (id 3) (id 4) (id 5) ++
      groupDigits (id 6) (id 7) (id 8) (id 9) (id 10) ++
      groupDigits (id 11) (id 12) (id 13) (id 14) (id 15) := rfl

theorem ofFn_eq (id : ULID) : List.ofFn id =
    [id 0] ++ [id 1, id 2, id 3, id 4, id 5] ++ [id 6, id 7, id 8, id 9, id 10] ++
      [id 11, id 12, id 13, id 14, id 15] := rfl

theorem ofFn_ofDigits (v : Fin 26 → UInt8) : List.ofFn (ofDigits v) =
    [v 0 <<< 5 ||| v 1] ++ groupBytes (v 2) (v 3) (v 4) (v 5) (v 6) (v 7) (v 8) (v 9) ++
      groupBytes (v 10) (v 11) (v 12) (v 13) (v 14) (v 15) (v 16) (v 17) ++
      groupBytes (v 18) (v 19) (v 20) (v 21) (v 22) (v 23) (v 24) (v 25) := rfl

theorem digits_length (id : ULID) : id.digits.length = 26 := rfl

/-- The first byte gives a digit up to 7 and a second one. -/
theorem headDigits_toNat (a : UInt8) : [(a &&& 224) >>> 5, a &&& 31].map UInt8.toNat =
    [a.toNat / 32, a.toNat % 32] := by
  have ha := a.toNat_lt
  have a3 := toNat_field a 224 5 5 3 (by decide)
  have a5 := toNat_low a 31 5 rfl
  simp only [List.map_cons, List.map_nil, List.cons.injEq, and_true]
  omega

theorem digits_lt (id : ULID) : ∀ x ∈ id.digits, x.toNat < 32 := by
  have h : ∀ n ∈ id.digits.map UInt8.toNat, n < 32 := by
    intro n hn
    have ha := (id 0).toNat_lt
    rw [digits_eq, List.map_append, List.map_append, List.map_append, headDigits_toNat] at hn
    simp only [List.mem_append, or_assoc] at hn
    rcases hn with hn | hn | hn | hn
    · simp only [List.mem_cons, List.not_mem_nil, or_false] at hn
      omega
    · exact groupDigits_lt _ _ _ _ _ n hn
    · exact groupDigits_lt _ _ _ _ _ n hn
    · exact groupDigits_lt _ _ _ _ _ n hn
  exact fun x hx => h x.toNat (List.mem_map_of_mem hx)

/-- The digits have the value of the id. -/
theorem bigEndian_digits (id : ULID) : bigEndian 32 (id.digits.map UInt8.toNat) = id.toNat := by
  have ha := (id 0).toNat_lt
  rw [digits_eq, toNat, ofFn_eq]
  simp only [List.map_append, bigEndian_append, bigEndian_groupDigits, headDigits_toNat,
    List.length_map]
  simp only [groupDigits, List.length_cons, List.length_nil, List.map_cons, List.map_nil,
    bigEndian_cons, bigEndian_nil]
  omega

/-- The bytes have the value of the digits they are put together from. -/
theorem toNat_ofDigits {v : Fin 26 → UInt8} (hv : ∀ i, (v i).toNat < 32) (h0 : (v 0).toNat ≤ 7) :
    (ofDigits v).toNat = bigEndian 32 ((List.ofFn v).map UInt8.toNat) := by
  have h1 := hv 1
  have hhead := toNat_join (v 0) (v 1) 5 5 rfl (by omega)
  have hofFn : List.ofFn v = [v 0, v 1] ++ [v 2, v 3, v 4, v 5, v 6, v 7, v 8, v 9] ++
      [v 10, v 11, v 12, v 13, v 14, v 15, v 16, v 17] ++
      [v 18, v 19, v 20, v 21, v 22, v 23, v 24, v 25] := rfl
  rw [toNat, ofFn_ofDigits, hofFn]
  simp only [List.map_append, bigEndian_append,
    bigEndian_groupBytes (hv _) (hv _) (hv _) (hv _) (hv _) (hv _) (hv _) (hv _), List.length_map]
  simp only [groupBytes, List.length_cons, List.length_nil, List.map_cons, List.map_nil,
    bigEndian_cons, bigEndian_nil]
  omega

theorem toNat_injective : Function.Injective toNat := by
  intro a b h
  apply List.ofFn_injective
  apply (List.map_injective_iff.mpr fun _ _ => UInt8.toNat_inj.mp)
  have hlt (id : ULID) : ∀ n ∈ (List.ofFn id).map UInt8.toNat, n < 256 := by
    intro n hn
    obtain ⟨x, -, rfl⟩ := List.mem_map.mp hn
    exact x.toNat_lt
  exact bigEndian_inj (by decide) (by simp) (hlt a) (hlt b) h

/-- Two lists of 26 digits with one value are equal. -/
theorem digits_inj {xs ys : List UInt8} (hlen : xs.length = ys.length)
    (hxs : ∀ x ∈ xs, x.toNat < 32) (hys : ∀ y ∈ ys, y.toNat < 32)
    (h : bigEndian 32 (xs.map UInt8.toNat) = bigEndian 32 (ys.map UInt8.toNat)) : xs = ys := by
  apply (List.map_injective_iff.mpr fun _ _ => UInt8.toNat_inj.mp)
  exact bigEndian_inj (by decide) (by simpa using hlen) (by simpa using hxs) (by simpa using hys) h

/-- The text order of ids is their order as numbers. -/
theorem string_lt_iff (a b : ULID) : a.string < b.string ↔ a.toNat < b.toNat := by
  have hdigit : a.string < b.string ↔ a.digits < b.digits := by
    apply lex_map_iff (s := {x | x.toNat < 32})
    · exact fun x hx y hy => ulidDigit_lt_iff hx hy
    · intro x hx y hy hxy
      rw [← ulidDec_ulidDigit hx, hxy, ulidDec_ulidDigit hy]
    · exact a.digits_lt
    · exact b.digits_lt
  have hnat : a.digits.map UInt8.toNat < b.digits.map UInt8.toNat ↔ a.digits < b.digits :=
    lex_map_iff (f := UInt8.toNat) (s := Set.univ) (fun _ _ _ _ => UInt8.lt_iff_toNat_lt.symm)
      (fun _ _ _ _ => UInt8.toNat_inj.mp) (fun x _ => Set.mem_univ x) (fun y _ => Set.mem_univ y)
  rw [hdigit, ← hnat, ← bigEndian_lt_iff (b := 32) (by decide) (by simp [digits_length])
    (by simpa using a.digits_lt) (by simpa using b.digits_lt), bigEndian_digits, bigEndian_digits]

end ULID

/-! ## Parsing -/

/-- The texts of ids: 26 characters of the alphabet, the first one up to `7`. -/
def Canonical (s : List UInt8) : Prop :=
  s.length = 26 ∧ (∀ c ∈ s, c ∈ ulidEnc) ∧ ∀ c ∈ s.head?, c ≤ '7'.toUInt8

/-- The values of the 26 digits as `ParseULID` looks them up. -/
def ulidValues (s : List UInt8) : Fin 26 → UInt8 := fun i => ulidDec (s.getD i 0)

theorem ofFn_ulidValues (hlen : s.length = 26) :
    List.ofFn (ulidValues s) = s.map ulidDec := by
  apply List.ext_getElem
  · simp [hlen]
  · intro i _ hi
    rw [List.length_map] at hi
    rw [List.getElem_ofFn, List.getElem_map, ulidValues,
      List.getD_eq_getElem?_getD, List.getElem?_eq_getElem hi, Option.getD_some]

theorem ulidValues_zero_iff (hlen : s.length = 26) (hmem : ∀ c ∈ s, c ∈ ulidEnc) :
    ¬ 7 < ulidValues s 0 ↔ ∀ c ∈ s.head?, c ≤ '7'.toUInt8 := by
  obtain ⟨c, s', rfl⟩ := List.exists_cons_of_length_eq_add_one hlen
  rw [UInt8.not_lt, show ulidValues (c :: s') 0 = ulidDec c from rfl,
    ulidDec_le_seven_iff (hmem c List.mem_cons_self)]
  simp

/-- What `ParseULID` accepts and returns. -/
theorem parseULID_eq_ok_iff {id : ULID} :
    parseULID s = .ok id ↔ Canonical s ∧ id = ULID.ofDigits (ulidValues s) := by
  unfold parseULID Canonical
  by_cases hlen : s.length = 26
  · rw [if_neg (not_not.mpr hlen)]
    cases hfind : s.find? fun c => ulidDec c = 0xFF with
    | some c =>
      have hc : ulidDec c = 0xFF := by simpa using List.find?_some hfind
      have hbad : ¬ ∀ c ∈ s, c ∈ ulidEnc :=
        fun h => ulidDec_ne_iff.mpr (h c (List.mem_of_find?_eq_some hfind)) hc
      simp [hbad]
    | none =>
      have hmem : ∀ c ∈ s, c ∈ ulidEnc := by
        intro c hc
        rw [← ulidDec_ne_iff]
        simpa using List.find?_eq_none.mp hfind c hc
      rw [← ulidValues_zero_iff hlen hmem]
      change (if 7 < ulidValues s 0 then _ else Except.ok (ULID.ofDigits (ulidValues s))) = _ ↔ _
      by_cases h7 : 7 < ulidValues s 0
      · simp [h7]
      · rw [if_neg h7, Except.ok.injEq, eq_comm]
        exact (and_iff_right ⟨hlen, hmem, h7⟩).symm
  · rw [if_pos hlen]
    simp [hlen]

theorem Canonical.values_lt (h : Canonical s) (i : Fin 26) :
    (ulidValues s i).toNat < 32 := by
  obtain ⟨hlen, hmem, -⟩ := h
  have hi : i.val < s.length := by omega
  rw [ulidValues, List.getD_eq_getElem?_getD, List.getElem?_eq_getElem hi, Option.getD_some]
  exact ulidDec_lt (hmem _ (List.getElem_mem hi))

/-- A canonical text has the value of the id it is parsed to. -/
theorem Canonical.toNat_ofDigits (h : Canonical s) :
    (ULID.ofDigits (ulidValues s)).toNat = bigEndian 32 ((s.map ulidDec).map UInt8.toNat) := by
  have h0 : (ulidValues s 0).toNat ≤ 7 := by
    have := (ulidValues_zero_iff h.1 h.2.1).mpr h.2.2
    rwa [UInt8.not_lt] at this
  rw [ULID.toNat_ofDigits h.values_lt h0, ofFn_ulidValues h.1]

namespace ULID

theorem map_ulidDec_string (id : ULID) : id.string.map ulidDec = id.digits := by
  rw [string, List.map_map]
  exact (List.map_congr_left fun x hx => ulidDec_ulidDigit (id.digits_lt x hx)).trans
    (List.map_id _)

theorem canonical_string (id : ULID) : Canonical id.string := by
  have hmem : ∀ c ∈ id.string, c ∈ ulidEnc := by
    intro c hc
    obtain ⟨x, hx, rfl⟩ := List.mem_map.mp hc
    exact ulidDigit_mem (id.digits_lt x hx)
  refine ⟨by simp [string, digits_length], hmem, ?_⟩
  rintro c ⟨⟩
  have h0 := headDigits_toNat (id 0)
  have hlt := (id 0).toNat_lt
  have hx : ((id 0 &&& 224) >>> 5).toNat ≤ 7 := by
    rw [List.map_cons, List.cons.injEq] at h0
    omega
  rw [← ulidDec_le_seven_iff (ulidDigit_mem (by omega)), ulidDec_ulidDigit (by omega)]
  exact hx

/-- Parsing the text of an id gives the id back. -/
theorem parseULID_string (id : ULID) : parseULID id.string = .ok id := by
  rw [parseULID_eq_ok_iff]
  refine ⟨id.canonical_string, toNat_injective ?_⟩
  rw [id.canonical_string.toNat_ofDigits, map_ulidDec_string, bigEndian_digits]

/-- The text of a parsed id is the text it was parsed from. -/
theorem string_of_parseULID {id : ULID} (h : parseULID s = .ok id) :
    id.string = s := by
  obtain ⟨hs, rfl⟩ := parseULID_eq_ok_iff.mp h
  have hdigits : (ofDigits (ulidValues s)).digits = s.map ulidDec := by
    apply digits_inj (by simp [digits_length, hs.1]) (digits_lt _)
    · intro x hx
      obtain ⟨c, hc, rfl⟩ := List.mem_map.mp hx
      exact ulidDec_lt (hs.2.1 c hc)
    · rw [bigEndian_digits, hs.toNat_ofDigits]
  rw [string, hdigits, List.map_map]
  exact (List.map_congr_left fun c hc => ulidDigit_ulidDec (hs.2.1 c hc)).trans (List.map_id _)

end ULID

/-! ## The time of an id -/

theorem shiftLeft_or {a b n : Nat} (h : b < 2 ^ n) : a <<< n ||| b = a * 2 ^ n + b := by
  rw [← Nat.shiftLeft_add_eq_or_of_lt h, Nat.shiftLeft_eq]

namespace ULID

theorem millis_eq (id : ULID) : id.millis =
    bigEndian 256 ([id 0, id 1, id 2, id 3, id 4, id 5].map UInt8.toNat) := by
  have h1 := (id 1).toNat_lt
  have h2 := (id 2).toNat_lt
  have h3 := (id 3).toNat_lt
  have h4 := (id 4).toNat_lt
  have h5 := (id 5).toNat_lt
  simp only [millis, Nat.or_assoc]
  rw [shiftLeft_or (n := 8) (by omega), shiftLeft_or (n := 16) (by omega),
    shiftLeft_or (n := 24) (by omega), shiftLeft_or (n := 32) (by omega),
    shiftLeft_or (n := 40) (by omega)]
  simp only [List.map_cons, List.map_nil, bigEndian_cons, bigEndian_nil, List.length_cons,
    List.length_nil]
  omega

/-- The milliseconds come first in the number of an id. -/
theorem millis_eq_div (id : ULID) : id.millis = id.toNat / 2 ^ 80 := by
  have hofFn : List.ofFn id = [id 0, id 1, id 2, id 3, id 4, id 5] ++
      [id 6, id 7, id 8, id 9, id 10, id 11, id 12, id 13, id 14, id 15] := rfl
  have hrest : bigEndian 256 ([id 6, id 7, id 8, id 9, id 10, id 11, id 12, id 13, id 14,
      id 15].map UInt8.toNat) < 256 ^ 10 := by
    apply bigEndian_lt (by decide)
    intro n hn
    obtain ⟨x, -, rfl⟩ := List.mem_map.mp hn
    exact x.toNat_lt
  rw [toNat, hofFn, List.map_append, bigEndian_append, ← millis_eq]
  simp only [List.length_map, List.length_cons, List.length_nil]
  omega

/-- An id with the larger milliseconds has the larger number. -/
theorem toNat_lt_of_millis_lt {a b : ULID} (h : a.millis < b.millis) : a.toNat < b.toNat := by
  rw [millis_eq_div, millis_eq_div] at h
  omega

end ULID

theorem toNat_ofInt64 {n : Int} (h0 : 0 ≤ n) (h48 : n < 2 ^ 48) :
    ((UInt64.ofInt n).toNat : Int) = n := by
  have hofNat : (UInt64.ofInt n).toNat = (n % 2 ^ 64).toNat % 2 ^ 64 := UInt64.toNat_ofNat'
  omega

theorem toNat_byteOf (w shift : UInt64) (n : Nat) (hn : shift.toNat % 64 = n) :
    (w >>> shift).toUInt8.toNat = w.toNat / 2 ^ n % 256 := by
  rw [UInt64.toNat_toUInt8, UInt64.toNat_shiftRight, hn, Nat.shiftRight_eq_div_pow]

/-- The six bytes `NewULIDAt` cuts a number of 48 bits into. -/
theorem bigEndian_millisBytes (ms : UInt64) (h : ms.toNat < 2 ^ 48) :
    bigEndian 256 ([(ms >>> 40).toUInt8, (ms >>> 32).toUInt8, (ms >>> 24).toUInt8,
      (ms >>> 16).toUInt8, (ms >>> 8).toUInt8, ms.toUInt8].map UInt8.toNat) = ms.toNat := by
  have b0 := toNat_byteOf ms 40 40 rfl
  have b1 := toNat_byteOf ms 32 32 rfl
  have b2 := toNat_byteOf ms 24 24 rfl
  have b3 := toNat_byteOf ms 16 16 rfl
  have b4 := toNat_byteOf ms 8 8 rfl
  have b5 : ms.toUInt8.toNat = ms.toNat % 256 := UInt64.toNat_toUInt8 ms
  simp only [List.map_cons, List.map_nil, bigEndian_cons, bigEndian_nil, List.length_cons,
    List.length_nil]
  omega

/-- Within 48 bits an id holds the milliseconds it was made at. -/
theorem millis_newULIDAt {ε : Type} {t : Int} {read : Except ε (Fin 10 → UInt8)} {id : ULID}
    (h : newULIDAt t read = .ok id) (h0 : 0 ≤ t / 1000000) (h48 : t / 1000000 < 2 ^ 48) :
    (id.millis : Int) = t / 1000000 := by
  cases read with
  | error e => cases h
  | ok random =>
    have hid := Except.ok.inj h
    have hms := toNat_ofInt64 h0 h48
    calc (id.millis : Int)
        = bigEndian 256 ([id 0, id 1, id 2, id 3, id 4, id 5].map UInt8.toNat) := by
          rw [ULID.millis_eq]
      _ = (UInt64.ofInt (t / 1000000)).toNat := by
          rw [← bigEndian_millisBytes (UInt64.ofInt (t / 1000000)) (by omega), ← hid]
          rfl
      _ = t / 1000000 := hms

theorem time_newULIDAt {ε : Type} {t : Int} {read : Except ε (Fin 10 → UInt8)} {id : ULID}
    (h : newULIDAt t read = .ok id) (h0 : 0 ≤ t / 1000000) (h48 : t / 1000000 < 2 ^ 48) :
    id.time = truncMillis t := by
  rw [ULID.time, millis_newULIDAt h h0 h48, truncMillis]
  omega

/-- The laws of the id codec: texts and ids correspond one to one, texts are ordered as
the ids are, and an id made in a later millisecond is the larger one. -/
theorem ulid_codec_laws :
    (∀ id : ULID, parseULID id.string = .ok id) ∧
    (∀ s, (∃ id, parseULID s = .ok id) ↔ Canonical s) ∧
    (∀ s id, parseULID s = .ok id → id.string = s) ∧
    (∀ a b : ULID, a.string < b.string ↔ a.toNat < b.toNat) ∧
    (∀ (ε : Type) (t : Int) (read : Except ε (Fin 10 → UInt8)) (id : ULID),
      newULIDAt t read = .ok id → 0 ≤ t / 1000000 → t / 1000000 < 2 ^ 48 →
        id.time = truncMillis t) ∧
    (∀ (ε : Type) (t t' : Int) (read read' : Except ε (Fin 10 → UInt8)) (id id' : ULID),
      newULIDAt t read = .ok id → newULIDAt t' read' = .ok id' →
        0 ≤ t / 1000000 → t / 1000000 < t' / 1000000 → t' / 1000000 < 2 ^ 48 →
          id.string < id'.string) := by
  refine ⟨ULID.parseULID_string, fun s => ?_, fun s id => ULID.string_of_parseULID,
    ULID.string_lt_iff, fun ε t read id => time_newULIDAt, ?_⟩
  · constructor
    · rintro ⟨id, h⟩
      exact (parseULID_eq_ok_iff.mp h).1
    · intro h
      exact ⟨_, parseULID_eq_ok_iff.mpr ⟨h, rfl⟩⟩
  · intro ε t t' read read' id id' h h' h0 hlt h48
    rw [ULID.string_lt_iff]
    apply ULID.toNat_lt_of_millis_lt
    have hms := millis_newULIDAt h h0 (by omega)
    have hms' := millis_newULIDAt h' (by omega) h48
    omega

end Rdq
