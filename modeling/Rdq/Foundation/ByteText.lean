import Rdq.Foundation.Strconv

/-!
# Byte strings

Go strings as bytes, UTF-8 or not: `strings.Split` and `strings.Cut` at one byte,
`strings.TrimSpace`, and the hexadecimal texts of `encoding/hex`.

## Implementation notes

White space is stripped as the encodings of the space characters. At either end of a byte
string `TrimSpace` meets such a character exactly when its encoding stands there.
-/

namespace Rdq.Foundation.ByteText

/-! ## Cutting -/

/-- `strings.Cut` at the first `sep`. -/
def cut (sep : UInt8) (s : List UInt8) : Option (List UInt8 × List UInt8) :=
  if sep ∈ s then some (s.takeWhile (· != sep), (s.dropWhile (· != sep)).tail) else none

theorem cut_append_cons {sep : UInt8} (xs ys : List UInt8) (h : sep ∉ xs) :
    cut sep (xs ++ sep :: ys) = some (xs, ys) := by
  have hall : ∀ x ∈ xs, (x != sep) = true := by
    intro x hx
    rw [bne_iff_ne]
    rintro rfl
    exact h hx
  have hmem : sep ∈ xs ++ sep :: ys := by simp
  rw [cut, if_pos hmem, List.takeWhile_append_of_pos hall, List.dropWhile_append_of_pos hall]
  simp

/-- `strings.Split` at every `sep`. -/
def split (sep : UInt8) (s : List UInt8) : List (List UInt8) := s.splitOn sep

theorem split_of_notMem {sep : UInt8} {xs : List UInt8} (h : sep ∉ xs) : split sep xs = [xs] := by
  apply List.splitOnP_eq_singleton
  intro x hx
  rw [beq_eq_false_iff_ne]
  rintro rfl
  exact h hx

theorem split_append_cons {sep : UInt8} (xs ys : List UInt8) (h : sep ∉ xs) :
    split sep (xs ++ sep :: ys) = xs :: split sep ys := by
  apply List.splitOnP_append_cons_of_forall_mem
  · intro x hx
    rw [beq_eq_false_iff_ne]
    rintro rfl
    exact h hx
  · exact beq_self_eq_true sep

/-! ## White space -/

/-- The encodings of the characters of `unicode.IsSpace`. -/
def spaces : List (List UInt8) :=
  [[9], [10], [11], [12], [13], [32], [0xC2, 0x85], [0xC2, 0xA0], [0xE1, 0x9A, 0x80],
    [0xE2, 0x80, 0x80], [0xE2, 0x80, 0x81], [0xE2, 0x80, 0x82], [0xE2, 0x80, 0x83],
    [0xE2, 0x80, 0x84], [0xE2, 0x80, 0x85], [0xE2, 0x80, 0x86], [0xE2, 0x80, 0x87],
    [0xE2, 0x80, 0x88], [0xE2, 0x80, 0x89], [0xE2, 0x80, 0x8A], [0xE2, 0x80, 0xA8],
    [0xE2, 0x80, 0xA9], [0xE2, 0x80, 0xAF], [0xE2, 0x81, 0x9F], [0xE3, 0x80, 0x80]]

/-- Strip at most `fuel` of the texts `fronts` from the front. -/
def stripFronts (fronts : List (List UInt8)) : Nat → List UInt8 → List UInt8
  | 0, s => s
  | fuel + 1, s =>
    match fronts.find? fun front => front.isPrefixOf s with
    | none => s
    | some front => stripFronts fronts fuel (s.drop front.length)

/-- `strings.TrimSpace`. -/
def trimSpace (s : List UInt8) : List UInt8 :=
  let rest := stripFronts spaces s.length s
  (stripFronts (spaces.map List.reverse) rest.length rest.reverse).reverse

/-- A printable ASCII byte other than the blank. -/
def isGraph (b : UInt8) : Bool := 33 ≤ b && b < 127

theorem stripFronts_cons {fronts : List (List UInt8)} {b : UInt8} {s : List UInt8}
    (h : ∀ front ∈ fronts, front.isPrefixOf (b :: s) = false) (fuel : Nat) :
    stripFronts fronts fuel (b :: s) = b :: s := by
  cases fuel with
  | zero => rfl
  | succ fuel =>
    have hnone : (fronts.find? fun front => front.isPrefixOf (b :: s)) = none := by
      rw [List.find?_eq_none]
      intro front hfront
      rw [h front hfront]
      exact Bool.false_ne_true
    rw [stripFronts, hnone]

/-- No front starts with a printable byte. -/
theorem isPrefixOf_of_isGraph (fronts : List (List UInt8))
    (h : fronts.all (fun front => front.head?.any fun b => !isGraph b) = true)
    {b : UInt8} (hb : isGraph b = true) (s : List UInt8) :
    ∀ front ∈ fronts, front.isPrefixOf (b :: s) = false := by
  intro front hfront
  have hhead := List.all_eq_true.mp h front hfront
  cases front with
  | nil => cases hhead
  | cons c front =>
    have hne : (c == b) = false := by
      rw [beq_eq_false_iff_ne]
      rintro rfl
      simp [hb] at hhead
    simp [List.isPrefixOf, hne]

/-- A text that begins and ends with a printable byte is not trimmed. -/
theorem trimSpace_of_isGraph {b c : UInt8} {s t : List UInt8} (hst : b :: s = t ++ [c])
    (hb : isGraph b = true) (hc : isGraph c = true) : trimSpace (b :: s) = b :: s := by
  have hfront := stripFronts_cons (isPrefixOf_of_isGraph spaces (by decide) hb s)
  have hback := stripFronts_cons
    (isPrefixOf_of_isGraph (spaces.map List.reverse) (by decide) hc t.reverse)
  have hrev : (b :: s).reverse = c :: t.reverse := by
    rw [hst, List.reverse_append]
    rfl
  simp only [trimSpace, hfront, hrev, hback, List.reverse_cons, List.reverse_reverse, ← hst]

/-- A text of printable bytes is not trimmed. -/
theorem trimSpace_of_forall {b : UInt8} {s : List UInt8} (h : ∀ c ∈ b :: s, isGraph c = true) :
    trimSpace (b :: s) = b :: s := by
  have hne : b :: s ≠ [] := List.cons_ne_nil b s
  exact trimSpace_of_isGraph (List.dropLast_concat_getLast hne).symm (h b List.mem_cons_self)
    (h _ (List.getLast_mem hne))

/-- A number is written in printable bytes, without a comma, a dot or a slash. -/
theorem mem_asciiBytes_formatInt {i : Int} {b : UInt8} (h : b ∈ asciiBytes (formatInt i)) :
    isGraph b = true ∧ b < 128 ∧ b ≠ 44 ∧ b ≠ 46 ∧ b ≠ 47 := by
  obtain ⟨c, hc, rfl⟩ := List.mem_map.mp h
  rcases mem_formatInt hc with rfl | hdigit
  · decide
  · obtain ⟨hlow, hhigh⟩ := Char.isDigit_iff_toNat.mp hdigit
    have hrange : ∀ n : Fin 256, 48 ≤ n.val → n.val ≤ 57 →
        isGraph (UInt8.ofNat n) = true ∧ UInt8.ofNat n < 128 ∧ UInt8.ofNat n ≠ 44 ∧
          UInt8.ofNat n ≠ 46 ∧ UInt8.ofNat n ≠ 47 := by
      decide +kernel
    have hzero : '0'.toNat = 48 := rfl
    have hnine : '9'.toNat = 57 := rfl
    exact hrange ⟨c.toNat, by omega⟩ (by simpa [hzero] using hlow) (by simpa [hnine] using hhigh)

theorem byteChars_asciiBytes_formatInt (i : Int) :
    byteChars (asciiBytes (formatInt i)) = formatInt i :=
  byteChars_asciiBytes fun _ hc => Nat.lt_trans (toNat_lt_of_mem_formatInt hc) (by decide)

/-! ## Hexadecimal -/

/-- The errors of `hex.DecodeString`. -/
inductive HexError
  | invalidByte (b : UInt8)
  | length
deriving DecidableEq, Repr

/-- The lowercase digit of a value below 16. -/
def hexDigit (n : UInt8) : UInt8 := if n < 10 then 48 + n else 87 + n

/-- `hex.EncodeToString`. -/
def hexEncode : List UInt8 → List UInt8
  | [] => []
  | b :: rest => hexDigit (b >>> 4) :: hexDigit (b &&& 15) :: hexEncode rest

/-- `fromHexChar`, which takes digits of either case. -/
def hexValue (c : UInt8) : Option UInt8 :=
  if 48 ≤ c && c ≤ 57 then some (c - 48)
  else if 97 ≤ c && c ≤ 102 then some (c - 87)
  else if 65 ≤ c && c ≤ 70 then some (c - 55)
  else none

/-- `hex.DecodeString`. -/
def hexDecode : List UInt8 → Except HexError (List UInt8)
  | [] => .ok []
  | [c] =>
    match hexValue c with
    | none => .error (.invalidByte c)
    | some _ => .error .length
  | c :: d :: rest =>
    match hexValue c, hexValue d with
    | none, _ => .error (.invalidByte c)
    | some _, none => .error (.invalidByte d)
    | some high, some low => (hexDecode rest).map ((high <<< 4 ||| low) :: ·)

/-- A statement about bytes, checked for each of them. -/
theorem forall_byte {P : UInt8 → Prop} (h : ∀ n : Fin 256, P (UInt8.ofFin n)) (b : UInt8) : P b :=
  h b.toFin

theorem hexValue_hexDigit : ∀ n : UInt8, n < 16 → hexValue (hexDigit n) = some n := by
  apply forall_byte
  decide +kernel

theorem isGraph_hexDigit : ∀ n : UInt8, n < 16 → isGraph (hexDigit n) = true ∧ hexDigit n ≠ 44 := by
  apply forall_byte
  decide +kernel

/-- The two halves of a byte. -/
theorem halves :
    ∀ b : UInt8, b >>> 4 < 16 ∧ b &&& 15 < 16 ∧ ((b >>> 4) <<< 4 ||| (b &&& 15)) = b := by
  apply forall_byte
  decide +kernel

@[simp] theorem hexDecode_hexEncode (bytes : List UInt8) :
    hexDecode (hexEncode bytes) = .ok bytes := by
  induction bytes with
  | nil => rfl
  | cons b rest ih =>
    obtain ⟨hhigh, hlow, hbyte⟩ := halves b
    simp only [hexEncode, hexDecode, hexValue_hexDigit _ hhigh, hexValue_hexDigit _ hlow, ih, hbyte]
    rfl

theorem mem_hexEncode {bytes : List UInt8} {c : UInt8} (h : c ∈ hexEncode bytes) :
    isGraph c = true ∧ c ≠ 44 := by
  induction bytes with
  | nil => cases h
  | cons b rest ih =>
    obtain ⟨hhigh, hlow, -⟩ := halves b
    rcases List.mem_cons.mp h with rfl | h
    · exact isGraph_hexDigit _ hhigh
    · rcases List.mem_cons.mp h with rfl | h
      · exact isGraph_hexDigit _ hlow
      · exact ih h

end Rdq.Foundation.ByteText
