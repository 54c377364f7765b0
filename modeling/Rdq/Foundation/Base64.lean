import Mathlib.Tactic.Common

/-!
# Base64

The encodings of Go's `encoding/base64` on byte lists: the standard alphabet and
the URL-safe one, each with or without padding. As in Go, a decoder passes over
line breaks and does not look at the spare bits of the last digit.
-/

namespace Rdq.Foundation.Base64

/-- The alphabets, which differ in their last two digits. -/
inductive Alphabet
  | standard
  | urlSafe
deriving DecidableEq, Repr

/-- An encoding: its alphabet, and whether the last quantum is padded. -/
structure Encoding where
  alphabet : Alphabet
  padded : Bool
deriving DecidableEq, Repr

def stdEncoding : Encoding := ⟨.standard, true⟩

def rawURLEncoding : Encoding := ⟨.urlSafe, false⟩

def padChar : Char := '='

namespace Alphabet

/-- The digit of a six-bit value. -/
def digit (a : Alphabet) (n : Nat) : Char :=
  if n < 26 then Char.ofNat (n + 65)
  else if n < 52 then Char.ofNat (n + 71)
  else if n < 62 then Char.ofNat (n - 4)
  else
    match a, decide (n = 62) with
    | .standard, true => '+'
    | .standard, false => '/'
    | .urlSafe, true => '-'
    | .urlSafe, false => '_'

/-- The value of a digit; none for a character outside the alphabet. -/
def value? (a : Alphabet) (c : Char) : Option Nat :=
  if 'A' ≤ c ∧ c ≤ 'Z' then some (c.toNat - 65)
  else if 'a' ≤ c ∧ c ≤ 'z' then some (c.toNat - 71)
  else if '0' ≤ c ∧ c ≤ '9' then some (c.toNat + 4)
  else
    match a with
    | .standard => if c = '+' then some 62 else if c = '/' then some 63 else none
    | .urlSafe => if c = '-' then some 62 else if c = '_' then some 63 else none

@[simp] theorem value?_digit (a : Alphabet) {n : Nat} (h : n < 64) :
    a.value? (a.digit n) = some n := by
  revert n
  cases a <;> decide

@[simp] theorem value?_padChar (a : Alphabet) : a.value? padChar = none := by
  cases a <;> decide

theorem digit_ne_padChar (a : Alphabet) {n : Nat} (h : n < 64) : a.digit n ≠ padChar := by
  intro heq
  have hv := a.value?_digit h
  rw [heq, value?_padChar] at hv
  cases hv

/-- No digit is a line break. -/
theorem digit_ne_break (a : Alphabet) {n : Nat} (h : n < 64) :
    a.digit n ≠ '\r' ∧ a.digit n ≠ '\n' := by
  revert n
  cases a <;> decide

end Alphabet

/-! ## Encoding -/

variable (e : Encoding)

def padding (n : Nat) : List Char := if e.padded then List.replicate n padChar else []

/-- `EncodeToString`: three bytes make four digits, and a shorter rest fewer. -/
def encode : List UInt8 → List Char
  | [] => []
  | [x] =>
    [e.alphabet.digit (x.toNat / 4), e.alphabet.digit (x.toNat % 4 * 16)] ++ padding e 2
  | [x, y] =>
    [e.alphabet.digit (x.toNat / 4), e.alphabet.digit (x.toNat % 4 * 16 + y.toNat / 16),
      e.alphabet.digit (y.toNat % 16 * 4)] ++ padding e 1
  | x :: y :: z :: rest =>
    e.alphabet.digit (x.toNat / 4) ::
    e.alphabet.digit (x.toNat % 4 * 16 + y.toNat / 16) ::
    e.alphabet.digit (y.toNat % 16 * 4 + z.toNat / 64) ::
    e.alphabet.digit (z.toNat % 64) :: encode rest

/-! ## Decoding -/

/-- The byte of two digits. -/
def decodeOne (c₀ c₁ : Char) : Option (List UInt8) := do
  let v₀ ← e.alphabet.value? c₀
  let v₁ ← e.alphabet.value? c₁
  return [UInt8.ofNat (v₀ * 4 + v₁ / 16)]

/-- The bytes of three digits. -/
def decodeTwo (c₀ c₁ c₂ : Char) : Option (List UInt8) := do
  let v₀ ← e.alphabet.value? c₀
  let v₁ ← e.alphabet.value? c₁
  let v₂ ← e.alphabet.value? c₂
  return [UInt8.ofNat (v₀ * 4 + v₁ / 16), UInt8.ofNat (v₁ % 16 * 16 + v₂ / 4)]

/-- The bytes of four digits. -/
def decodeThree (c₀ c₁ c₂ c₃ : Char) : Option (List UInt8) := do
  let v₀ ← e.alphabet.value? c₀
  let v₁ ← e.alphabet.value? c₁
  let v₂ ← e.alphabet.value? c₂
  let v₃ ← e.alphabet.value? c₃
  return [UInt8.ofNat (v₀ * 4 + v₁ / 16), UInt8.ofNat (v₁ % 16 * 16 + v₂ / 4),
    UInt8.ofNat (v₂ % 4 * 64 + v₃)]

/-- The quanta of a text without line breaks. Padding closes the text. -/
def decodeQuanta : List Char → Option (List UInt8)
  | [] => some []
  | [_] => none
  | [c₀, c₁] => if e.padded then none else decodeOne e c₀ c₁
  | [c₀, c₁, c₂] => if e.padded then none else decodeTwo e c₀ c₁ c₂
  | c₀ :: c₁ :: c₂ :: c₃ :: rest =>
    if e.padded ∧ c₃ = padChar then
      if rest ≠ [] then none
      else if c₂ = padChar then decodeOne e c₀ c₁
      else decodeTwo e c₀ c₁ c₂
    else do
      let bytes ← decodeThree e c₀ c₁ c₂ c₃
      let bytes' ← decodeQuanta rest
      return bytes ++ bytes'

def isBreak (c : Char) : Bool := c = '\r' || c = '\n'

/-- `DecodeString`; none when the text is not well formed. -/
def decode (text : List Char) : Option (List UInt8) :=
  decodeQuanta e (text.filter fun c => !isBreak c)

/-! ## The round trip -/

section
variable (x y z : UInt8)

theorem decodeOne_digits :
    decodeOne e (e.alphabet.digit (x.toNat / 4)) (e.alphabet.digit (x.toNat % 4 * 16)) =
      some [x] := by
  have hx := x.toNat_lt
  simp only [decodeOne]
  rw [Alphabet.value?_digit _ (by omega), Alphabet.value?_digit _ (by omega)]
  simp only [Option.bind_eq_bind, Option.bind_some, Option.pure_def]
  rw [show x.toNat / 4 * 4 + x.toNat % 4 * 16 / 16 = x.toNat by omega, UInt8.ofNat_toNat]

theorem decodeTwo_digits :
    decodeTwo e (e.alphabet.digit (x.toNat / 4))
      (e.alphabet.digit (x.toNat % 4 * 16 + y.toNat / 16))
      (e.alphabet.digit (y.toNat % 16 * 4)) = some [x, y] := by
  have hx := x.toNat_lt
  have hy := y.toNat_lt
  simp only [decodeTwo]
  rw [Alphabet.value?_digit _ (by omega), Alphabet.value?_digit _ (by omega),
    Alphabet.value?_digit _ (by omega)]
  simp only [Option.bind_eq_bind, Option.bind_some, Option.pure_def]
  rw [show x.toNat / 4 * 4 + (x.toNat % 4 * 16 + y.toNat / 16) / 16 = x.toNat by omega,
    show (x.toNat % 4 * 16 + y.toNat / 16) % 16 * 16 + y.toNat % 16 * 4 / 4 = y.toNat by omega,
    UInt8.ofNat_toNat, UInt8.ofNat_toNat]

theorem decodeThree_digits :
    decodeThree e (e.alphabet.digit (x.toNat / 4))
      (e.alphabet.digit (x.toNat % 4 * 16 + y.toNat / 16))
      (e.alphabet.digit (y.toNat % 16 * 4 + z.toNat / 64))
      (e.alphabet.digit (z.toNat % 64)) = some [x, y, z] := by
  have hx := x.toNat_lt
  have hy := y.toNat_lt
  have hz := z.toNat_lt
  simp only [decodeThree]
  rw [Alphabet.value?_digit _ (by omega), Alphabet.value?_digit _ (by omega),
    Alphabet.value?_digit _ (by omega), Alphabet.value?_digit _ (by omega)]
  simp only [Option.bind_eq_bind, Option.bind_some, Option.pure_def]
  rw [show x.toNat / 4 * 4 + (x.toNat % 4 * 16 + y.toNat / 16) / 16 = x.toNat by omega,
    show (x.toNat % 4 * 16 + y.toNat / 16) % 16 * 16 +
      (y.toNat % 16 * 4 + z.toNat / 64) / 4 = y.toNat by omega,
    show (y.toNat % 16 * 4 + z.toNat / 64) % 4 * 64 + z.toNat % 64 = z.toNat by omega,
    UInt8.ofNat_toNat, UInt8.ofNat_toNat, UInt8.ofNat_toNat]

end

theorem decodeQuanta_encode (bytes : List UInt8) :
    decodeQuanta e (encode e bytes) = some bytes := by
  induction bytes using encode.induct with
  | case1 => rfl
  | case2 x =>
    cases hp : e.padded with
    | false => simp [encode, padding, decodeQuanta, hp, decodeOne_digits]
    | true => simp [encode, padding, decodeQuanta, hp, decodeOne_digits]
  | case3 x y =>
    have hy := y.toNat_lt
    have hne := e.alphabet.digit_ne_padChar (show y.toNat % 16 * 4 < 64 by omega)
    cases hp : e.padded with
    | false => simp [encode, padding, decodeQuanta, hp, decodeTwo_digits]
    | true => simp [encode, padding, decodeQuanta, hp, decodeTwo_digits, hne]
  | case4 x y z rest ih =>
    have hne := e.alphabet.digit_ne_padChar (Nat.mod_lt z.toNat (show 64 > 0 by omega))
    simp [encode, decodeQuanta, hne, decodeThree_digits, ih]

/-- No line break is written. -/
theorem isBreak_of_mem_encode {bytes : List UInt8} {c : Char} (h : c ∈ encode e bytes) :
    isBreak c = false := by
  have hpad : ∀ {n : Nat}, c ∈ padding e n → isBreak c = false := by
    intro n hc
    unfold padding at hc
    split at hc
    · rw [List.eq_of_mem_replicate hc]
      rfl
    · cases hc
  have hdigit : ∀ {n : Nat}, n < 64 → c = e.alphabet.digit n → isBreak c = false := by
    rintro n hn rfl
    simp [isBreak, e.alphabet.digit_ne_break hn]
  induction bytes using encode.induct with
  | case1 => cases h
  | case2 x =>
    have hx := x.toNat_lt
    simp only [encode, List.cons_append, List.nil_append, List.mem_cons] at h
    rcases h with h | h | h
    · exact hdigit (by omega) h
    · exact hdigit (by omega) h
    · exact hpad h
  | case3 x y =>
    have hx := x.toNat_lt
    have hy := y.toNat_lt
    simp only [encode, List.cons_append, List.nil_append, List.mem_cons] at h
    rcases h with h | h | h | h
    · exact hdigit (by omega) h
    · exact hdigit (by omega) h
    · exact hdigit (by omega) h
    · exact hpad h
  | case4 x y z rest ih =>
    have hx := x.toNat_lt
    have hy := y.toNat_lt
    have hz := z.toNat_lt
    simp only [encode, List.mem_cons] at h
    rcases h with h | h | h | h | h
    · exact hdigit (by omega) h
    · exact hdigit (by omega) h
    · exact hdigit (by omega) h
    · exact hdigit (by omega) h
    · exact ih h

/-- Decoding gives back what was encoded. -/
theorem decode_encode (bytes : List UInt8) : decode e (encode e bytes) = some bytes := by
  have hclean : (encode e bytes).filter (fun c => !isBreak c) = encode e bytes := by
    rw [List.filter_eq_self]
    intro c hc
    rw [isBreak_of_mem_encode e hc]
    rfl
  rw [decode, hclean, decodeQuanta_encode]

theorem encode_ne_nil {bytes : List UInt8} (h : bytes ≠ []) : encode e bytes ≠ [] := by
  intro henc
  have hd := decode_encode e bytes
  rw [henc] at hd
  exact h (Option.some.inj hd).symm

end Rdq.Foundation.Base64
