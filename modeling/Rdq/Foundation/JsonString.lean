import Mathlib.Data.Char
import Mathlib.Tactic.Common
import Rdq.Foundation.Strconv

/-!
# JSON strings in bytes

The text between the quotes of a JSON string, cut into pieces: plain bytes, short
escapes and `\u` escapes. Every list of pieces is well formed, and a text is scanned
into the only list of pieces it is the text of.

`unquote` and `quote` are how `encoding/json` reads and writes a string. Bytes that are
not UTF-8 and lone surrogates are read as U+FFFD. Writing escapes what JSON requires,
U+2028 and U+2029, and with `html` also `<`, `>` and `&`.
-/

namespace Rdq.Foundation.JsonText

abbrev Bytes := List UInt8

/-- The byte of an ASCII character. -/
def ascii (c : Char) : UInt8 := UInt8.ofNat c.toNat

/-! ## Pieces -/

/-- A byte that stands for itself inside a string. -/
def PlainByte := { b : UInt8 // 0x20 ≤ b ∧ b ≠ ascii '"' ∧ b ≠ ascii '\\' }

def hexValue? (b : UInt8) : Option Nat :=
  if ascii '0' ≤ b ∧ b ≤ ascii '9' then some (b.toNat - 48)
  else if ascii 'a' ≤ b ∧ b ≤ ascii 'f' then some (b.toNat - 87)
  else if ascii 'A' ≤ b ∧ b ≤ ascii 'F' then some (b.toNat - 55)
  else none

def HexDigit := { b : UInt8 // (hexValue? b).isSome = true }

def HexDigit.value (h : HexDigit) : Nat := (hexValue? h.1).get h.2

/-- The escapes of two characters. -/
inductive Escape
  | quote
  | backslash
  | slash
  | backspace
  | formFeed
  | newline
  | carriageReturn
  | tab
deriving DecidableEq, Repr

namespace Escape

/-- The character after the backslash. -/
def letter : Escape → Char
  | quote => '"'
  | backslash => '\\'
  | slash => '/'
  | backspace => 'b'
  | formFeed => 'f'
  | newline => 'n'
  | carriageReturn => 'r'
  | tab => 't'

/-- The character the escape stands for. -/
def char : Escape → Char
  | quote => '"'
  | backslash => '\\'
  | slash => '/'
  | backspace => Char.ofNat 8
  | formFeed => Char.ofNat 12
  | newline => '\n'
  | carriageReturn => '\r'
  | tab => '\t'

def all : List Escape :=
  [quote, backslash, slash, backspace, formFeed, newline, carriageReturn, tab]

def ofByte? (b : UInt8) : Option Escape := all.find? fun e => ascii e.letter = b

@[simp] theorem ofByte?_letter (e : Escape) : ofByte? (ascii e.letter) = some e := by
  cases e <;> decide

theorem letter_ne_u (e : Escape) : ascii e.letter ≠ ascii 'u' := by
  cases e <;> decide

end Escape

inductive Piece
  | plain (b : PlainByte)
  | escape (e : Escape)
  | unicode (h₃ h₂ h₁ h₀ : HexDigit)

def Piece.text : Piece → Bytes
  | plain b => [b.1]
  | escape e => [ascii '\\', ascii e.letter]
  | unicode h₃ h₂ h₁ h₀ => [ascii '\\', ascii 'u', h₃.1, h₂.1, h₁.1, h₀.1]

def piecesText (ps : List Piece) : Bytes := ps.flatMap Piece.text

@[simp] theorem piecesText_nil : piecesText [] = [] := rfl

@[simp] theorem piecesText_cons (p : Piece) (ps : List Piece) :
    piecesText (p :: ps) = p.text ++ piecesText ps := rfl

/-- The piece a text starts with. -/
def nextPiece : Bytes → Option (Piece × Bytes)
  | [] => none
  | b :: s =>
    if b = ascii '\\' then
      match s with
      | [] => none
      | e :: s =>
        if e = ascii 'u' then
          match s with
          | b₃ :: b₂ :: b₁ :: b₀ :: s =>
            if h : (hexValue? b₃).isSome = true ∧ (hexValue? b₂).isSome = true ∧
                (hexValue? b₁).isSome = true ∧ (hexValue? b₀).isSome = true then
              some (.unicode ⟨b₃, h.1⟩ ⟨b₂, h.2.1⟩ ⟨b₁, h.2.2.1⟩ ⟨b₀, h.2.2.2⟩, s)
            else none
          | _ => none
        else (Escape.ofByte? e).map fun e => (.escape e, s)
    else if h : 0x20 ≤ b ∧ b ≠ ascii '"' ∧ b ≠ ascii '\\' then some (.plain ⟨b, h⟩, s)
    else none

theorem nextPiece_text (p : Piece) (rest : Bytes) :
    nextPiece (p.text ++ rest) = some (p, rest) := by
  cases p with
  | plain b =>
    have hb := b.2
    simp only [Piece.text, List.cons_append, List.nil_append, nextPiece, if_neg hb.2.2,
      dif_pos hb]
    rfl
  | escape e =>
    simp [Piece.text, nextPiece, e.letter_ne_u]
  | unicode h₃ h₂ h₁ h₀ =>
    simp only [Piece.text, List.cons_append, List.nil_append, nextPiece, if_true]
    rw [dif_pos ⟨h₃.2, h₂.2, h₁.2, h₀.2⟩]
    rfl

/-- No piece starts with the closing quote. -/
theorem Piece.text_eq_cons (p : Piece) : ∃ b s, p.text = b :: s ∧ b ≠ ascii '"' := by
  cases p with
  | plain b => exact ⟨b.1, [], rfl, b.2.2.1⟩
  | escape e => exact ⟨_, _, rfl, by decide⟩
  | unicode => exact ⟨_, _, rfl, by decide⟩

/-- The pieces of a text up to the closing quote, and what follows the quote. -/
def scanPieces : Nat → Bytes → Option (List Piece × Bytes)
  | 0, _ => none
  | _ + 1, [] => none
  | fuel + 1, b :: s =>
    if b = ascii '"' then some ([], s)
    else
      match nextPiece (b :: s) with
      | none => none
      | some (p, s) => (scanPieces fuel s).map fun x => (p :: x.1, x.2)

theorem scanPieces_text (ps : List Piece) (rest : Bytes) {fuel : Nat} (h : ps.length < fuel) :
    scanPieces fuel (piecesText ps ++ ascii '"' :: rest) = some (ps, rest) := by
  induction ps generalizing fuel with
  | nil =>
    obtain ⟨fuel, rfl⟩ := Nat.exists_eq_succ_of_ne_zero (Nat.ne_of_gt (Nat.zero_lt_of_lt h))
    simp [scanPieces]
  | cons p ps ih =>
    obtain ⟨fuel, rfl⟩ := Nat.exists_eq_succ_of_ne_zero (Nat.ne_of_gt (Nat.zero_lt_of_lt h))
    obtain ⟨b, t, htext, hb⟩ := p.text_eq_cons
    have hnext := nextPiece_text p (piecesText ps ++ ascii '"' :: rest)
    rw [htext, List.cons_append] at hnext
    rw [piecesText_cons, htext, List.cons_append, List.cons_append, List.append_assoc,
      scanPieces, if_neg hb, hnext]
    simp only [ih (Nat.lt_of_succ_lt_succ h), Option.map_some]

theorem length_le_piecesText (ps : List Piece) : ps.length ≤ (piecesText ps).length := by
  induction ps with
  | nil => exact Nat.le_refl 0
  | cons p ps ih =>
    obtain ⟨b, t, htext, -⟩ := p.text_eq_cons
    simp only [piecesText_cons, htext, List.length_append, List.length_cons]
    omega

/-! ## Reading a string -/

def replacementChar : Char := Char.ofNat 0xFFFD

/-- The character at the front of a text and its width; a byte that starts none is
U+FFFD of width one. -/
def decodeRune (bs : Bytes) : Char × Nat :=
  match bs.toByteArray.utf8DecodeChar? 0 with
  | some c => (c, c.utf8Size)
  | none => (replacementChar, 1)

theorem decodeRune_encode (c : Char) (rest : Bytes) :
    decodeRune (String.utf8EncodeChar c ++ rest) = (c, c.utf8Size) := by
  simp only [decodeRune, List.toByteArray_append, ByteArray.utf8DecodeChar?_utf8EncodeChar_append]

/-- The plain bytes a list of pieces starts with. -/
def plainRun : List Piece → Bytes
  | .plain b :: ps => b.1 :: plainRun ps
  | _ => []

/-- The code unit of a `\u` escape. -/
def codeUnit (h₃ h₂ h₁ h₀ : HexDigit) : Nat :=
  h₃.value * 4096 + h₂.value * 256 + h₁.value * 16 + h₀.value

/-- The character a surrogate pair stands for. -/
def decodePair? (hi : Nat) : List Piece → Option Char
  | .unicode h₃ h₂ h₁ h₀ :: _ =>
    let lo := codeUnit h₃ h₂ h₁ h₀
    if 0xD800 ≤ hi ∧ hi < 0xDC00 ∧ 0xDC00 ≤ lo ∧ lo < 0xE000 then
      some (Char.ofNat ((hi - 0xD800) * 1024 + (lo - 0xDC00) + 0x10000))
    else none
  | _ => none

/-- The characters of a list of pieces, after the first `skip` pieces, which belong to a
character already read. -/
def unquoteFrom : Nat → List Piece → List Char
  | _, [] => []
  | skip + 1, _ :: ps => unquoteFrom skip ps
  | 0, .plain b :: ps =>
    let rune := decodeRune (b.1 :: plainRun ps)
    rune.1 :: unquoteFrom (rune.2 - 1) ps
  | 0, .escape e :: ps => e.char :: unquoteFrom 0 ps
  | 0, .unicode h₃ h₂ h₁ h₀ :: ps =>
    let unit := codeUnit h₃ h₂ h₁ h₀
    if 0xD800 ≤ unit ∧ unit < 0xE000 then
      match decodePair? unit ps with
      | some c => c :: unquoteFrom 1 ps
      | none => replacementChar :: unquoteFrom 0 ps
    else Char.ofNat unit :: unquoteFrom 0 ps

def unquote (ps : List Piece) : String := String.ofList (unquoteFrom 0 ps)

theorem unquoteFrom_skip (qs ps : List Piece) :
    unquoteFrom qs.length (qs ++ ps) = unquoteFrom 0 ps := by
  induction qs with
  | nil => rfl
  | cons q qs ih => simpa only [List.length_cons, List.cons_append, unquoteFrom] using ih

/-! ## Writing a string -/

/-- The lower-case digit of a number below sixteen. -/
def hexDigit (n : Fin 16) : HexDigit :=
  ⟨if n.val < 10 then UInt8.ofNat (48 + n.val) else UInt8.ofNat (87 + n.val), by
    revert n
    decide⟩

theorem hexDigit_value (n : Fin 16) : (hexDigit n).value = n.val := by
  revert n
  decide

def unicodeEscape (n : Nat) : Piece :=
  .unicode (hexDigit (Fin.ofNat 16 (n / 4096))) (hexDigit (Fin.ofNat 16 (n / 256)))
    (hexDigit (Fin.ofNat 16 (n / 16))) (hexDigit (Fin.ofNat 16 n))

theorem codeUnit_unicodeEscape {n : Nat} (h : n < 65536) :
    codeUnit (hexDigit (Fin.ofNat 16 (n / 4096))) (hexDigit (Fin.ofNat 16 (n / 256)))
      (hexDigit (Fin.ofNat 16 (n / 16))) (hexDigit (Fin.ofNat 16 n)) = n := by
  simp only [codeUnit, hexDigit_value, Fin.val_ofNat]
  omega

/-- A byte as a piece of its own: itself where it may stand so, escaped elsewhere. -/
def Piece.ofByte (b : UInt8) : Piece :=
  if h : 0x20 ≤ b ∧ b ≠ ascii '"' ∧ b ≠ ascii '\\' then .plain ⟨b, h⟩ else unicodeEscape b.toNat

/-- The short escapes that are written. -/
def shortEscape? (c : Char) : Option Escape :=
  [Escape.quote, .backslash, .backspace, .formFeed, .newline, .carriageReturn, .tab].find?
    fun e => e.char = c

/-- What is written as a `\u` escape. -/
def escaped (html : Bool) (c : Char) : Bool :=
  decide (c.toNat < 0x20) || c.toNat == 0x2028 || c.toNat == 0x2029 ||
    (html && (c == '<' || c == '>' || c == '&'))

def quoteChar (html : Bool) (c : Char) : List Piece :=
  match shortEscape? c with
  | some e => [.escape e]
  | none =>
    if escaped html c then [unicodeEscape c.toNat]
    else (String.utf8EncodeChar c).map Piece.ofByte

def quote (html : Bool) (s : String) : List Piece := s.toList.flatMap (quoteChar html)

theorem char_of_shortEscape? {c : Char} {e : Escape} (h : shortEscape? c = some e) :
    e.char = c := by
  simpa using List.find?_some h

/-- A character without an escape is made of bytes that stand for themselves. -/
theorem plain_of_mem_encode {c : Char} (hshort : shortEscape? c = none) (hctl : 0x20 ≤ c.toNat)
    {b : UInt8} (hb : b ∈ String.utf8EncodeChar c) :
    0x20 ≤ b ∧ b ≠ ascii '"' ∧ b ≠ ascii '\\' := by
  have hne : ∀ e ∈ [Escape.quote, .backslash], e.char ≠ c := by
    intro e he
    have hall := List.find?_eq_none.mp hshort e
    simp only [List.mem_cons, List.not_mem_nil, or_false] at he
    rcases he with rfl | rfl <;> simpa using hall (by simp)
  have hquote : c.toNat ≠ 34 := fun h =>
    hne .quote (by simp) (Char.ext (UInt32.toNat_inj.mp h.symm))
  have hback : c.toNat ≠ 92 := fun h =>
    hne .backslash (by simp) (Char.ext (UInt32.toNat_inj.mp h.symm))
  have hbyte : 0x20 ≤ b.toNat ∧ b.toNat ≠ 34 ∧ b.toNat ≠ 92 := by
    change 0x20 ≤ c.val.toNat at hctl
    change c.val.toNat ≠ 34 at hquote
    change c.val.toNat ≠ 92 at hback
    simp only [String.utf8EncodeChar] at hb
    split at hb
    · simp only [List.mem_singleton] at hb
      rw [hb, UInt8.toNat_ofNat']
      omega
    · split at hb
      · simp only [List.mem_cons, List.not_mem_nil, or_false] at hb
        rcases hb with rfl | rfl <;> rw [UInt8.toNat_ofNat'] <;> omega
      · split at hb
        all_goals
          simp only [List.mem_cons, List.not_mem_nil, or_false] at hb
        · rcases hb with rfl | rfl | rfl <;> rw [UInt8.toNat_ofNat'] <;> omega
        · rcases hb with rfl | rfl | rfl | rfl <;> rw [UInt8.toNat_ofNat'] <;> omega
  refine ⟨UInt8.le_iff_toNat_le.mpr hbyte.1, ?_, ?_⟩
  · rintro rfl
    exact hbyte.2.1 rfl
  · rintro rfl
    exact hbyte.2.2 rfl

/-- The bytes of a run of plain pieces. -/
theorem plainRun_ofByte {bs : Bytes} (ps : List Piece)
    (h : ∀ b ∈ bs, 0x20 ≤ b ∧ b ≠ ascii '"' ∧ b ≠ ascii '\\') :
    plainRun (bs.map Piece.ofByte ++ ps) = bs ++ plainRun ps := by
  induction bs with
  | nil => rfl
  | cons b bs ih =>
    have hb := h b List.mem_cons_self
    simp only [List.map_cons, List.cons_append, Piece.ofByte, dif_pos hb, plainRun]
    rw [← ih fun b hb => h b (List.mem_cons_of_mem _ hb)]

theorem unquoteFrom_unicodeEscape {c : Char} (h : c.toNat < 65536) (ps : List Piece) :
    unquoteFrom 0 (unicodeEscape c.toNat :: ps) = c :: unquoteFrom 0 ps := by
  have hvalid : ¬(0xD800 ≤ c.toNat ∧ c.toNat < 0xE000) := by
    have hc : c.toNat < 0xD800 ∨ 0xDFFF < c.toNat ∧ c.toNat < 0x110000 := c.valid
    omega
  simp only [unicodeEscape, unquoteFrom, codeUnit_unicodeEscape h, if_neg hvalid, Char.ofNat_toNat]

/-- Every character is read back from what is written for it. -/
theorem unquoteFrom_quoteChar (html : Bool) (c : Char) (ps : List Piece) :
    unquoteFrom 0 (quoteChar html c ++ ps) = c :: unquoteFrom 0 ps := by
  unfold quoteChar
  cases hshort : shortEscape? c with
  | some e => simp [unquoteFrom, char_of_shortEscape? hshort]
  | none =>
    dsimp only
    split
    · rename_i hesc
      have hsmall : c.toNat < 65536 := by
        simp only [escaped, Bool.or_eq_true, decide_eq_true_eq, beq_iff_eq,
          Bool.and_eq_true] at hesc
        rcases hesc with ((h | h) | h) | ⟨-, (rfl | rfl) | rfl⟩
        · omega
        · omega
        · omega
        all_goals decide
      exact unquoteFrom_unicodeEscape hsmall ps
    · rename_i hesc
      have hctl : 0x20 ≤ c.toNat := by
        by_contra hlt
        exact hesc (by simp [escaped, Nat.lt_of_not_le hlt])
      have hplain : ∀ b ∈ String.utf8EncodeChar c, _ := fun b hb =>
        plain_of_mem_encode hshort hctl hb
      have hlen := String.length_utf8EncodeChar c
      have hdecode := decodeRune_encode c (plainRun ps)
      generalize String.utf8EncodeChar c = bs at hplain hlen hdecode
      cases bs with
      | nil =>
        have := Char.utf8Size_pos c
        simp only [List.length_nil] at hlen
        omega
      | cons b bs =>
        have hb := hplain b List.mem_cons_self
        have hrun := plainRun_ofByte ps fun b hb => hplain b (List.mem_cons_of_mem _ hb)
        have hskip := unquoteFrom_skip (bs.map Piece.ofByte) ps
        rw [List.length_map] at hskip
        rw [List.cons_append] at hdecode
        simp only [List.map_cons, List.cons_append, Piece.ofByte, dif_pos hb, unquoteFrom]
        change (decodeRune (b :: plainRun (bs.map Piece.ofByte ++ ps))).1 ::
          unquoteFrom ((decodeRune (b :: plainRun (bs.map Piece.ofByte ++ ps))).2 - 1)
            (bs.map Piece.ofByte ++ ps) = _
        rw [hrun, hdecode, ← hlen]
        exact congrArg (c :: ·) hskip

/-- A string is read back from what is written for it, in either way of writing. -/
@[simp] theorem unquote_quote (html : Bool) (s : String) : unquote (quote html s) = s := by
  have hread : ∀ cs : List Char, unquoteFrom 0 (cs.flatMap (quoteChar html)) = cs := by
    intro cs
    induction cs with
    | nil => rfl
    | cons c cs ih => rw [List.flatMap_cons, unquoteFrom_quoteChar, ih]
  rw [unquote, quote, hread, String.ofList_toList]

end Rdq.Foundation.JsonText
