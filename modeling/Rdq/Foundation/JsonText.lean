import Mathlib.Data.List.TakeWhile
import Rdq.Foundation.JsonString

/-!
# JSON documents in bytes

The concrete syntax of a JSON text: a tree that keeps every byte, whitespace and the
spelling of numbers and strings included. Every tree is a well-formed document, and
`parse` reads a text into the only tree it is the text of. The raw text of a part is
the text of its subtree, and compacting is taking the whitespace out of the tree.
-/

namespace Rdq.Foundation.JsonText

/-- The text does not start with a byte of the class. -/
def Stops (p : UInt8 → Bool) (s : Bytes) : Prop := ∀ b ∈ s.head?, p b = false

theorem stops_nil (p : UInt8 → Bool) : Stops p [] := by simp [Stops]

variable {s : Bytes} {k : Kind} {p : UInt8 → Bool}

theorem stops_cons {b : UInt8} (h : p b = false) (s : Bytes) :
    Stops p (b :: s) := by
  simpa [Stops] using h

theorem takeWhile_append_stops {xs s : Bytes} (hxs : ∀ b ∈ xs, p b = true) (hs : Stops p s) :
    (xs ++ s).takeWhile p = xs := by
  rw [List.takeWhile_append_of_pos hxs]
  cases s with
  | nil => simp
  | cons b s => simp [hs b (by simp)]

theorem dropWhile_append_stops {xs s : Bytes} (hxs : ∀ b ∈ xs, p b = true) (hs : Stops p s) :
    (xs ++ s).dropWhile p = s := by
  rw [List.dropWhile_append_of_pos hxs]
  cases s with
  | nil => simp
  | cons b s => simp [hs b (by simp)]

/-! ## Whitespace -/

def isSpace (b : UInt8) : Bool := b == 0x20 || b == 0x09 || b == 0x0A || b == 0x0D

def Space := { w : Bytes // ∀ b ∈ w, isSpace b = true }

def Space.none : Space := ⟨[], by simp⟩

def scanSpace (s : Bytes) : Space × Bytes :=
  (⟨s.takeWhile isSpace, fun _ hb => List.mem_takeWhile_imp hb⟩, s.dropWhile isSpace)

theorem scanSpace_text (w : Space) (hs : Stops isSpace s) :
    scanSpace (w.1 ++ s) = (w, s) :=
  Prod.ext (Subtype.ext (takeWhile_append_stops w.2 hs)) (dropWhile_append_stops w.2 hs)

/-! ## Numbers -/

def isDigit (b : UInt8) : Bool := decide (ascii '0' ≤ b ∧ b ≤ ascii '9')

def Digits := { ds : Bytes // ds ≠ [] ∧ ∀ d ∈ ds, isDigit d = true }

def scanDigits (s : Bytes) : Option (Digits × Bytes) :=
  if h : s.takeWhile isDigit ≠ [] then
    some (⟨s.takeWhile isDigit, h, fun _ hd => List.mem_takeWhile_imp hd⟩, s.dropWhile isDigit)
  else none

theorem scanDigits_text (ds : Digits) (hs : Stops isDigit s) :
    scanDigits (ds.1 ++ s) = some (ds, s) := by
  have htake := takeWhile_append_stops ds.2.2 hs
  unfold scanDigits
  rw [dif_pos (by rw [htake]; exact ds.2.1)]
  exact congrArg some
    (Prod.ext (Subtype.ext htake) (dropWhile_append_stops ds.2.2 hs))

/-- The part before the point: no digit follows a leading zero. -/
inductive Whole
  | zero
  | digits (ds : Digits) (h : ds.1.head? ≠ some (ascii '0'))

def Whole.text : Whole → Bytes
  | zero => [ascii '0']
  | digits ds _ => ds.1

structure Exponent where
  upper : Bool
  sign : Option Bool
  digits : Digits

def signText : Option Bool → Bytes
  | none => []
  | some true => [ascii '-']
  | some false => [ascii '+']

def Exponent.text (e : Exponent) : Bytes :=
  (if e.upper then ascii 'E' else ascii 'e') :: (signText e.sign ++ e.digits.1)

structure Number where
  negative : Bool
  whole : Whole
  fraction : Option Digits
  exponent : Option Exponent

def fractionText : Option Digits → Bytes
  | none => []
  | some ds => ascii '.' :: ds.1

def exponentText : Option Exponent → Bytes
  | none => []
  | some e => e.text

def Number.text (n : Number) : Bytes :=
  (if n.negative then [ascii '-'] else []) ++
    (n.whole.text ++ (fractionText n.fraction ++ exponentText n.exponent))

def scanWhole : Bytes → Option (Whole × Bytes)
  | [] => none
  | b :: s =>
    if hzero : b = ascii '0' then some (.zero, s)
    else if hb : isDigit b = true then
      some (.digits ⟨(b :: s).takeWhile isDigit, by simp [hb],
        fun _ hd => List.mem_takeWhile_imp hd⟩ (by simp [hb, hzero]), (b :: s).dropWhile isDigit)
    else none

def scanFraction : Bytes → Option (Option Digits × Bytes)
  | [] => some (none, [])
  | b :: s =>
    if b = ascii '.' then (scanDigits s).map fun x => (some x.1, x.2)
    else some (none, b :: s)

def scanSign : Bytes → Option Bool × Bytes
  | [] => (none, [])
  | b :: s =>
    if b = ascii '-' then (some true, s)
    else if b = ascii '+' then (some false, s)
    else (none, b :: s)

def scanExponent : Bytes → Option (Option Exponent × Bytes)
  | [] => some (none, [])
  | b :: s =>
    if b = ascii 'e' ∨ b = ascii 'E' then
      (scanDigits (scanSign s).2).map fun x =>
        (some ⟨decide (b = ascii 'E'), (scanSign s).1, x.1⟩, x.2)
    else some (none, b :: s)

def scanMinus : Bytes → Bool × Bytes
  | [] => (false, [])
  | b :: s => if b = ascii '-' then (true, s) else (false, b :: s)

def scanNumber (s : Bytes) : Option (Number × Bytes) := do
  let (whole, s₁) ← scanWhole (scanMinus s).2
  let (fraction, s₂) ← scanFraction s₁
  let (exponent, s₃) ← scanExponent s₂
  return (⟨(scanMinus s).1, whole, fraction, exponent⟩, s₃)

/-- A byte that may continue a number. -/
def inNumber (b : UInt8) : Bool :=
  isDigit b || b == ascii '.' || b == ascii 'e' || b == ascii 'E'

theorem Stops.mono {p q : UInt8 → Bool} (h : Stops p s) (hq : ∀ b, q b = true → p b = true) :
    Stops q s := by
  intro b hb
  cases hqb : q b with
  | false => rfl
  | true =>
    have := h b hb
    rw [hq b hqb] at this
    cases this

theorem stops_exponentText (he : p (ascii 'e') = false) (hE : p (ascii 'E') = false)
    (e : Option Exponent) (hs : Stops p s) :
    Stops p (exponentText e ++ s) := by
  cases e with
  | none => exact hs
  | some e =>
    refine stops_cons ?_ _
    cases e.upper
    · exact he
    · exact hE

theorem stops_fractionText (f : Option Digits) (hs : Stops isDigit s) :
    Stops isDigit (fractionText f ++ s) := by
  cases f with
  | none => exact hs
  | some ds => exact stops_cons (by decide) _

theorem scanWhole_text (w : Whole) (hs : Stops isDigit s) :
    scanWhole (w.text ++ s) = some (w, s) := by
  cases w with
  | zero => rfl
  | digits ds h =>
    have htake := takeWhile_append_stops ds.2.2 hs
    have hdrop := dropWhile_append_stops ds.2.2 hs
    obtain ⟨b, bs, hds⟩ := List.exists_cons_of_ne_nil ds.2.1
    have hb : isDigit b = true := ds.2.2 b (by simp [hds])
    have hzero : b ≠ ascii '0' := by
      rintro rfl
      exact h (by simp [hds])
    simp only [Whole.text]
    rw [hds, List.cons_append] at htake hdrop ⊢
    simp only [scanWhole, dif_neg hzero, dif_pos hb, Option.some.injEq, Prod.mk.injEq]
    refine ⟨?_, hdrop⟩
    congr 1
    exact Subtype.ext (htake.trans hds.symm)

theorem scanFraction_text (f : Option Digits)
    (hs : Stops (fun b => isDigit b || b == ascii '.') s) :
    scanFraction (fractionText f ++ s) = some (f, s) := by
  cases f with
  | none =>
    cases s with
    | nil => rfl
    | cons b s =>
      have hb : b ≠ ascii '.' := by
        rintro rfl
        cases hs (ascii '.') rfl
      simp [fractionText, scanFraction, hb]
  | some ds =>
    have hdigits := scanDigits_text ds (hs.mono fun b hb => by simp [hb])
    simp [fractionText, scanFraction, hdigits]

theorem scanSign_text (sign : Option Bool) (ds : Digits) (s : Bytes) :
    scanSign (signText sign ++ (ds.1 ++ s)) = (sign, ds.1 ++ s) := by
  cases sign with
  | some b => cases b <;> rfl
  | none =>
    obtain ⟨b, bs, hds⟩ := List.exists_cons_of_ne_nil ds.2.1
    have hb : isDigit b = true := ds.2.2 b (by simp [hds])
    have hminus : b ≠ ascii '-' := by
      rintro rfl
      cases hb
    have hplus : b ≠ ascii '+' := by
      rintro rfl
      cases hb
    simp [signText, hds, scanSign, hminus, hplus]

theorem scanExponent_text (e : Option Exponent) (hs : Stops inNumber s) :
    scanExponent (exponentText e ++ s) = some (e, s) := by
  cases e with
  | none =>
    cases s with
    | nil => rfl
    | cons b s =>
      have hb : ¬(b = ascii 'e' ∨ b = ascii 'E') := by
        rintro (rfl | rfl)
        · cases hs (ascii 'e') rfl
        · cases hs (ascii 'E') rfl
      simp only [exponentText, List.nil_append, scanExponent, if_neg hb]
  | some e =>
    have hdigits := scanDigits_text e.digits (hs.mono fun b hb => by simp [inNumber, hb])
    have hmark : (if e.upper then ascii 'E' else ascii 'e') = ascii 'e' ∨
        (if e.upper then ascii 'E' else ascii 'e') = ascii 'E' := by
      cases e.upper
      · exact Or.inl rfl
      · exact Or.inr rfl
    have hupper : decide ((if e.upper then ascii 'E' else ascii 'e') = ascii 'E') = e.upper := by
      cases e.upper <;> decide
    simp only [exponentText, Exponent.text, List.cons_append, List.append_assoc, scanExponent,
      if_pos hmark, scanSign_text, hdigits, hupper, Option.map_some]

theorem scanMinus_text (negative : Bool) (w : Whole) (s : Bytes) :
    scanMinus ((if negative then [ascii '-'] else []) ++ (w.text ++ s)) =
      (negative, w.text ++ s) := by
  cases negative with
  | true => rfl
  | false =>
    cases w with
    | zero => rfl
    | digits ds h =>
      obtain ⟨b, bs, hds⟩ := List.exists_cons_of_ne_nil ds.2.1
      have hminus : b ≠ ascii '-' := by
        rintro rfl
        cases ds.2.2 _ (hds ▸ List.mem_cons_self)
      simp [Whole.text, hds, scanMinus, hminus]

theorem scanNumber_text (n : Number) (hs : Stops inNumber s) :
    scanNumber (n.text ++ s) = some (n, s) := by
  have hexp : Stops (fun b => isDigit b || b == ascii '.') (exponentText n.exponent ++ s) :=
    stops_exponentText (by decide) (by decide) _
      (hs.mono fun b hb => by
        rcases Bool.or_eq_true_iff.mp hb with hb | hb <;> simp [inNumber, hb])
  have hfrac := stops_fractionText n.fraction (hexp.mono fun b hb => by simp [hb])
  simp only [scanNumber, Number.text, List.append_assoc, scanMinus_text, scanWhole_text _ hfrac,
    scanFraction_text _ hexp, scanExponent_text _ hs, Option.bind_eq_bind, Option.bind_some,
    Option.pure_def]

/-! ## Documents -/

inductive Kind
  | array
  | object
deriving DecidableEq, Repr

def Kind.opener : Kind → UInt8
  | array => ascii '['
  | object => ascii '\x7b'

def Kind.closer : Kind → UInt8
  | array => ascii ']'
  | object => ascii '\x7d'

theorem Kind.isSpace_closer (k : Kind) : isSpace k.closer = false := by
  cases k <;> decide

theorem Kind.closer_ne_comma (k : Kind) : k.closer ≠ ascii ',' := by
  cases k <;> decide

/-- The name of a member, with the whitespace on both sides of the colon. -/
structure Key where
  name : List Piece
  before : Space
  after : Space

/-- What stands before a value: nothing in an array, its name in an object. -/
inductive Label : Kind → Type
  | item : Label .array
  | member (key : Key) : Label .object

def strText (ps : List Piece) : Bytes := ascii '"' :: (piecesText ps ++ [ascii '"'])

def Label.text : {k : Kind} → Label k → Bytes
  | _, .item => []
  | _, .member key => strText key.name ++ (key.before.1 ++ ascii ':' :: key.after.1)

mutual

/-- A JSON value with all of its text. -/
inductive Cst
  | null
  | bool (b : Bool)
  | num (n : Number)
  | str (ps : List Piece)
  | empty (k : Kind) (pad : Space)
  | node (k : Kind) (elems : Elems k)

/-- The values of an array or the members of an object, at least one. -/
inductive Elems : Kind → Type
  | one {k : Kind} (pre : Space) (label : Label k) (v : Cst) (post : Space) : Elems k
  | cons {k : Kind} (pre : Space) (label : Label k) (v : Cst) (post : Space)
      (rest : Elems k) : Elems k

end

def nullText : Bytes := [ascii 'n', ascii 'u', ascii 'l', ascii 'l']

def boolText : Bool → Bytes
  | true => [ascii 't', ascii 'r', ascii 'u', ascii 'e']
  | false => [ascii 'f', ascii 'a', ascii 'l', ascii 's', ascii 'e']

mutual

def Cst.text : Cst → Bytes
  | .null => nullText
  | .bool b => boolText b
  | .num n => n.text
  | .str ps => strText ps
  | .empty k pad => k.opener :: (pad.1 ++ [k.closer])
  | .node k elems => k.opener :: (elems.text ++ [k.closer])

def Elems.text : {k : Kind} → Elems k → Bytes
  | _, .one pre label v post => pre.1 ++ (label.text ++ (v.text ++ post.1))
  | _, .cons pre label v post rest =>
    pre.1 ++ (label.text ++ (v.text ++ (post.1 ++ ascii ',' :: rest.text)))

end

/-! ### Reading -/

/-- A fixed word. -/
def scanWord (t : Cst) (s : Bytes) : Option (Cst × Bytes) :=
  if t.text <+: s then some (t, s.drop t.text.length) else none

def scanString : Bytes → Option (List Piece × Bytes)
  | [] => none
  | b :: s => if b = ascii '"' then scanPieces (s.length + 1) s else none

def scanColon (name : List Piece) (s : Bytes) : Option (Key × Bytes) :=
  match (scanSpace s).2 with
  | [] => none
  | b :: t =>
    if b = ascii ':' then some (⟨name, (scanSpace s).1, (scanSpace t).1⟩, (scanSpace t).2)
    else none

def scanLabel : (k : Kind) → Bytes → Option (Label k × Bytes)
  | .array, s => some (.item, s)
  | .object, s => (scanString s).bind fun x =>
    (scanColon x.1 x.2).map fun y => (.member y.1, y.2)

mutual

def scanValue : Nat → Bytes → Option (Cst × Bytes)
  | 0, _ => none
  | _ + 1, [] => none
  | fuel + 1, b :: s =>
    if b = ascii '"' then (scanString (b :: s)).map fun x => (.str x.1, x.2)
    else if b = Kind.object.opener then scanNode .object fuel s
    else if b = Kind.array.opener then scanNode .array fuel s
    else if b = ascii 'n' then scanWord .null (b :: s)
    else if b = ascii 't' then scanWord (.bool true) (b :: s)
    else if b = ascii 'f' then scanWord (.bool false) (b :: s)
    else (scanNumber (b :: s)).map fun x => (.num x.1, x.2)

/-- An array or an object after its opening bracket. -/
def scanNode (k : Kind) : Nat → Bytes → Option (Cst × Bytes)
  | 0, _ => none
  | fuel + 1, s =>
    match (scanSpace s).2 with
    | [] => none
    | b :: t =>
      if b = k.closer then some (.empty k (scanSpace s).1, t)
      else (scanElems k fuel s).map fun x => (.node k x.1, x.2)

/-- Values or members up to the closing bracket. -/
def scanElems (k : Kind) : Nat → Bytes → Option (Elems k × Bytes)
  | 0, _ => none
  | fuel + 1, s => do
    let (label, s₁) ← scanLabel k (scanSpace s).2
    let (v, s₂) ← scanValue fuel s₁
    match (scanSpace s₂).2 with
    | [] => none
    | b :: t =>
      if b = ascii ',' then
        (scanElems k fuel t).map fun x =>
          (.cons (scanSpace s).1 label v (scanSpace s₂).1 x.1, x.2)
      else if b = k.closer then some (.one (scanSpace s).1 label v (scanSpace s₂).1, t)
      else none

end

/-- A document: one value, with whitespace around it. -/
structure Document where
  pre : Space
  value : Cst
  post : Space

def Document.text (d : Document) : Bytes := d.pre.1 ++ (d.value.text ++ d.post.1)

def parse (s : Bytes) : Option Document :=
  match scanValue (2 * s.length + 2) (scanSpace s).2 with
  | none => none
  | some (v, t) =>
    match (scanSpace t).2 with
    | [] => some ⟨(scanSpace s).1, v, (scanSpace t).1⟩
    | _ :: _ => none

theorem stops_number_closer (k : Kind) (s : Bytes) : Stops inNumber (k.closer :: s) := by
  cases k <;> exact stops_cons (by decide) s

theorem stops_number_space (w : Space) (hs : Stops inNumber s) :
    Stops inNumber (w.1 ++ s) := by
  obtain ⟨w, hw⟩ := w
  cases w with
  | nil => exact hs
  | cons b w =>
    refine stops_cons ?_ _
    have hb := hw b List.mem_cons_self
    simp only [isSpace, Bool.or_eq_true, beq_iff_eq] at hb
    rcases hb with ((rfl | rfl) | rfl) | rfl <;> decide

/-- The first byte of a number. -/
theorem Number.text_eq_cons (n : Number) :
    ∃ b s, n.text = b :: s ∧ (b = ascii '-' ∨ isDigit b = true) := by
  obtain ⟨negative, whole, fraction, exponent⟩ := n
  cases negative with
  | true => exact ⟨_, _, rfl, Or.inl rfl⟩
  | false =>
    cases whole with
    | zero => exact ⟨_, _, rfl, Or.inr (by decide)⟩
    | digits ds h =>
      obtain ⟨b, bs, hds⟩ := List.exists_cons_of_ne_nil ds.2.1
      refine ⟨b, bs ++ (fractionText fraction ++ exponentText exponent), ?_,
        Or.inr (ds.2.2 b (by simp [hds]))⟩
      simp [Number.text, Whole.text, hds]

theorem ne_of_isDigit {b c : UInt8} (hb : isDigit b = true) (hc : isDigit c = false) : b ≠ c := by
  rintro rfl
  rw [hb] at hc
  cases hc

/-- A value starts with neither whitespace nor a closing bracket. -/
theorem Cst.text_eq_cons (t : Cst) :
    ∃ b s, t.text = b :: s ∧ isSpace b = false ∧ ∀ k : Kind, b ≠ k.closer := by
  have hclosers : ∀ b : UInt8, b ≠ ascii ']' → b ≠ ascii '\x7d' → ∀ k : Kind, b ≠ k.closer := by
    intro b harray hobject k
    cases k
    · exact harray
    · exact hobject
  cases t with
  | null => exact ⟨_, _, rfl, by decide, hclosers _ (by decide) (by decide)⟩
  | bool b => cases b <;> exact ⟨_, _, rfl, by decide, hclosers _ (by decide) (by decide)⟩
  | num n =>
    obtain ⟨b, s, htext, hb⟩ := n.text_eq_cons
    refine ⟨b, s, htext, ?_, ?_⟩
    · rcases hb with rfl | hb
      · decide
      · simp only [isSpace, Bool.or_eq_false_iff, beq_eq_false_iff_ne]
        exact ⟨⟨⟨ne_of_isDigit hb (by decide), ne_of_isDigit hb (by decide)⟩,
          ne_of_isDigit hb (by decide)⟩, ne_of_isDigit hb (by decide)⟩
    · rcases hb with rfl | hb
      · exact hclosers _ (by decide) (by decide)
      · exact hclosers _ (ne_of_isDigit hb (by decide)) (ne_of_isDigit hb (by decide))
  | str ps => exact ⟨_, _, rfl, by decide, hclosers _ (by decide) (by decide)⟩
  | empty k pad =>
    cases k <;> exact ⟨_, _, rfl, by decide, hclosers _ (by decide) (by decide)⟩
  | node k es =>
    cases k <;> exact ⟨_, _, rfl, by decide, hclosers _ (by decide) (by decide)⟩

theorem scanWord_text (t : Cst) (s : Bytes) : scanWord t (t.text ++ s) = some (t, s) := by
  rw [scanWord, if_pos (List.prefix_append _ _), List.drop_left]

theorem scanString_text (ps : List Piece) (s : Bytes) :
    scanString (strText ps ++ s) = some (ps, s) := by
  have hlen := length_le_piecesText ps
  simp only [strText, List.cons_append, List.append_assoc, List.nil_append, scanString, if_true]
  apply scanPieces_text
  simp only [List.length_append]
  omega

theorem scanLabel_text (label : Label k) (hs : Stops isSpace s) :
    scanLabel k (label.text ++ s) = some (label, s) := by
  cases label with
  | item => rfl
  | member key =>
    have hcolon : scanSpace (key.before.1 ++ ascii ':' :: (key.after.1 ++ s)) =
        (key.before, ascii ':' :: (key.after.1 ++ s)) :=
      scanSpace_text _ (stops_cons (by decide) _)
    simp only [Label.text, List.append_assoc, List.cons_append, scanLabel, scanString_text,
      Option.bind_some, scanColon, hcolon, if_true, scanSpace_text _ hs, Option.map_some]

/-- Where a value or a member starts there is neither whitespace nor a closing bracket. -/
theorem label_value_eq_cons (label : Label k) (v : Cst) (s : Bytes) :
    ∃ b t, label.text ++ (v.text ++ s) = b :: t ∧ isSpace b = false ∧ b ≠ k.closer := by
  cases label with
  | item =>
    obtain ⟨b, t, htext, hspace, hclose⟩ := v.text_eq_cons
    exact ⟨b, t ++ s, by simp [Label.text, htext], hspace, hclose _⟩
  | member key => exact ⟨_, _, rfl, by decide, by decide⟩

theorem Elems.text_eq (es : Elems k) :
    ∃ (pre : Space) (label : Label k) (v : Cst) (s : Bytes),
      es.text = pre.1 ++ (label.text ++ (v.text ++ s)) := by
  cases es with
  | one pre label v post => exact ⟨pre, label, v, _, by rw [Elems.text]⟩
  | cons pre label v post rest => exact ⟨pre, label, v, _, by rw [Elems.text]⟩

theorem scanNode_empty (k : Kind) (fuel : Nat) (pad : Space) (s : Bytes) :
    scanNode k (fuel + 1) (pad.1 ++ k.closer :: s) = some (.empty k pad, s) := by
  simp only [scanNode, scanSpace_text pad (stops_cons k.isSpace_closer s), if_true]

theorem scanNode_elems {fuel : Nat} {es : Elems k} {s rest : Bytes}
    (h : scanElems k fuel (es.text ++ s) = some (es, rest)) :
    scanNode k (fuel + 1) (es.text ++ s) = some (.node k es, rest) := by
  obtain ⟨pre, label, v, w, htext⟩ := es.text_eq
  obtain ⟨b, t, hstart, hspace, hclose⟩ := label_value_eq_cons label v (w ++ s)
  have hscan : scanSpace (es.text ++ s) = (pre, b :: t) := by
    rw [← scanSpace_text pre (stops_cons hspace t), htext, ← hstart]
    simp only [List.append_assoc]
  simp only [scanNode, hscan, if_neg hclose, h, Option.map_some]

/-- The first bytes decide how a value is read. -/
theorem scanValue_text_leaf {t : Cst} (fuel : Nat) (hs : Stops inNumber s)
    (hleaf : ∀ k es, t ≠ .node k es) (hempty : ∀ k pad, t ≠ .empty k pad) :
    scanValue (fuel + 1) (t.text ++ s) = some (t, s) := by
  cases t with
  | null => exact scanWord_text .null s
  | bool b =>
    cases b
    · exact scanWord_text (.bool false) s
    · exact scanWord_text (.bool true) s
  | str ps =>
    change (scanString (strText ps ++ s)).map _ = _
    rw [scanString_text]
    rfl
  | num n =>
    have hnumber := scanNumber_text n hs
    obtain ⟨b, w, htext, hb⟩ := n.text_eq_cons
    have hne : ∀ c : UInt8, c ≠ ascii '-' → isDigit c = false → b ≠ c := by
      intro c hminus hdigit
      rcases hb with rfl | hb
      · exact hminus.symm
      · exact ne_of_isDigit hb hdigit
    simp only [Cst.text, htext, List.cons_append] at hnumber ⊢
    rw [scanValue, if_neg (hne (ascii '"') (by decide) (by decide)),
      if_neg (hne Kind.object.opener (by decide) (by decide)),
      if_neg (hne Kind.array.opener (by decide) (by decide)),
      if_neg (hne (ascii 'n') (by decide) (by decide)),
      if_neg (hne (ascii 't') (by decide) (by decide)),
      if_neg (hne (ascii 'f') (by decide) (by decide)), hnumber]
    rfl
  | empty k pad => exact absurd rfl (hempty k pad)
  | node k es => exact absurd rfl (hleaf k es)

theorem scanValue_opener (k : Kind) (fuel : Nat) (s : Bytes) :
    scanValue (fuel + 1) (k.opener :: s) = scanNode k fuel s := by
  cases k <;> rfl

/-- One value or member is read back, up to the byte that separates or closes. -/
theorem scanElems_step {fuel : Nat} (pre : Space) (label : Label k) {v : Cst} (post : Space)
    {b : UInt8} {t : Bytes} (hb : isSpace b = false)
    (hv : scanValue fuel (v.text ++ (post.1 ++ b :: t)) = some (v, post.1 ++ b :: t)) :
    scanElems k (fuel + 1) (pre.1 ++ (label.text ++ (v.text ++ (post.1 ++ b :: t)))) =
      if b = ascii ',' then
        (scanElems k fuel t).map fun x => (.cons pre label v post x.1, x.2)
      else if b = k.closer then some (.one pre label v post, t)
      else none := by
  have hpre : scanSpace (pre.1 ++ (label.text ++ (v.text ++ (post.1 ++ b :: t)))) =
      (pre, label.text ++ (v.text ++ (post.1 ++ b :: t))) := by
    obtain ⟨c, w, hstart, hspace, -⟩ := label_value_eq_cons label v (post.1 ++ b :: t)
    rw [hstart]
    exact scanSpace_text pre (stops_cons hspace w)
  have hlabel : scanLabel k (label.text ++ (v.text ++ (post.1 ++ b :: t))) =
      some (label, v.text ++ (post.1 ++ b :: t)) := by
    obtain ⟨c, w, hstart, hspace, -⟩ := v.text_eq_cons
    apply scanLabel_text
    rw [hstart]
    exact stops_cons hspace _
  simp only [scanElems, hpre, hlabel, Option.bind_eq_bind, Option.bind_some, hv,
    scanSpace_text post (stops_cons hb t)]

/-- Every tree is read back from its text, with enough fuel. -/
theorem scan_text (fuel : Nat) :
    (∀ t s, 2 * t.text.length ≤ fuel → Stops inNumber s →
      scanValue fuel (t.text ++ s) = some (t, s)) ∧
    (∀ k (es : Elems k) s, 2 * es.text.length + 2 ≤ fuel →
      scanNode k fuel (es.text ++ k.closer :: s) = some (.node k es, s)) ∧
    (∀ k (es : Elems k) s, 2 * es.text.length + 1 ≤ fuel →
      scanElems k fuel (es.text ++ k.closer :: s) = some (es, s)) := by
  induction fuel with
  | zero =>
    refine ⟨?_, ?_, ?_⟩
    · intro t s hfuel
      obtain ⟨b, w, htext, -⟩ := t.text_eq_cons
      rw [htext, List.length_cons] at hfuel
      omega
    · intro k es s hfuel
      omega
    · intro k es s hfuel
      omega
  | succ fuel ih =>
    obtain ⟨ihvalue, ihnode, ihelems⟩ := ih
    refine ⟨?_, ?_, ?_⟩
    · intro t s hfuel hs
      cases t with
      | empty k pad =>
        simp only [Cst.text, List.length_cons, List.length_append] at hfuel
        obtain ⟨fuel, rfl⟩ : ∃ n, fuel = n + 1 := ⟨fuel - 1, by omega⟩
        simp only [Cst.text, List.cons_append, List.append_assoc, List.nil_append,
          scanValue_opener, scanNode_empty]
      | node k es =>
        simp only [Cst.text, List.length_cons, List.length_append, List.length_nil] at hfuel
        simp only [Cst.text, List.cons_append, List.append_assoc, List.nil_append,
          scanValue_opener]
        exact ihnode k es s (by omega)
      | _ =>
        apply scanValue_text_leaf fuel hs
        · intro k es h
          cases h
        · intro k pad h
          cases h
    · intro k es s hfuel
      exact scanNode_elems (ihelems k es s (by omega))
    · intro k es s hfuel
      cases es with
      | one pre label v post =>
        simp only [Elems.text, List.length_append] at hfuel
        have hv := ihvalue v (post.1 ++ k.closer :: s) (by omega)
          (stops_number_space post (stops_number_closer k s))
        simp only [Elems.text, List.append_assoc]
        rw [scanElems_step pre label post k.isSpace_closer hv, if_neg k.closer_ne_comma,
          if_pos rfl]
      | cons pre label v post rest =>
        simp only [Elems.text, List.length_append, List.length_cons] at hfuel
        have hv := ihvalue v (post.1 ++ ascii ',' :: (rest.text ++ k.closer :: s)) (by omega)
          (stops_number_space post (stops_cons (by decide) _))
        simp only [Elems.text, List.append_assoc, List.cons_append]
        rw [scanElems_step pre label post (by decide) hv, if_pos rfl,
          ihelems k rest s (by omega)]
        rfl

/-- A document is read back from its text. -/
theorem parse_text (d : Document) : parse d.text = some d := by
  obtain ⟨pre, v, post⟩ := d
  obtain ⟨b, w, hstart, hspace, -⟩ := v.text_eq_cons
  have hpre : scanSpace (pre.1 ++ (v.text ++ post.1)) = (pre, v.text ++ post.1) := by
    rw [hstart]
    exact scanSpace_text pre (stops_cons hspace _)
  have hpost : scanSpace post.1 = (post, []) := by
    have h := scanSpace_text post (stops_nil isSpace)
    rwa [List.append_nil] at h
  have hstop : Stops inNumber post.1 := by
    have h := stops_number_space post (stops_nil inNumber)
    rwa [List.append_nil] at h
  have hv := (scan_text (2 * (pre.1 ++ (v.text ++ post.1)).length + 2)).1 v post.1
    (by simp only [List.length_append]; omega) hstop
  simp only [parse, Document.text, hpre, hv, hpost]

/-- The text of a value is a document by itself. -/
theorem parse_value (t : Cst) : parse t.text = some ⟨.none, t, .none⟩ := by
  have h := parse_text ⟨.none, t, .none⟩
  simpa [Document.text, Space.none] using h

/-- The first value of a stream, as `Decoder.Decode` takes it; what follows is not read. -/
def firstValue (s : Bytes) : Option Cst :=
  (scanValue (2 * s.length + 2) (scanSpace s).2).map Prod.fst

theorem firstValue_of_parse {d : Document} (h : parse s = some d) :
    firstValue s = some d.value := by
  unfold parse at h
  unfold firstValue
  split at h
  · cases h
  · rename_i v rest hscan
    rw [hscan]
    split at h
    · exact congrArg some (congrArg Document.value (Option.some.inj h))
    · cases h

theorem firstValue_text (t : Cst) : firstValue t.text = some t :=
  firstValue_of_parse (parse_value t)

/-- A value in a line of its own. -/
theorem parse_line (t : Cst) : ∃ d, parse (t.text ++ [ascii '\n']) = some d ∧ d.value = t := by
  have hspace : ∀ b ∈ [ascii '\n'], isSpace b = true := fun b hb => by
    rw [List.mem_singleton.mp hb]
    rfl
  exact ⟨⟨.none, t, ⟨_, hspace⟩⟩, parse_text ⟨.none, t, ⟨_, hspace⟩⟩, rfl⟩

/-! ## Compact texts -/

def Label.strip : {k : Kind} → Label k → Label k
  | _, .item => .item
  | _, .member key => .member ⟨key.name, .none, .none⟩

@[simp] theorem Label.strip_strip (label : Label k) :
    label.strip.strip = label.strip := by
  cases label <;> rfl

mutual

/-- The value without insignificant whitespace. -/
def Cst.strip : Cst → Cst
  | .null => .null
  | .bool b => .bool b
  | .num n => .num n
  | .str ps => .str ps
  | .empty k _ => .empty k .none
  | .node k elems => .node k elems.strip

def Elems.strip : {k : Kind} → Elems k → Elems k
  | _, .one _ label v _ => .one .none label.strip v.strip .none
  | _, .cons _ label v _ rest => .cons .none label.strip v.strip .none rest.strip

end

mutual

@[simp] theorem Cst.strip_strip : (t : Cst) → t.strip.strip = t.strip
  | .null => rfl
  | .bool _ => rfl
  | .num _ => rfl
  | .str _ => rfl
  | .empty _ _ => rfl
  | .node _ elems => by simp only [Cst.strip, Elems.strip_strip elems]

@[simp] theorem Elems.strip_strip : {k : Kind} → (es : Elems k) → es.strip.strip = es.strip
  | _, .one _ label v _ => by simp only [Elems.strip, Label.strip_strip, Cst.strip_strip v]
  | _, .cons _ label v _ rest => by
    simp only [Elems.strip, Label.strip_strip, Cst.strip_strip v, Elems.strip_strip rest]

end

/-- `json.Compact`. -/
def compact (s : Bytes) : Option Bytes := (parse s).map fun d => d.value.strip.text

/-! ## Values and members in a list -/

/-- The values of an array or an object, with their labels. -/
def Elems.entries : {k : Kind} → Elems k → List (Label k × Cst)
  | _, .one _ label v _ => [(label, v)]
  | _, .cons _ label v _ rest => (label, v) :: rest.entries

def Label.name : Label .object → List Piece
  | .member key => key.name

/-- The members of an object, in order. -/
def Cst.members? : Cst → Option (List (List Piece × Cst))
  | .empty .object _ => some []
  | .node .object es => some (es.entries.map fun x => (x.1.name, x.2))
  | _ => none

/-- The values of an array, in order. -/
def Cst.items? : Cst → Option (List Cst)
  | .empty .array _ => some []
  | .node .array es => some (es.entries.map Prod.snd)
  | _ => none

def Elems.ofList {k : Kind} (x : Label k × Cst) : List (Label k × Cst) → Elems k
  | [] => .one .none x.1 x.2 .none
  | y :: ys => .cons .none x.1 x.2 .none (Elems.ofList y ys)

def Cst.ofEntries (k : Kind) : List (Label k × Cst) → Cst
  | [] => .empty k .none
  | x :: xs => .node k (Elems.ofList x xs)

/-- The object with the given members, without whitespace. -/
def Cst.object (ms : List (List Piece × Cst)) : Cst :=
  .ofEntries .object (ms.map fun m => (.member ⟨m.1, .none, .none⟩, m.2))

/-- The array with the given values, without whitespace. -/
def Cst.array (vs : List Cst) : Cst := .ofEntries .array (vs.map fun v => (.item, v))

theorem Elems.entries_ofList (x : Label k × Cst) (xs : List (Label k × Cst)) :
    (Elems.ofList x xs).entries = x :: xs := by
  induction xs generalizing x with
  | nil => rfl
  | cons y ys ih => rw [Elems.ofList, Elems.entries, ih]

@[simp] theorem Cst.members?_object (ms : List (List Piece × Cst)) :
    (Cst.object ms).members? = some ms := by
  cases ms with
  | nil => rfl
  | cons m ms =>
    simp only [Cst.object, List.map_cons, Cst.ofEntries, Cst.members?, Elems.entries_ofList,
      List.map_map, Label.name]
    congr 2
    exact List.map_id ms

@[simp] theorem Cst.items?_array (vs : List Cst) : (Cst.array vs).items? = some vs := by
  cases vs with
  | nil => rfl
  | cons v vs =>
    simp only [Cst.array, List.map_cons, Cst.ofEntries, Cst.items?, Elems.entries_ofList,
      List.map_map]
    congr 2
    exact List.map_id vs

theorem Elems.strip_ofList (x : Label k × Cst) (xs : List (Label k × Cst)) :
    (Elems.ofList x xs).strip =
      Elems.ofList (x.1.strip, x.2.strip) (xs.map fun x => (x.1.strip, x.2.strip)) := by
  induction xs generalizing x with
  | nil => rfl
  | cons y ys ih => rw [Elems.ofList, Elems.strip, ih, List.map_cons, Elems.ofList]

theorem Cst.strip_ofEntries (k : Kind) (xs : List (Label k × Cst)) :
    (Cst.ofEntries k xs).strip = Cst.ofEntries k (xs.map fun x => (x.1.strip, x.2.strip)) := by
  cases xs with
  | nil => rfl
  | cons x xs => rw [Cst.ofEntries, Cst.strip, Elems.strip_ofList, List.map_cons, Cst.ofEntries]

@[simp] theorem Cst.strip_object (ms : List (List Piece × Cst)) :
    (Cst.object ms).strip = Cst.object (ms.map fun m => (m.1, m.2.strip)) := by
  simp only [Cst.object, Cst.strip_ofEntries, List.map_map]
  rfl

@[simp] theorem Cst.strip_array (vs : List Cst) :
    (Cst.array vs).strip = Cst.array (vs.map Cst.strip) := by
  simp only [Cst.array, Cst.strip_ofEntries, List.map_map]
  rfl

def memberText (m : List Piece × Cst) : Bytes := strText m.1 ++ ascii ':' :: m.2.text

theorem Elems.text_ofList_append (x : Label k × Cst) (xs ys : List (Label k × Cst)) :
    (Elems.ofList x (xs ++ ys)).text =
      (Elems.ofList x xs).text ++ ys.flatMap fun y => ascii ',' :: (y.1.text ++ y.2.text) := by
  induction xs generalizing x with
  | nil =>
    induction ys generalizing x with
    | nil => simp
    | cons y ys ih =>
      have hy := ih y
      simp only [List.nil_append] at hy
      simp [Elems.ofList, Elems.text, Space.none, hy]
  | cons z zs ih =>
    have hz := ih z
    simp [Elems.ofList, Elems.text, Space.none, hz]

/-- Members are added in front of the closing brace. -/
theorem Cst.text_object_append {ms : List (List Piece × Cst)} (hms : ms ≠ [])
    (ns : List (List Piece × Cst)) :
    (Cst.object (ms ++ ns)).text = (Cst.object ms).text.dropLast ++
      ((ns.flatMap fun n => ascii ',' :: memberText n) ++ [Kind.object.closer]) := by
  obtain ⟨m, ms, rfl⟩ := List.exists_cons_of_ne_nil hms
  simp only [Cst.object, List.cons_append, List.map_cons, List.map_append, Cst.ofEntries,
    Cst.text, Elems.text_ofList_append, List.dropLast_cons_of_ne_nil, ne_eq, reduceCtorEq,
    List.append_eq_nil_iff, and_false, not_false_eq_true, List.dropLast_concat, List.append_assoc]
  simp [List.flatMap_map, memberText, Label.text, Space.none]

end Rdq.Foundation.JsonText
