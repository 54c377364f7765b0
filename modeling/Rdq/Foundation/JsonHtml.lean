import Rdq.Foundation.JsonText

/-!
# JSON that is safe inside HTML

`encoding/json` escapes the characters `<`, `>` and `&` and the two line separators of
Unicode in whatever it writes, unless it is told not to. On the text of a value that has
been written already this is a pass over bytes. On the tree it changes the spelling of
strings only.
-/

namespace Rdq.Foundation.JsonText

/-! ## Bytes -/

/-- The characters of HTML. -/
def isHtml (b : UInt8) : Bool := b == ascii '<' || b == ascii '>' || b == ascii '&'

/-- A line or paragraph separator starts here; this is the last of its three bytes. -/
def separator? (b : UInt8) (s : Bytes) : Option UInt8 :=
  if b = 0xE2 ∧ s.head? = some 0x80 then s.tail.head?.filter fun c => c == 0xA8 || c == 0xA9
  else none

/-- The code point of a separator by its last byte. -/
def separatorCode (c : UInt8) : Nat := 0x2028 + (c.toNat - 0xA8)

/-- The bytes with the characters escaped, after some bytes are skipped. -/
def escapeFrom : Nat → Bytes → Bytes
  | _, [] => []
  | skip + 1, _ :: s => escapeFrom skip s
  | 0, b :: s =>
    if isHtml b then (unicodeEscape b.toNat).text ++ escapeFrom 0 s
    else
      match separator? b s with
      | some c => (unicodeEscape (separatorCode c)).text ++ escapeFrom 2 s
      | none => b :: escapeFrom 0 s

/-- `appendHTMLEscape`. -/
def escapeHTML (s : Bytes) : Bytes := escapeFrom 0 s

/-- A byte that the pass copies whatever follows. -/
def Calm (b : UInt8) : Prop := isHtml b = false ∧ b ≠ 0xE2

instance (b : UInt8) : Decidable (Calm b) := inferInstanceAs (Decidable (_ ∧ _))

theorem forall_calm {bs : Bytes} (h : bs.all (fun b => decide (Calm b)) = true) :
    ∀ b ∈ bs, Calm b := fun b hb => of_decide_eq_true (List.all_eq_true.mp h b hb)

theorem separator?_of_ne {b : UInt8} (h : b ≠ 0xE2) (s : Bytes) : separator? b s = none :=
  if_neg fun hb => h hb.1

theorem escapeFrom_calm {b : UInt8} (h : Calm b) (s : Bytes) :
    escapeFrom 0 (b :: s) = b :: escapeFrom 0 s := by
  simp only [escapeFrom, h.1, separator?_of_ne h.2, Bool.false_eq_true, if_false]

theorem escapeFrom_calms {bs : Bytes} (h : ∀ b ∈ bs, Calm b) (s : Bytes) :
    escapeFrom 0 (bs ++ s) = bs ++ escapeFrom 0 s := by
  induction bs with
  | nil => rfl
  | cons b bs ih =>
    obtain ⟨hb, hbs⟩ := List.forall_mem_cons.mp h
    rw [List.cons_append, escapeFrom_calm hb, ih hbs, List.cons_append]

/-- Some character would be escaped. -/
def hasHtml : Bytes → Bool
  | [] => false
  | b :: s => isHtml b || (separator? b s).isSome || hasHtml s

theorem length_unicodeEscape (n : Nat) : (unicodeEscape n).text.length = 6 := rfl

/-- The pass makes a text no shorter than what it does not skip. -/
theorem length_le_escapeFrom (skip : Nat) (s : Bytes) :
    s.length ≤ skip + (escapeFrom skip s).length := by
  induction s generalizing skip with
  | nil => exact Nat.zero_le _
  | cons b s ih =>
    cases skip with
    | succ skip =>
      have hrest := ih skip
      simp only [escapeFrom, List.length_cons]
      omega
    | zero =>
      have hrest := ih 0
      have hsep := ih 2
      unfold escapeFrom
      split
      · rw [List.length_append, length_unicodeEscape, List.length_cons]
        omega
      · cases separator? b s with
        | some c =>
          simp only [List.length_append, length_unicodeEscape, List.length_cons]
          omega
        | none =>
          simp only [List.length_cons]
          omega

/-- The pass leaves a text alone exactly when it has nothing to escape. -/
theorem escapeHTML_eq_self_iff (s : Bytes) : escapeHTML s = s ↔ hasHtml s = false := by
  unfold escapeHTML
  induction s with
  | nil => exact ⟨fun _ => rfl, fun _ => rfl⟩
  | cons b s ih =>
    -- an escape is longer than what it stands for
    have hlength (x : Bytes) (n : Nat) (hx : s.length ≤ x.length + 2) :
        (unicodeEscape n).text ++ x ≠ b :: s := by
      intro heq
      have h := congrArg List.length heq
      rw [List.length_append, length_unicodeEscape, List.length_cons] at h
      omega
    cases hb : isHtml b with
    | true =>
      have hle := length_le_escapeFrom 0 s
      simp only [escapeFrom, hasHtml, hb, if_true, Bool.true_or, Bool.true_eq_false, iff_false]
      exact hlength _ _ (by omega)
    | false =>
      cases hsep : separator? b s with
      | some c =>
        have hle := length_le_escapeFrom 2 s
        simp only [escapeFrom, hasHtml, hb, hsep, Bool.false_eq_true, if_false,
          Option.isSome_some, Bool.or_true, Bool.true_or, Bool.true_eq_false, iff_false]
        exact hlength _ _ (by omega)
      | none =>
        simp only [escapeFrom, hasHtml, hb, hsep, Bool.false_eq_true, if_false,
          Option.isSome_none, Bool.false_or, List.cons.injEq, true_and]
        exact ih

/-- A calm byte ends what a separator looks at. -/
theorem separator?_append {q : UInt8} (hq : q ≠ 0x80 ∧ q ≠ 0xA8 ∧ q ≠ 0xA9) (b : UInt8)
    (xs s : Bytes) : separator? b (xs ++ q :: s) = separator? b xs := by
  rcases xs with _ | ⟨x, _ | ⟨y, xs⟩⟩
  · simp [separator?, hq.1]
  · simp [separator?, hq.2.1, hq.2.2]
  · rfl

/-! ## Strings -/

/-- The pieces of a string with the characters escaped, after some pieces are skipped. -/
def htmlFrom : Nat → List Piece → List Piece
  | _, [] => []
  | skip + 1, _ :: ps => htmlFrom skip ps
  | 0, .plain b :: ps =>
    if isHtml b.1 then unicodeEscape b.1.toNat :: htmlFrom 0 ps
    else
      match separator? b.1 (piecesText ps) with
      | some c => unicodeEscape (separatorCode c) :: htmlFrom 2 ps
      | none => .plain b :: htmlFrom 0 ps
  | 0, p :: ps => p :: htmlFrom 0 ps

/-- The first pieces are bytes that stand for themselves. -/
def PlainFront : Nat → List Piece → Prop
  | 0, _ => True
  | skip + 1, .plain _ :: ps => PlainFront skip ps
  | _ + 1, _ => False

theorem plainFront_of_head {ps : List Piece} {b : UInt8} (hb : b ≠ ascii '\\')
    (h : (piecesText ps).head? = some b) :
    ∃ p qs, ps = .plain p :: qs ∧ piecesText ps = b :: piecesText qs := by
  cases ps with
  | nil => cases h
  | cons p qs =>
    cases p with
    | plain p =>
      have hp : p.1 = b := Option.some.inj h
      exact ⟨p, qs, rfl, by rw [← hp]; rfl⟩
    | escape e => exact absurd (Option.some.inj h).symm hb
    | unicode h₃ h₂ h₁ h₀ => exact absurd (Option.some.inj h).symm hb

/-- The bytes of a separator are pieces of their own. -/
theorem plainFront_of_separator {b c : UInt8} {ps : List Piece}
    (h : separator? b (piecesText ps) = some c) : PlainFront 2 ps := by
  unfold separator? at h
  split at h
  · rename_i hstart
    obtain ⟨p, qs, rfl, htext⟩ := plainFront_of_head (by decide) hstart.2
    obtain ⟨hlast, hc⟩ := Option.filter_eq_some_iff.mp h
    rw [htext, List.tail_cons] at hlast
    have hne : c ≠ ascii '\\' := by
      rintro rfl
      exact absurd hc (by decide)
    obtain ⟨p', qs', rfl, -⟩ := plainFront_of_head hne hlast
    trivial
  · cases h

theorem calm_hex (h : HexDigit) : Calm h.1 := by
  obtain ⟨b, hb⟩ := h
  constructor
  · by_contra hhtml
    simp only [Bool.not_eq_false, isHtml, Bool.or_eq_true, beq_iff_eq] at hhtml
    rcases hhtml with (rfl | rfl) | rfl <;> exact absurd hb (by decide)
  · rintro rfl
    exact absurd hb (by decide)

theorem calm_escape (e : Escape) : ∀ b ∈ (Piece.escape e).text, Calm b := by
  cases e <;> exact forall_calm (by decide)

theorem calm_unicode (h₃ h₂ h₁ h₀ : HexDigit) : ∀ b ∈ (Piece.unicode h₃ h₂ h₁ h₀).text, Calm b := by
  have hback : Calm (ascii '\\') := by decide
  have hu : Calm (ascii 'u') := by decide
  simp only [Piece.text, List.forall_mem_cons, List.not_mem_nil, false_imp_iff, implies_true,
    and_true]
  exact ⟨hback, hu, calm_hex h₃, calm_hex h₂, calm_hex h₁, calm_hex h₀⟩

/-- The pass over the bytes of a string is that over its pieces. -/
theorem escapeFrom_pieces (skip : Nat) {ps : List Piece} (h : PlainFront skip ps) {q : UInt8}
    (hq : q ≠ 0x80 ∧ q ≠ 0xA8 ∧ q ≠ 0xA9) (s : Bytes) :
    escapeFrom skip (piecesText ps ++ q :: s) =
      piecesText (htmlFrom skip ps) ++ escapeFrom 0 (q :: s) := by
  induction ps generalizing skip with
  | nil =>
    cases skip with
    | zero => rfl
    | succ skip => exact h.elim
  | cons p ps ih =>
    cases skip with
    | succ skip =>
      cases p with
      | plain b => exact ih skip h
      | escape e => exact h.elim
      | unicode h₃ h₂ h₁ h₀ => exact h.elim
    | zero =>
      have htail := ih 0 trivial
      cases p with
      | escape e =>
        have hkeep : htmlFrom 0 (.escape e :: ps) = .escape e :: htmlFrom 0 ps := rfl
        rw [piecesText_cons, List.append_assoc, escapeFrom_calms (calm_escape e), htail,
          hkeep, piecesText_cons, List.append_assoc]
      | unicode h₃ h₂ h₁ h₀ =>
        have hkeep : htmlFrom 0 (.unicode h₃ h₂ h₁ h₀ :: ps) =
            .unicode h₃ h₂ h₁ h₀ :: htmlFrom 0 ps := rfl
        rw [piecesText_cons, List.append_assoc, escapeFrom_calms (calm_unicode h₃ h₂ h₁ h₀),
          htail, hkeep, piecesText_cons, List.append_assoc]
      | plain b =>
        change escapeFrom 0 (b.1 :: (piecesText ps ++ q :: s)) = _
        rw [escapeFrom, htmlFrom, separator?_append hq]
        by_cases hhtml : isHtml b.1 = true
        · rw [if_pos hhtml, if_pos hhtml, htail, piecesText_cons, List.append_assoc]
        · rw [if_neg hhtml, if_neg hhtml]
          cases hsep : separator? b.1 (piecesText ps) with
          | none =>
            change b.1 :: escapeFrom 0 (piecesText ps ++ q :: s) =
              b.1 :: (piecesText (htmlFrom 0 ps) ++ escapeFrom 0 (q :: s))
            rw [htail]
          | some c =>
            simp only [ih 2 (plainFront_of_separator hsep), piecesText_cons,
              List.append_assoc]

theorem escapeFrom_strText (ps : List Piece) (s : Bytes) :
    escapeFrom 0 (strText ps ++ s) = strText (htmlFrom 0 ps) ++ escapeFrom 0 s := by
  have hquote : Calm (ascii '"') := by decide
  rw [strText, List.cons_append, List.append_assoc, List.singleton_append,
    escapeFrom_calm hquote, escapeFrom_pieces 0 trivial (by decide),
    escapeFrom_calm hquote, strText, List.cons_append, List.append_assoc, List.singleton_append]

/-! ## Values -/

def Label.html : {k : Kind} → Label k → Label k
  | _, .item => .item
  | _, .member key => .member { key with name := htmlFrom 0 key.name }

mutual

/-- The value with its strings escaped. -/
def Cst.html : Cst → Cst
  | .null => .null
  | .bool b => .bool b
  | .num n => .num n
  | .str ps => .str (htmlFrom 0 ps)
  | .empty k pad => .empty k pad
  | .node k elems => .node k elems.html

def Elems.html : {k : Kind} → Elems k → Elems k
  | _, .one pre label v post => .one pre label.html v.html post
  | _, .cons pre label v post rest => .cons pre label.html v.html post rest.html

end

@[simp] theorem Label.strip_html {k : Kind} (label : Label k) :
    label.html.strip = label.strip.html := by
  cases label <;> rfl

mutual

/-- Escaping makes and takes no whitespace. -/
@[simp] theorem Cst.strip_html : (t : Cst) → t.html.strip = t.strip.html
  | .null => rfl
  | .bool _ => rfl
  | .num _ => rfl
  | .str _ => rfl
  | .empty _ _ => rfl
  | .node _ elems => by simp only [Cst.html, Cst.strip, Elems.strip_html elems]

@[simp] theorem Elems.strip_html : {k : Kind} → (es : Elems k) → es.html.strip = es.strip.html
  | _, .one _ label v _ => by
    simp only [Elems.html, Elems.strip, Label.strip_html, Cst.strip_html v]
  | _, .cons _ label v _ rest => by
    simp only [Elems.html, Elems.strip, Label.strip_html, Cst.strip_html v,
      Elems.strip_html rest]

end

theorem calm_of_isSpace {b : UInt8} (h : isSpace b = true) : Calm b := by
  simp only [isSpace, Bool.or_eq_true, beq_iff_eq] at h
  rcases h with ((rfl | rfl) | rfl) | rfl <;> decide

theorem calm_space (w : Space) : ∀ b ∈ w.1, Calm b := fun b hb => calm_of_isSpace (w.2 b hb)

theorem calm_of_isDigit {b : UInt8} (h : isDigit b = true) : Calm b := by
  have hle : b ≤ ascii '9' := (of_decide_eq_true h).2
  constructor
  · by_contra hhtml
    simp only [Bool.not_eq_false, isHtml, Bool.or_eq_true, beq_iff_eq] at hhtml
    rcases hhtml with (rfl | rfl) | rfl <;> exact absurd h (by decide)
  · rintro rfl
    exact absurd hle (by decide)

theorem calm_digits (ds : Digits) : ∀ b ∈ ds.1, Calm b := fun b hb => calm_of_isDigit (ds.2.2 b hb)

theorem calm_number (n : Number) : ∀ b ∈ n.text, Calm b := by
  have hminus : Calm (ascii '-') := by decide
  have hwhole : ∀ b ∈ n.whole.text, Calm b := by
    cases n.whole with
    | zero => exact forall_calm (by decide)
    | digits ds h => exact calm_digits ds
  have hfraction : ∀ b ∈ fractionText n.fraction, Calm b := by
    cases n.fraction with
    | none => simp [fractionText]
    | some ds => exact List.forall_mem_cons.mpr ⟨by decide, calm_digits ds⟩
  have hexponent : ∀ b ∈ exponentText n.exponent, Calm b := by
    cases n.exponent with
    | none => simp [exponentText]
    | some e =>
      have hsign : ∀ b ∈ signText e.sign, Calm b := by
        rcases e.sign with _ | _ | _ <;> exact forall_calm (by decide)
      have hletter : Calm (if e.upper then ascii 'E' else ascii 'e') := by
        cases e.upper <;> decide
      exact List.forall_mem_cons.mpr
        ⟨hletter, List.forall_mem_append.mpr ⟨hsign, calm_digits e.digits⟩⟩
  have hfront : ∀ b ∈ (if n.negative then [ascii '-'] else []), Calm b := by
    cases n.negative <;> simp [hminus]
  simp only [Number.text, List.forall_mem_append]
  exact ⟨hfront, hwhole, hfraction, hexponent⟩

theorem calm_opener (k : Kind) : Calm k.opener := by
  cases k <;> decide

theorem calm_closer (k : Kind) : Calm k.closer := by
  cases k <;> decide

theorem escapeFrom_label {k : Kind} (label : Label k) (s : Bytes) :
    escapeFrom 0 (label.text ++ s) = label.html.text ++ escapeFrom 0 s := by
  cases label with
  | item => rfl
  | member key =>
    have hcolon : Calm (ascii ':') := by decide
    simp only [Label.text, Label.html, List.append_assoc, List.cons_append]
    rw [escapeFrom_strText, escapeFrom_calms (calm_space key.before), escapeFrom_calm hcolon,
      escapeFrom_calms (calm_space key.after)]

mutual

/-- The pass over the bytes of a value is that over its tree. -/
theorem Cst.escapeFrom_text : (t : Cst) → (s : Bytes) →
    escapeFrom 0 (t.text ++ s) = t.html.text ++ escapeFrom 0 s
  | .null, s => escapeFrom_calms (forall_calm (by decide)) s
  | .bool b, s => escapeFrom_calms (forall_calm (by cases b <;> decide)) s
  | .num n, s => escapeFrom_calms (calm_number n) s
  | .str ps, s => escapeFrom_strText ps s
  | .empty k pad, s => by
    simp only [Cst.text, Cst.html, List.cons_append, List.append_assoc, List.nil_append]
    rw [escapeFrom_calm (calm_opener k), escapeFrom_calms (calm_space pad),
      escapeFrom_calm (calm_closer k)]
  | .node k elems, s => by
    simp only [Cst.text, Cst.html, List.cons_append, List.append_assoc, List.nil_append]
    rw [escapeFrom_calm (calm_opener k), Elems.escapeFrom_text elems,
      escapeFrom_calm (calm_closer k)]

theorem Elems.escapeFrom_text : {k : Kind} → (es : Elems k) → (s : Bytes) →
    escapeFrom 0 (es.text ++ s) = es.html.text ++ escapeFrom 0 s
  | _, .one pre label v post, s => by
    simp only [Elems.text, Elems.html, List.append_assoc]
    rw [escapeFrom_calms (calm_space pre), escapeFrom_label, Cst.escapeFrom_text v,
      escapeFrom_calms (calm_space post)]
  | _, .cons pre label v post rest, s => by
    have hcomma : Calm (ascii ',') := by decide
    simp only [Elems.text, Elems.html, List.append_assoc, List.cons_append]
    rw [escapeFrom_calms (calm_space pre), escapeFrom_label, Cst.escapeFrom_text v,
      escapeFrom_calms (calm_space post), escapeFrom_calm hcomma, Elems.escapeFrom_text rest]

end

/-- Escaping the text of a value. -/
theorem Cst.text_html (t : Cst) : t.html.text = escapeHTML t.text := by
  have h := Cst.escapeFrom_text t []
  rw [List.append_nil] at h
  rw [escapeHTML, h]
  exact (List.append_nil _).symm

end Rdq.Foundation.JsonText
