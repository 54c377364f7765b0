import Rdq.Foundation.Unicode

/-!
# Rune boundaries

Byte strings in UTF-8 and the positions where a character begins. A byte is the first
one of a character or not by itself, so the boundaries of a valid text can be told from
its bytes (`isBoundary_iff`).
-/

namespace Rdq.Foundation

/-- The bytes of a text. -/
def utf8Bytes (l : List Char) : List UInt8 := l.flatMap String.utf8EncodeChar

@[simp] theorem utf8Bytes_nil : utf8Bytes [] = [] := rfl

@[simp] theorem utf8Bytes_cons (c : Char) (l : List Char) :
    utf8Bytes (c :: l) = String.utf8EncodeChar c ++ utf8Bytes l := rfl

@[simp] theorem utf8Bytes_append (l l' : List Char) :
    utf8Bytes (l ++ l') = utf8Bytes l ++ utf8Bytes l' := List.flatMap_append

/-- A byte string that is the form of some text. -/
def ValidUtf8 (s : List UInt8) : Prop := ∃ l, s = utf8Bytes l

theorem ValidUtf8.append {s t : List UInt8} (hs : ValidUtf8 s) (ht : ValidUtf8 t) :
    ValidUtf8 (s ++ t) := by
  obtain ⟨l, rfl⟩ := hs
  obtain ⟨l', rfl⟩ := ht
  exact ⟨l ++ l', (utf8Bytes_append l l').symm⟩

/-- Whether a byte can be the first one of a character (`utf8.RuneStart`). -/
def runeStart (b : UInt8) : Bool := b &&& 0xC0 != 0x80

theorem runeStart_iff (b : UInt8) : runeStart b = true ↔ b.toNat < 0x80 ∨ 0xC0 ≤ b.toNat := by
  have htable : ∀ n < 256, runeStart (UInt8.ofNat n) = true ↔ n < 0x80 ∨ 0xC0 ≤ n := by
    decide +kernel
  have h := htable b.toNat b.toNat_lt
  rwa [UInt8.ofNat_toNat] at h

/-- The first byte of a character can be told from the others. -/
theorem utf8EncodeChar_shape (c : Char) : ∃ u us, String.utf8EncodeChar c = u :: us ∧
    runeStart u = true ∧ ∀ v ∈ us, runeStart v = false := by
  obtain ⟨u, us, hcode, hlead, hrest⟩ := selfSync_utf8.shape c
  obtain ⟨b, bs, hbytes, rfl, rfl⟩ := List.map_eq_cons_iff.mp hcode
  refine ⟨b, bs, hbytes, (runeStart_iff b).mpr hlead, ?_⟩
  intro v hv
  rw [← Bool.not_eq_true, runeStart_iff]
  exact hrest v.toNat (List.mem_map_of_mem hv)

/-- A position before which a text can be cut: its start, its end, or one that holds a
first byte. -/
def IsBoundary (s : List UInt8) (n : Nat) : Prop :=
  n = 0 ∨ s.length ≤ n ∨ ∃ b, s[n]? = some b ∧ runeStart b = true

/-- Between the first and the last byte of a character there is no boundary. -/
theorem not_isBoundary_inside {c : Char} {s : List UInt8} {n : Nat} (h0 : 0 < n)
    (hn : n < (String.utf8EncodeChar c).length) :
    ¬ IsBoundary (String.utf8EncodeChar c ++ s) n := by
  obtain ⟨u, us, hc, -, hus⟩ := utf8EncodeChar_shape c
  rw [hc] at hn ⊢
  rintro (rfl | hlen | ⟨b, hb, hstart⟩)
  · exact absurd h0 (by decide)
  · rw [List.length_append] at hlen
    omega
  · obtain ⟨m, rfl⟩ := Nat.exists_eq_succ_of_ne_zero (Nat.ne_of_gt h0)
    rw [List.getElem?_append_left hn, List.getElem?_cons_succ] at hb
    rw [hus b (List.mem_of_getElem? hb)] at hstart
    cases hstart

/-- Behind a character the boundaries are those of the rest. -/
theorem isBoundary_append_iff {c : Char} {l : List Char} {n : Nat} :
    IsBoundary (String.utf8EncodeChar c ++ utf8Bytes l) ((String.utf8EncodeChar c).length + n) ↔
      IsBoundary (utf8Bytes l) n := by
  obtain ⟨u, us, hc, -, -⟩ := utf8EncodeChar_shape c
  have hpos : 0 < (String.utf8EncodeChar c).length := by simp [hc]
  have hget : (String.utf8EncodeChar c ++ utf8Bytes l)[(String.utf8EncodeChar c).length + n]? =
      (utf8Bytes l)[n]? := by
    rw [List.getElem?_append_right (by omega), Nat.add_sub_cancel_left]
  unfold IsBoundary
  rw [hget, List.length_append]
  constructor
  · rintro (h | h | h)
    · omega
    · exact Or.inr (Or.inl (by omega))
    · exact Or.inr (Or.inr h)
  · rintro (rfl | h | h)
    · -- A text goes on with the first byte of its next character, or it ends here.
      cases l with
      | nil => exact Or.inr (Or.inl (by simp))
      | cons d l =>
        obtain ⟨v, vs, hd, hv, -⟩ := utf8EncodeChar_shape d
        exact Or.inr (Or.inr ⟨v, by simp [hd], hv⟩)
    · exact Or.inr (Or.inl (by omega))
    · exact Or.inr (Or.inr h)

/-- The boundaries of a text are the ends of its front parts. -/
theorem isBoundary_iff {l : List Char} {n : Nat} (hn : n ≤ (utf8Bytes l).length) :
    IsBoundary (utf8Bytes l) n ↔ ∃ l₁ l₂, l = l₁ ++ l₂ ∧ n = (utf8Bytes l₁).length := by
  induction l generalizing n with
  | nil =>
    obtain rfl : n = 0 := by simpa using hn
    exact iff_of_true (Or.inl rfl) ⟨[], [], rfl, rfl⟩
  | cons c l ih =>
    rw [utf8Bytes_cons] at hn ⊢
    rw [List.length_append] at hn
    constructor
    · intro h
      rcases Nat.eq_zero_or_pos n with rfl | h0
      · exact ⟨[], c :: l, rfl, rfl⟩
      · have hle : (String.utf8EncodeChar c).length ≤ n := by
          by_contra hlt
          exact not_isBoundary_inside h0 (by omega) h
        obtain ⟨m, rfl⟩ := Nat.exists_eq_add_of_le hle
        obtain ⟨l₁, l₂, rfl, rfl⟩ := (ih (by omega)).mp (isBoundary_append_iff.mp h)
        exact ⟨c :: l₁, l₂, rfl, by simp⟩
    · rintro ⟨l₁, l₂, hl, rfl⟩
      cases l₁ with
      | nil => exact Or.inl rfl
      | cons d l₁ =>
        obtain ⟨rfl, rfl⟩ := List.cons.inj hl
        rw [utf8Bytes_cons, List.length_append]
        apply isBoundary_append_iff.mpr
        exact (ih (by simp)).mpr ⟨l₁, l₂, rfl, rfl⟩

end Rdq.Foundation
