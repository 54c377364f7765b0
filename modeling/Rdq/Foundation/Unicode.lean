import Mathlib.Data.List.Basic
import Mathlib.Data.Char
import Mathlib.Tactic.Common
import Rdq.Foundation.Wildcard

/-!
# Code units

The UTF-8 and UTF-16 forms of a text, as lists of code units, and what wildcard
patterns see of them. Both forms are self-synchronising: the first unit of a
character is never one of the later units of a character, so a character is
found in a text only where one begins. Patterns without `any` therefore mean the
same over either form, while `any` counts code units.
-/

namespace Rdq.Foundation

/-- The bytes of the UTF-8 form of a character. -/
def utf8 (c : Char) : List Nat := (String.utf8EncodeChar c).map UInt8.toNat

/-- The code units of the UTF-16 form of a character. -/
def utf16 (c : Char) : List Nat :=
  if c.toNat < 0x10000 then [c.toNat]
  else [0xD800 + (c.toNat - 0x10000) / 0x400, 0xDC00 + (c.toNat - 0x10000) % 0x400]

/-- A code of characters in units, where `lead` holds of first units only. -/
structure SelfSync (code : Char → List Nat) (lead : Nat → Prop) : Prop where
  shape : ∀ c, ∃ u us, code c = u :: us ∧ lead u ∧ ∀ v ∈ us, ¬ lead v
  cancel : ∀ {c d : Char} {s t : List Nat}, code c ++ s = code d ++ t → c = d
  /-- A character below U+0080 is its own unit, and no other character has such units. -/
  ascii : ∀ {c : Char}, c.toNat < 0x80 → code c = [c.toNat]
  wide : ∀ {c : Char}, 0x80 ≤ c.toNat → ∀ u ∈ code c, 0x80 ≤ u

/-- A character is a code point that is no surrogate. -/
theorem toNat_range (c : Char) :
    c.toNat < 0xD800 ∨ (0xE000 ≤ c.toNat ∧ c.toNat < 0x110000) := by
  rcases c.valid with h | h
  · exact Or.inl h
  · exact Or.inr ⟨Nat.lt_of_succ_le h.1, h.2⟩

/-- The bytes of a character by the size of its code point. -/
theorem utf8_eq (c : Char) : utf8 c =
    if c.toNat < 0x80 then [c.toNat]
    else if c.toNat < 0x800 then [0xC0 + c.toNat / 64, 0x80 + c.toNat % 64]
    else if c.toNat < 0x10000 then
      [0xE0 + c.toNat / 4096, 0x80 + c.toNat / 64 % 64, 0x80 + c.toNat % 64]
    else
      [0xF0 + c.toNat / 262144, 0x80 + c.toNat / 4096 % 64, 0x80 + c.toNat / 64 % 64,
        0x80 + c.toNat % 64] := by
  have hrange := toNat_range c
  simp only [utf8, String.utf8EncodeChar, show c.val.toNat = c.toNat from rfl]
  generalize c.toNat = v at hrange
  split_ifs <;> first | omega | skip
  · simp; omega
  · simp; omega
  · simp; omega
  · simp; omega

theorem selfSync_utf8 : SelfSync utf8 (fun u => u < 0x80 ∨ 0xC0 ≤ u) where
  shape := by
    intro c
    have hrange := toNat_range c
    rw [utf8_eq]
    generalize c.toNat = v at hrange
    split_ifs
    all_goals
      refine ⟨_, _, rfl, ?_, ?_⟩
      · omega
      · simp <;> omega
  cancel := by
    intro c d s t h
    have hc := toNat_range c
    have hd := toNat_range d
    apply Char.toNat_inj.mp
    rw [utf8_eq, utf8_eq] at h
    generalize c.toNat = v at hc h ⊢
    generalize d.toNat = w at hd h ⊢
    split_ifs at h <;> simp at h <;> omega
  ascii := by
    intro c hc
    rw [utf8_eq, if_pos hc]
  wide := by
    intro c hc u hu
    have hrange := toNat_range c
    rw [utf8_eq] at hu
    generalize c.toNat = v at hc hrange hu
    split_ifs at hu <;> simp at hu <;> omega

theorem selfSync_utf16 : SelfSync utf16 (fun u => u < 0xDC00 ∨ 0xE000 ≤ u) where
  shape := by
    intro c
    have hrange := toNat_range c
    rw [utf16]
    generalize c.toNat = v at hrange
    split_ifs
    all_goals
      refine ⟨_, _, rfl, ?_, ?_⟩
      · omega
      · simp <;> omega
  cancel := by
    intro c d s t h
    have hc := toNat_range c
    have hd := toNat_range d
    apply Char.toNat_inj.mp
    rw [utf16, utf16] at h
    generalize c.toNat = v at hc h ⊢
    generalize d.toNat = w at hd h ⊢
    split_ifs at h <;> simp at h <;> omega
  ascii := by
    intro c hc
    rw [utf16, if_pos (by omega)]
  wide := by
    intro c hc u hu
    have hrange := toNat_range c
    rw [utf16] at hu
    generalize c.toNat = v at hc hrange hu
    split_ifs at hu <;> simp at hu <;> omega

/-- The code units of a text. -/
def encode (code : Char → List Nat) (s : List Char) : List Nat := s.flatMap code

@[simp] theorem encode_nil (code : Char → List Nat) : encode code [] = [] := rfl

@[simp] theorem encode_cons (code : Char → List Nat) (c : Char) (s : List Char) :
    encode code (c :: s) = code c ++ encode code s := rfl

@[simp] theorem encode_append (code : Char → List Nat) (s t : List Char) :
    encode code (s ++ t) = encode code s ++ encode code t := List.flatMap_append

/-- A text beyond ASCII has fewer code units in UTF-16 than in UTF-8. -/
theorem length_utf16_lt {s : List Char} (h : ∃ c ∈ s, 0x80 ≤ c.toNat) :
    (encode utf16 s).length < (encode utf8 s).length := by
  have hchar (c : Char) : (utf16 c).length ≤ (utf8 c).length ∧
      (0x80 ≤ c.toNat → (utf16 c).length < (utf8 c).length) := by
    rw [utf8_eq, utf16]
    split_ifs <;> simp <;> omega
  have hle (s : List Char) : (encode utf16 s).length ≤ (encode utf8 s).length := by
    induction s with
    | nil => simp
    | cons c s ih =>
      have := (hchar c).1
      simp only [encode_cons, List.length_append]
      omega
  obtain ⟨c, hc, hwide⟩ := h
  obtain ⟨s₁, s₂, rfl⟩ := List.append_of_mem hc
  have h₁ := hle s₁
  have h₂ := hle s₂
  have h₃ := (hchar c).2 hwide
  simp only [encode_append, encode_cons, List.length_append]
  omega

namespace SelfSync
variable {code : Char → List Nat} {lead : Nat → Prop} (hsync : SelfSync code lead)
include hsync

theorem encode_of_ascii {s : List Char} (hs : ∀ c ∈ s, c.toNat < 0x80) :
    encode code s = s.map Char.toNat := by
  induction s with
  | nil => rfl
  | cons c s ih =>
    rw [encode_cons, hsync.ascii (hs c (by simp)), ih fun d hd => hs d (by simp [hd])]
    rfl

theorem encode_eq_nil {s : List Char} (h : encode code s = []) : s = [] := by
  cases s with
  | nil => rfl
  | cons c s =>
    obtain ⟨u, us, hcode, _⟩ := hsync.shape c
    simp [hcode] at h

/-- A text that starts with the units of a character starts with the character. -/
theorem encode_eq_append {s : List Char} {c : Char} {t : List Nat}
    (h : encode code s = code c ++ t) : ∃ s', s = c :: s' ∧ t = encode code s' := by
  cases s with
  | nil =>
    obtain ⟨u, us, hcode, _⟩ := hsync.shape c
    simp [hcode] at h
  | cons d s =>
    have hdc := hsync.cancel h
    subst hdc
    exact ⟨s, rfl, (List.append_cancel_left h).symm⟩

/-- A text can be cut before every first unit. -/
theorem split_at_lead {s : List Char} {u t : List Nat} {x : Nat}
    (h : encode code s = u ++ x :: t) (hx : lead x) :
    ∃ s₁ s₂, s = s₁ ++ s₂ ∧ x :: t = encode code s₂ := by
  induction s generalizing u with
  | nil => simp at h
  | cons d s ih =>
    rcases List.append_eq_append_iff.mp h with ⟨a, _, hrest⟩ | ⟨a, hd, hrest⟩
    · obtain ⟨s₁, s₂, rfl, hx'⟩ := ih hrest
      exact ⟨d :: s₁, s₂, rfl, hx'⟩
    · cases a with
      | nil => exact ⟨[d], s, rfl, hrest⟩
      | cons y a =>
        obtain ⟨rfl, rfl⟩ := List.cons.inj hrest
        cases u with
        | nil => exact ⟨[], d :: s, rfl, by rw [encode_cons, hd]; rfl⟩
        | cons z u =>
          obtain ⟨w, ws, hcode, _, htail⟩ := hsync.shape d
          rw [hcode] at hd
          obtain ⟨rfl, rfl⟩ := List.cons.inj hd
          exact absurd hx (htail x (by simp))

section Patterns
variable {star any : Char} (hstar : star.toNat < 0x80) (hany : any.toNat < 0x80)
include hstar hany

/-- The units of a character that is no wildcard are no wildcards. -/
theorem unit_ne {c : Char} (hc : c ≠ star ∧ c ≠ any) :
    ∀ u ∈ code c, u ≠ star.toNat ∧ u ≠ any.toNat := by
  intro u hu
  by_cases hwide : c.toNat < 0x80
  · rw [hsync.ascii hwide, List.mem_singleton] at hu
    subst hu
    exact ⟨fun h => hc.1 (Char.toNat_inj.mp h), fun h => hc.2 (Char.toNat_inj.mp h)⟩
  · have := hsync.wide (by omega) u hu
    omega

/-- An ASCII text is matched by ASCII patterns only. -/
theorem ascii_of_matches {p s : List Char} (hs : ∀ c ∈ s, c.toNat < 0x80)
    (h : Matches star.toNat any.toNat (encode code p) (encode code s)) :
    ∀ c ∈ p, c.toNat < 0x80 := by
  intro c hc
  by_contra hwide
  obtain ⟨u, us, hcode, _⟩ := hsync.shape c
  have hu := hsync.wide (c := c) (by omega) u (by simp [hcode])
  have hmem : u ∈ encode code p := List.mem_flatMap.mpr ⟨c, hc, by simp [hcode]⟩
  have hsub := h.mem_of_mem hmem (by omega) (by omega)
  rw [hsync.encode_of_ascii hs] at hsub
  obtain ⟨d, hd, rfl⟩ := List.mem_map.mp hsub
  have := hs d hd
  omega

/-- Over an ASCII text a pattern means the same in every code. -/
theorem matches_ascii_iff {p s : List Char} (hs : ∀ c ∈ s, c.toNat < 0x80) :
    Matches star.toNat any.toNat (encode code p) (encode code s) ↔
      (∀ c ∈ p, c.toNat < 0x80) ∧
        Matches star.toNat any.toNat (p.map Char.toNat) (s.map Char.toNat) := by
  constructor
  · intro h
    have hp := hsync.ascii_of_matches hstar hany hs h
    rw [hsync.encode_of_ascii hp, hsync.encode_of_ascii hs] at h
    exact ⟨hp, h⟩
  · rintro ⟨hp, h⟩
    rwa [hsync.encode_of_ascii hp, hsync.encode_of_ascii hs]

variable (hne : any ≠ star)
include hne

/-- Without `any`, a pattern means the same over the code units as over the characters. -/
theorem matches_encode_iff {p s : List Char} (hp : any ∉ p) :
    Matches star.toNat any.toNat (encode code p) (encode code s) ↔ Matches star any p s := by
  have hne' : any.toNat ≠ star.toNat := fun h => hne (Char.toNat_inj.mp h)
  constructor
  · intro h
    induction p generalizing s with
    | nil => exact Matches.nil_iff.mpr (hsync.encode_eq_nil (Matches.nil_iff.mp h))
    | cons c p ih =>
      rw [List.mem_cons, not_or] at hp
      rw [encode_cons] at h
      by_cases hc : c = star
      · subst hc
        rw [hsync.ascii hstar, List.singleton_append, Matches.star_iff hne'] at h
        obtain ⟨u, t, hs, h⟩ := h
        -- the run ends where a character begins, or runs into another `star`
        cases p with
        | nil =>
          rw [← List.append_nil s]
          exact .run s .nil
        | cons d p =>
          by_cases hd : d = c
          · subst hd
            rw [encode_cons, hsync.ascii hstar, List.singleton_append] at h
            have h' := Matches.star_append hne' u h
            rw [← hs] at h'
            exact .run [] (ih hp.2 (by simpa [hsync.ascii hstar] using h'))
          · rw [encode_cons, Matches.append_iff (hsync.unit_ne hstar hany
              ⟨hd, fun e => hp.2 (by simp [e])⟩)] at h
            obtain ⟨t', rfl, h⟩ := h
            obtain ⟨x, xs, hcode, hlead, _⟩ := hsync.shape d
            rw [hcode, List.cons_append] at hs
            obtain ⟨s₁, s₂, rfl, hs₂⟩ := hsync.split_at_lead hs hlead
            refine .run s₁ (ih hp.2 ?_)
            rw [← hs₂, ← List.cons_append, ← hcode, encode_cons, Matches.append_iff
              (hsync.unit_ne hstar hany ⟨hd, fun e => hp.2 (by simp [e])⟩)]
            exact ⟨t', rfl, h⟩
      · rw [Matches.append_iff (hsync.unit_ne hstar hany ⟨hc, fun e => hp.1 e.symm⟩)] at h
        obtain ⟨t, hs, h⟩ := h
        obtain ⟨s', rfl, rfl⟩ := hsync.encode_eq_append hs
        exact .lit hc (ih hp.2 h)
  · intro h
    induction h with
    | nil => exact .nil
    | run u h ih =>
      rw [encode_cons, hsync.ascii hstar, encode_append]
      exact .run _ (ih fun hmem => hp (by simp [hmem]))
    | one c h => exact absurd List.mem_cons_self hp
    | @lit p s c hc h ih =>
      rw [List.mem_cons, not_or] at hp
      rw [encode_cons, encode_cons,
        Matches.append_iff (hsync.unit_ne hstar hany ⟨hc, fun e => hp.1 e.symm⟩)]
      exact ⟨_, rfl, ih hp.2⟩

end Patterns

end SelfSync

end Rdq.Foundation
