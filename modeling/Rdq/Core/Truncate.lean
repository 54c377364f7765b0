import Rdq.Foundation.Utf8

/-!
# Truncation

`core/envelope/validate.go`: a text that does not fit into a number of bytes is cut at a
rune boundary and marked. Lengths count bytes; a limit is not negative.
-/

namespace Rdq

open Foundation

/-- `TruncationMarker`: an ellipsis and `[truncated]`. -/
def truncationMarker : List UInt8 :=
  utf8Bytes ['…', '[', 't', 'r', 'u', 'n', 'c', 'a', 't', 'e', 'd', ']']

/-- `MaxMessageBytes`. -/
def maxMessageBytes : Nat := 4 <<< 10

/-- `MaxStackBytes`. -/
def maxStackBytes : Nat := 64 <<< 10

/-- `runeSafePrefix`: the loop moves the cut back to a rune boundary. -/
def runeSafePrefix (s : List UInt8) : Nat → List UInt8
  | 0 => []
  | n + 1 =>
    match s[n + 1]? with
    | some b => if runeStart b then s.take (n + 1) else runeSafePrefix s n
    | none => s.take (n + 1)

/-- `Truncate`. -/
def truncate (s : List UInt8) (limit : Nat) : List UInt8 :=
  if s.length ≤ limit then s
  else if limit < truncationMarker.length then runeSafePrefix truncationMarker limit
  else runeSafePrefix s (limit - truncationMarker.length) ++ truncationMarker

/-- The cut is the last boundary up to the given position. -/
theorem runeSafePrefix_spec (s : List UInt8) (n : Nat) :
    ∃ m ≤ n, runeSafePrefix s n = s.take m ∧ IsBoundary s m ∧
      ∀ k ≤ n, IsBoundary s k → k ≤ m := by
  induction n with
  | zero => exact ⟨0, le_rfl, rfl, Or.inl rfl, fun k hk _ => hk⟩
  | succ n ih =>
    cases hb : s[n + 1]? with
    | none =>
      refine ⟨n + 1, le_rfl, by simp only [runeSafePrefix, hb], Or.inr (Or.inl ?_),
        fun k hk _ => hk⟩
      exact List.getElem?_eq_none_iff.mp hb
    | some b =>
      by_cases hstart : runeStart b = true
      · exact ⟨n + 1, le_rfl, by simp only [runeSafePrefix, hb, if_pos hstart],
          Or.inr (Or.inr ⟨b, hb, hstart⟩), fun k hk _ => hk⟩
      · obtain ⟨m, hm, htake, hbound, hlast⟩ := ih
        have hinside : ¬ IsBoundary s (n + 1) := by
          rintro (h | h | ⟨b', hb', h⟩)
          · cases h
          · rw [List.getElem?_eq_none h] at hb
            cases hb
          · rw [hb] at hb'
            cases hb'
            exact hstart h
        refine ⟨m, by omega, ?_, hbound, ?_⟩
        · simp only [runeSafePrefix, hb]
          rw [if_neg hstart, htake]
        · intro k hk hkb
          apply hlast k _ hkb
          by_contra hlt
          obtain rfl : k = n + 1 := by omega
          exact hinside hkb

theorem length_runeSafePrefix_le (s : List UInt8) (n : Nat) : (runeSafePrefix s n).length ≤ n := by
  obtain ⟨m, hm, htake, -, -⟩ := runeSafePrefix_spec s n
  rw [htake]
  exact (List.length_take_le m s).trans hm

/-- The front parts of a text that end on a rune boundary. -/
def RunePrefix (p s : List UInt8) : Prop :=
  ∃ l₁ l₂, s = utf8Bytes (l₁ ++ l₂) ∧ p = utf8Bytes l₁

/-- The cut of a text is its longest front part of whole runes that fits. -/
theorem runeSafePrefix_longest {s : List UInt8} (hs : ValidUtf8 s) {n : Nat} (hn : n ≤ s.length) :
    RunePrefix (runeSafePrefix s n) s ∧
      ∀ p, RunePrefix p s → p.length ≤ n → p.length ≤ (runeSafePrefix s n).length := by
  obtain ⟨l, rfl⟩ := hs
  obtain ⟨m, hm, htake, hbound, hlast⟩ := runeSafePrefix_spec (utf8Bytes l) n
  rw [htake, List.length_take, Nat.min_eq_left (by omega)]
  constructor
  · obtain ⟨l₁, l₂, rfl, rfl⟩ := (isBoundary_iff (by omega)).mp hbound
    exact ⟨l₁, l₂, rfl, by simp⟩
  · rintro p ⟨l₁, l₂, hl, rfl⟩ hp
    apply hlast _ hp
    rw [hl] at hn ⊢
    exact (isBoundary_iff (by omega)).mpr ⟨l₁, l₂, rfl, rfl⟩

theorem RunePrefix.valid {p s : List UInt8} (h : RunePrefix p s) : ValidUtf8 p := by
  obtain ⟨l₁, l₂, -, hp⟩ := h
  exact ⟨l₁, hp⟩

theorem validUtf8_truncationMarker : ValidUtf8 truncationMarker := ⟨_, rfl⟩

theorem length_truncate_le (s : List UInt8) (limit : Nat) : (truncate s limit).length ≤ limit := by
  unfold truncate
  split_ifs with hfits hmarker
  · exact hfits
  · exact length_runeSafePrefix_le truncationMarker limit
  · have := length_runeSafePrefix_le s (limit - truncationMarker.length)
    rw [List.length_append]
    omega

theorem truncate_of_le {s : List UInt8} {limit : Nat} (h : s.length ≤ limit) :
    truncate s limit = s := if_pos h

/-- The truncation law for every text and limit. -/
theorem truncate_law (s : List UInt8) (hs : ValidUtf8 s) (limit : Nat) :
    ValidUtf8 (truncate s limit) ∧ (truncate s limit).length ≤ limit ∧
    (s.length ≤ limit → truncate s limit = s) ∧
    (limit < s.length → truncationMarker.length ≤ limit →
      ∃ p, truncate s limit = p ++ truncationMarker ∧ RunePrefix p s ∧
        p.length ≤ limit - truncationMarker.length ∧
        ∀ q, RunePrefix q s → q.length ≤ limit - truncationMarker.length →
          q.length ≤ p.length) ∧
    ∀ limit', limit ≤ limit' → truncate (truncate s limit) limit' = truncate s limit := by
  refine ⟨?_, length_truncate_le s limit, truncate_of_le, ?_, fun limit' hle =>
    truncate_of_le ((length_truncate_le s limit).trans hle)⟩
  · unfold truncate
    split_ifs with hfits hmarker
    · exact hs
    · exact (runeSafePrefix_longest validUtf8_truncationMarker (by omega)).1.valid
    · exact (runeSafePrefix_longest hs (by omega)).1.valid.append validUtf8_truncationMarker
  · intro hlong hmarker
    obtain ⟨hcut, hlongest⟩ :=
      runeSafePrefix_longest hs (n := limit - truncationMarker.length) (by omega)
    refine ⟨_, ?_, hcut, length_runeSafePrefix_le s _, hlongest⟩
    rw [truncate, if_neg (by omega), if_neg (by omega)]

/-- Ten ellipses of three bytes each are cut between two of them. -/
theorem truncate_ellipses :
    ValidUtf8 (truncate (utf8Bytes (List.replicate 10 '…')) 19) ∧
      truncate (utf8Bytes (List.replicate 10 '…')) 19 = utf8Bytes ['…'] ++ truncationMarker :=
  ⟨(truncate_law _ ⟨_, rfl⟩ 19).1, by decide +kernel⟩

end Rdq
