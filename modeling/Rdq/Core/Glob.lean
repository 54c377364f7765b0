import Rdq.Foundation.Unicode

/-!
# Wildcard matching

`core/policy/glob.go`: `*` stands for any run of bytes and `?` for one byte. The
Java engine's `Glob` is the same loop over UTF-16 code units.

The matchers on texts are stated through the library's matcher on what is left of
pattern and subject. `globRounds` is the source's loop itself, on positions of
arbitrary byte strings; it ends with the matcher's answer (`globEnds_globLoop`).
-/

namespace Rdq

open Foundation

/-- The matcher over one of the two forms of a text. -/
def globOver (code : Char → List Nat) (pattern s : String) : Bool :=
  globLoop '*'.toNat '?'.toNat none (encode code pattern.toList) (encode code s.toList)

/-- `policy.Glob`: Go strings are indexed by bytes. -/
def glob (pattern s : String) : Bool := globOver utf8 pattern s

/-- `Glob.matches` of the Java engine: Java strings are indexed by UTF-16 code units. -/
def javaGlob (pattern s : String) : Bool := globOver utf16 pattern s

section
variable {code : Char → List Nat} {lead : Nat → Prop}

theorem globOver_iff {pattern s : String} : globOver code pattern s = true ↔
    Matches '*'.toNat '?'.toNat (encode code pattern.toList) (encode code s.toList) :=
  globLoop_none (by decide)

variable (hsync : SelfSync code lead)
include hsync

/-- On an ASCII text every code gives the same answer. -/
theorem globOver_ascii_iff {pattern s : String} (hs : ∀ c ∈ s.toList, c.toNat < 0x80) :
    globOver code pattern s = true ↔ (∀ c ∈ pattern.toList, c.toNat < 0x80) ∧
      Matches '*'.toNat '?'.toNat (pattern.toList.map Char.toNat) (s.toList.map Char.toNat) := by
  rw [globOver_iff, hsync.matches_ascii_iff (by decide) (by decide) hs]

/-- So does a pattern without `?`. -/
theorem globOver_of_notMem {pattern s : String} (hp : '?' ∉ pattern.toList) :
    globOver code pattern s = true ↔ Matches '*' '?' pattern.toList s.toList := by
  rw [globOver_iff, hsync.matches_encode_iff (by decide) (by decide) (by decide) hp]

/-- The empty text is matched by runs of `*` alone. -/
theorem globOver_empty_iff {pattern : String} :
    globOver code pattern "" = true ↔ ∀ c ∈ pattern.toList, c = '*' := by
  constructor
  · intro h c hc
    rw [globOver_iff] at h
    have hstars := (Matches.iff_of_nil (by decide)).mp h
    obtain ⟨u, us, hcode, _⟩ := hsync.shape c
    have hu := hstars u (List.mem_flatMap.mpr ⟨c, hc, by simp [hcode]⟩)
    have hascii : c.toNat < 0x80 := by
      by_contra hwide
      have := hsync.wide (c := c) (by omega) u (by simp [hcode])
      rw [hu] at this
      exact absurd this (by decide)
    rw [hsync.ascii hascii] at hcode
    exact Char.toNat_inj.mp (by rw [(List.cons.inj hcode).1, hu])
  · intro h
    rw [globOver_of_notMem hsync fun hmem => absurd (h '?' hmem) (by decide)]
    exact (Matches.iff_of_nil (by decide)).mpr h

/-- `n` question marks stand for the texts of `n` code units. -/
theorem globOver_replicate_iff {n : Nat} {s : String} :
    globOver code (String.ofList (List.replicate n '?')) s = true ↔
      (encode code s.toList).length = n := by
  have hpattern : encode code (List.replicate n '?') = List.replicate n '?'.toNat := by
    rw [hsync.encode_of_ascii fun c hc => by rw [List.eq_of_mem_replicate hc]; decide,
      List.map_replicate]
  rw [globOver_iff, String.toList_ofList, hpattern, Matches.replicate_any_iff (by decide)]

end

/-- The two matchers agree on ASCII texts and for patterns without `?`. -/
theorem glob_eq_javaGlob {pattern s : String}
    (h : (∀ c ∈ s.toList, c.toNat < 0x80) ∨ '?' ∉ pattern.toList) :
    glob pattern s = javaGlob pattern s := by
  rw [Bool.eq_iff_iff, glob, javaGlob]
  rcases h with hs | hp
  · rw [globOver_ascii_iff selfSync_utf8 hs, globOver_ascii_iff selfSync_utf16 hs]
  · rw [globOver_of_notMem selfSync_utf8 hp, globOver_of_notMem selfSync_utf16 hp]

/-! ## The loop on bytes -/

section Loop
variable (pattern s : List UInt8)

/-- The variables of the loop of `policy.Glob`; `star` is `none` where the source
has -1. -/
structure GlobVars where
  px : Nat := 0
  sx : Nat := 0
  star : Option Nat := none
  mark : Nat := 0

/-- One round of the loop: the variables of the next round, or the result. -/
def globRound (v : GlobVars) : GlobVars ⊕ Bool :=
  match s[v.sx]? with
  | some c =>
    if pattern[v.px]? = some '*'.toUInt8 then
      .inl { v with px := v.px + 1, star := some v.px, mark := v.sx }
    else if pattern[v.px]? = some '?'.toUInt8 ∨ pattern[v.px]? = some c then
      .inl { v with px := v.px + 1, sx := v.sx + 1 }
    else
      match v.star with
      | some star => .inl { v with px := star + 1, mark := v.mark + 1, sx := v.mark + 1 }
      | none => .inr false
  -- The subject is consumed: what is left of the pattern is a run of `*` or not.
  | none => .inr ((pattern.drop v.px).dropWhile (· = '*'.toUInt8)).isEmpty

/-- The loop, for at most `fuel` rounds. -/
def globRounds : Nat → GlobVars → Option Bool
  | 0, _ => none
  | fuel + 1, v =>
    match globRound pattern s v with
    | .inl v' => globRounds fuel v'
    | .inr b => some b

/-- The remembered pair of the matcher, as what is left of pattern and subject. -/
def GlobVars.back (v : GlobVars) : Option (List UInt8 × List UInt8) :=
  v.star.map fun star => (pattern.drop (star + 1), s.drop v.mark)

/-- The loop comes to an end with this result. -/
def GlobEnds (v : GlobVars) (b : Bool) : Prop :=
  ∃ n, ∀ fuel, n ≤ fuel → globRounds pattern s fuel v = some b

variable {pattern s}

theorem GlobEnds.done {v : GlobVars} {b : Bool} (h : globRound pattern s v = .inr b) :
    GlobEnds pattern s v b := by
  refine ⟨1, fun fuel hfuel => ?_⟩
  obtain ⟨k, rfl⟩ := Nat.exists_eq_add_of_le' hfuel
  simp only [globRounds, h]

theorem GlobEnds.next {v v' : GlobVars} {b : Bool} (h : globRound pattern s v = .inl v')
    (hv' : GlobEnds pattern s v' b) : GlobEnds pattern s v b := by
  obtain ⟨n, hn⟩ := hv'
  refine ⟨n + 1, fun fuel hfuel => ?_⟩
  obtain ⟨k, rfl⟩ := Nat.exists_eq_add_of_le' (Nat.le_of_add_left_le hfuel)
  simp only [globRounds, h]
  exact hn k (by omega)

theorem getElem?_of_drop_cons {l t : List UInt8} {i : Nat} {c : UInt8} (h : l.drop i = c :: t) :
    l[i]? = some c ∧ l.drop (i + 1) = t := by
  constructor
  · rw [← List.head?_drop, h, List.head?_cons]
  · rw [← List.tail_drop, h, List.tail_cons]

theorem getElem?_of_drop_nil {l : List UInt8} {i : Nat} (h : l.drop i = []) : l[i]? = none := by
  rw [← List.head?_drop, h, List.head?_nil]

/-- A mismatch goes back to the last `*` and lets it take one byte more. -/
theorem GlobEnds.retry {v : GlobVars} {c : UInt8} {q u : List UInt8} {d : UInt8} {b : Bool}
    (hsx : s[v.sx]? = some c) (hstar : pattern[v.px]? ≠ some '*'.toUInt8)
    (hm : ¬(pattern[v.px]? = some '?'.toUInt8 ∨ pattern[v.px]? = some c))
    (hback : v.back pattern s = some (q, d :: u))
    (h : ∀ v' : GlobVars, v'.mark ≤ v'.sx → v'.back pattern s = some (q, u) →
      pattern.drop v'.px = q → s.drop v'.sx = u → GlobEnds pattern s v' b) :
    GlobEnds pattern s v b := by
  obtain ⟨star, hv, hpair⟩ := Option.map_eq_some_iff.mp hback
  obtain ⟨rfl, hu⟩ := Prod.mk.inj hpair
  obtain ⟨-, hu'⟩ := getElem?_of_drop_cons hu
  have hround : globRound pattern s v =
      .inl { v with px := star + 1, mark := v.mark + 1, sx := v.mark + 1 } := by
    simp only [globRound, hsx, if_neg hstar, if_neg hm, hv]
  exact .next hround
    (h _ le_rfl (by simp only [GlobVars.back, hv, Option.map_some, hu']) rfl hu')

/-- Without an earlier `*` a mismatch ends the loop. -/
theorem GlobEnds.stuck {v : GlobVars} {c : UInt8} (hmark : v.mark ≤ v.sx)
    (hsx : s[v.sx]? = some c) (hstar : pattern[v.px]? ≠ some '*'.toUInt8)
    (hm : ¬(pattern[v.px]? = some '?'.toUInt8 ∨ pattern[v.px]? = some c))
    (hback : ∀ q d u, v.back pattern s = some (q, d :: u) → False) :
    GlobEnds pattern s v false := by
  apply GlobEnds.done
  cases hv : v.star with
  | none => simp only [globRound, hsx, if_neg hstar, if_neg hm, hv]
  | some star =>
    -- `mark` is a position of the subject, so the `*` has a byte left to take.
    exfalso
    have hlt : v.sx < s.length := (List.getElem?_eq_some_iff.mp hsx).1
    have hdrop : s.drop v.mark = s[v.mark] :: s.drop (v.mark + 1) :=
      List.drop_eq_getElem_cons (by omega)
    apply hback (pattern.drop (star + 1)) s[v.mark] (s.drop (v.mark + 1))
    rw [GlobVars.back, hv, Option.map_some, hdrop]

/-- The loop comes to an end with the result of the matcher on what is left. -/
theorem globEnds_globLoop (v : GlobVars) (hmark : v.mark ≤ v.sx) :
    GlobEnds pattern s v (globLoop '*'.toUInt8 '?'.toUInt8 (v.back pattern s)
      (pattern.drop v.px) (s.drop v.sx)) := by
  generalize hback : v.back pattern s = back
  generalize hp : pattern.drop v.px = p
  generalize ht : s.drop v.sx = t
  fun_induction globLoop '*'.toUInt8 '?'.toUInt8 back p t generalizing v with
  | case1 back p =>
    apply GlobEnds.done
    simp only [globRound, getElem?_of_drop_nil ht, hp]
  | case2 back c t p ih =>
    obtain ⟨hpx, hp'⟩ := getElem?_of_drop_cons hp
    obtain ⟨hsx, -⟩ := getElem?_of_drop_cons ht
    have hround : globRound pattern s v =
        .inl { v with px := v.px + 1, star := some v.px, mark := v.sx } := by
      simp only [globRound, hsx, hpx, if_pos]
    exact .next hround
      (ih _ le_rfl (by simp only [GlobVars.back, Option.map_some, hp', ht]) hp' ht)
  | case3 back c t x p hx hm ih =>
    obtain ⟨hpx, hp'⟩ := getElem?_of_drop_cons hp
    obtain ⟨hsx, ht'⟩ := getElem?_of_drop_cons ht
    have hround : globRound pattern s v = .inl { v with px := v.px + 1, sx := v.sx + 1 } := by
      simp only [globRound, hsx, hpx, Option.some.injEq, if_neg hx, if_pos hm]
    exact .next hround (ih _ (Nat.le_succ_of_le hmark) hback hp' ht')
  | case4 c t x p hx hm q d u ih =>
    obtain ⟨hpx, -⟩ := getElem?_of_drop_cons hp
    obtain ⟨hsx, -⟩ := getElem?_of_drop_cons ht
    exact .retry hsx (by simpa [hpx] using hx) (by simpa [hpx] using hm) hback ih
  | case5 back c t x p hx hm hstuck =>
    subst hback
    obtain ⟨hpx, -⟩ := getElem?_of_drop_cons hp
    obtain ⟨hsx, -⟩ := getElem?_of_drop_cons ht
    exact .stuck hmark hsx (by simpa [hpx] using hx) (by simpa [hpx] using hm) hstuck
  | case6 c t q d u ih =>
    have hpx := getElem?_of_drop_nil hp
    obtain ⟨hsx, -⟩ := getElem?_of_drop_cons ht
    exact .retry hsx (by simp [hpx]) (by simp [hpx]) hback ih
  | case7 back c t hstuck =>
    subst hback
    have hpx := getElem?_of_drop_nil hp
    obtain ⟨hsx, -⟩ := getElem?_of_drop_cons ht
    exact .stuck hmark hsx (by simp [hpx]) (by simp [hpx]) hstuck

variable (pattern s)

/-- From some number of rounds on the loop of `policy.Glob` has returned, and its
result says whether the pattern stands for the subject. -/
theorem glob_terminates_and_decides :
    ∃ b, GlobEnds pattern s {} b ∧ (b = true ↔ Matches '*'.toUInt8 '?'.toUInt8 pattern s) :=
  ⟨_, globEnds_globLoop {} le_rfl, globLoop_none (by decide)⟩

end Loop

end Rdq
