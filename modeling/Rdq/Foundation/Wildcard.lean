import Mathlib.Data.List.TakeWhile
import Mathlib.Tactic.Common

/-!
# Wildcard patterns

Patterns over an arbitrary alphabet with two special symbols: `star` stands for
any run of symbols and `any` for exactly one. `Matches` says what a pattern
means; `globLoop` is the two-pointer matcher that remembers the last `star` and
backtracks to it. They agree (`globLoop_none`).

## Implementation notes

The matcher's positions are kept as what is left of the pattern and of the
subject from there on. The remembered pair is the pattern behind the last `star`
and the subject from the position where that `star` was last tried to end.
-/

namespace Rdq.Foundation

section Matches
variable {α : Type*} {star any : α}

variable {p s : List α}

/-- The words a pattern stands for. -/
inductive Matches (star any : α) : List α → List α → Prop
  | nil : Matches star any [] []
  | run {p s : List α} (u : List α) (h : Matches star any p s) :
      Matches star any (star :: p) (u ++ s)
  | one {p s : List α} (c : α) (h : Matches star any p s) : Matches star any (any :: p) (c :: s)
  | lit {p s : List α} {c : α} (hc : c ≠ star) (h : Matches star any p s) :
      Matches star any (c :: p) (c :: s)

namespace Matches

/-- A pattern whose first symbol is no `star` consumes one symbol with it. -/
theorem cons_iff {x : α} (hx : x ≠ star) :
    Matches star any (x :: p) s ↔
      ∃ c s', s = c :: s' ∧ (x = any ∨ x = c) ∧ Matches star any p s' := by
  constructor
  · intro h
    cases h with
    | run u h => exact absurd rfl hx
    | one c h => exact ⟨c, _, rfl, Or.inl rfl, h⟩
    | lit hc h => exact ⟨x, _, rfl, Or.inr rfl, h⟩
  · rintro ⟨c, s', rfl, rfl | rfl, h⟩
    · exact .one c h
    · exact .lit hx h

theorem not_cons_cons {x c : α} (hx : x ≠ star) (hc : ¬(x = any ∨ x = c)) :
    ¬ Matches star any (x :: p) (c :: s) := by
  rw [cons_iff hx]
  rintro ⟨_, _, hs, hxc, _⟩
  cases hs
  exact hc hxc

theorem nil_iff {s : List α} : Matches star any [] s ↔ s = [] := by
  constructor
  · intro h
    cases h
    rfl
  · rintro rfl
    exact .nil

/-- A part of the pattern without wildcards stands for itself. -/
theorem append_iff {q : List α} (hq : ∀ x ∈ q, x ≠ star ∧ x ≠ any) :
    Matches star any (q ++ p) s ↔ ∃ s', s = q ++ s' ∧ Matches star any p s' := by
  induction q generalizing s with
  | nil => simp
  | cons x q ih =>
    obtain ⟨hstar, hany⟩ := hq x (by simp)
    rw [List.cons_append, cons_iff hstar]
    constructor
    · rintro ⟨c, s', rfl, hxc, h⟩
      obtain rfl := hxc.resolve_left hany
      obtain ⟨t, rfl, h'⟩ := (ih fun y hy => hq y (by simp [hy])).mp h
      exact ⟨t, rfl, h'⟩
    · rintro ⟨t, rfl, h⟩
      exact ⟨x, q ++ t, rfl, Or.inr rfl, (ih fun y hy => hq y (by simp [hy])).mpr ⟨t, rfl, h⟩⟩

variable (hany : any ≠ star)
include hany

/-- A leading `star` consumes some front part of the subject. -/
theorem star_iff :
    Matches star any (star :: p) s ↔ ∃ u s', s = u ++ s' ∧ Matches star any p s' := by
  constructor
  · intro h
    generalize hq : star :: p = q at h
    cases h with
    | nil => cases hq
    | run u h =>
      cases hq
      exact ⟨u, _, rfl, h⟩
    | one c h => exact absurd (List.cons.inj hq).1.symm hany
    | lit hc h => exact absurd (List.cons.inj hq).1.symm hc
  · rintro ⟨u, s', rfl, h⟩
    exact .run u h

/-- Whatever stands before a match is consumed by a leading `star`. -/
theorem star_append (u : List α) (h : Matches star any (star :: p) s) :
    Matches star any (star :: p) (u ++ s) := by
  obtain ⟨v, s', rfl, h'⟩ := (star_iff hany).mp h
  rw [← List.append_assoc]
  exact .run (u ++ v) h'

/-- The first symbol of the subject is left to the `star` or not. -/
theorem star_cons_iff {c : α} :
    Matches star any (star :: p) (c :: s) ↔
      Matches star any p (c :: s) ∨ Matches star any (star :: p) s := by
  constructor
  · intro h
    obtain ⟨u, s', hs, h'⟩ := (star_iff hany).mp h
    cases u with
    | nil =>
      left
      rwa [hs]
    | cons d u =>
      right
      obtain ⟨rfl, rfl⟩ := List.cons.inj hs
      exact .run u h'
  · rintro (h | h)
    · exact .run [] h
    · exact star_append hany [c] h

theorem star_nil_iff {p : List α} :
    Matches star any (star :: p) [] ↔ Matches star any p [] := by
  rw [star_iff hany]
  constructor
  · rintro ⟨u, s', hs, h⟩
    obtain ⟨rfl, rfl⟩ := List.append_eq_nil_iff.mp hs.symm
    exact h
  · exact fun h => ⟨[], [], rfl, h⟩

/-- The empty subject is matched by runs of `star` alone. -/
theorem iff_of_nil {p : List α} : Matches star any p [] ↔ ∀ x ∈ p, x = star := by
  classical
  induction p with
  | nil => simp [nil_iff]
  | cons x p ih =>
    by_cases hx : x = star
    · subst hx
      simp [star_nil_iff hany, ih]
    · simp [cons_iff hx, hx]

omit hany in
/-- A part of the pattern without `star` consumes as many symbols as it has. -/
theorem drop_of_append {q p s : List α} (hq : ∀ x ∈ q, x ≠ star)
    (h : Matches star any (q ++ p) s) :
    q.length ≤ s.length ∧ Matches star any p (s.drop q.length) := by
  induction q generalizing s with
  | nil => exact ⟨Nat.zero_le _, h⟩
  | cons x q ih =>
    obtain ⟨c, s', rfl, _, h'⟩ := (cons_iff (hq x (by simp))).mp h
    obtain ⟨hlen, hdrop⟩ := ih (fun y hy => hq y (by simp [hy])) h'
    exact ⟨by simpa using hlen, by simpa using hdrop⟩

/-- `n` times `any` stands for the words of length `n`. -/
theorem replicate_any_iff {n : Nat} {s : List α} :
    Matches star any (List.replicate n any) s ↔ s.length = n := by
  induction n generalizing s with
  | zero => simp [nil_iff]
  | succ n ih =>
    rw [List.replicate_succ, cons_iff hany]
    constructor
    · rintro ⟨c, s', rfl, _, h⟩
      simp [ih.mp h]
    · intro h
      obtain ⟨c, s', rfl⟩ := List.exists_cons_of_length_eq_add_one h
      exact ⟨c, s', rfl, Or.inl rfl, ih.mpr (by simpa using h)⟩

omit hany in
/-- A symbol of the pattern that is no wildcard occurs in the subject. -/
theorem mem_of_mem {x : α} (h : Matches star any p s) (hx : x ∈ p) (hs : x ≠ star) (ha : x ≠ any) :
    x ∈ s := by
  induction h with
  | nil => exact hx
  | run u h ih =>
    rcases List.mem_cons.mp hx with rfl | hx
    · exact absurd rfl hs
    · exact List.mem_append_right u (ih hx)
  | one c h ih =>
    rcases List.mem_cons.mp hx with rfl | hx
    · exact absurd rfl ha
    · exact List.mem_cons_of_mem c (ih hx)
  | lit hc h ih =>
    rcases List.mem_cons.mp hx with rfl | hx
    · exact List.mem_cons_self
    · exact List.mem_cons_of_mem _ (ih hx)

end Matches

end Matches

section Loop
variable {α : Type*} [DecidableEq α] (star any : α)

/-- What is left to scan; it bounds the number of times the matcher backtracks. -/
def loopBound {α : Type*} (back : Option (List α × List α)) (s : List α) : Nat :=
  match back with
  | none => s.length + 1
  | some (_, t) => max t.length s.length

omit [DecidableEq α] in
theorem loopBound_star (back : Option (List α × List α)) (p s : List α) :
    loopBound (some (p, s)) s ≤ loopBound back s := by
  cases back with
  | none => simp [loopBound]
  | some b =>
    simp only [loopBound]
    omega

omit [DecidableEq α] in
theorem loopBound_tail (back : Option (List α × List α)) (c : α) (s : List α) :
    loopBound back s ≤ loopBound back (c :: s) := by
  cases back with
  | none => simp [loopBound]
  | some b =>
    simp only [loopBound, List.length_cons]
    omega

theorem lex_lt_of_le_of_lt {a b c d : Nat} (h : a ≤ b) (h' : c < d) :
    Prod.Lex (· < ·) (· < ·) (a, c) (b, d) := by
  rcases Nat.lt_or_eq_of_le h with h | rfl
  · exact Prod.Lex.left _ _ h
  · exact Prod.Lex.right _ h'

/-- The two-pointer matcher. -/
def globLoop (back : Option (List α × List α)) (p s : List α) : Bool :=
  match s with
  | [] => (p.dropWhile (· = star)).isEmpty
  | c :: s' =>
    match p with
    | x :: p' =>
      if x = star then globLoop (some (p', c :: s')) p' (c :: s')
      else if x = any ∨ x = c then globLoop back p' s'
      else
        match back with
        | some (q, _ :: t) => globLoop (some (q, t)) q t
        | _ => false
    | [] =>
      match back with
      | some (q, _ :: t) => globLoop (some (q, t)) q t
      | _ => false
termination_by (loopBound back s, p.length)
decreasing_by
  · exact lex_lt_of_le_of_lt (loopBound_star back p' (c :: s')) (by simp)
  · exact lex_lt_of_le_of_lt (loopBound_tail back c s') (by simp)
  · exact Prod.Lex.left _ _ (by simp only [loopBound, List.length_cons]; omega)
  · exact Prod.Lex.left _ _ (by simp only [loopBound, List.length_cons]; omega)

/-- What the matcher's remembered pair promises at a position: the pattern since
the last `star` has no other `star`, and consumed one symbol for each of its own. -/
def Tracks (back : Option (List α × List α)) (p s : List α) : Prop :=
  ∀ q t, back = some (q, t) → ∃ r u, (∀ x ∈ r, x ≠ star) ∧ q = r ++ p ∧ t = u ++ s ∧
    u.length = r.length

/-- The matches that are left when the current one fails: a longer run for the
last `star`. -/
def Retry (back : Option (List α × List α)) : Prop :=
  ∃ q t, back = some (q, t) ∧ Matches star any (star :: q) t.tail

variable {star any}

omit [DecidableEq α] in
theorem tracks_none (p s : List α) : Tracks star none p s := by
  intro q t h
  cases h

omit [DecidableEq α] in
theorem tracks_some (p s : List α) : Tracks star (some (p, s)) p s := by
  rintro q t ⟨⟩
  exact ⟨[], [], by simp, rfl, rfl, rfl⟩

omit [DecidableEq α] in
theorem Tracks.step {back : Option (List α × List α)} {x c : α} {p s : List α}
    (h : Tracks star back (x :: p) (c :: s)) (hx : x ≠ star) : Tracks star back p s := by
  intro q t hback
  obtain ⟨r, u, hr, rfl, rfl, hlen⟩ := h q t hback
  refine ⟨r ++ [x], u ++ [c], ?_, by simp, by simp, by simp [hlen]⟩
  intro y hy
  rcases List.mem_append.mp hy with hy | hy
  · exact hr y hy
  · rw [List.mem_singleton.mp hy]
    exact hx

variable (hany : any ≠ star)
include hany

omit [DecidableEq α] in
/-- With the subject consumed there is no symbol left for a longer run. -/
theorem matches_of_retry_nil {back : Option (List α × List α)} {p : List α}
    (htr : Tracks star back p []) (h : Retry star any back) : Matches star any p [] := by
  obtain ⟨q, t, hback, hm⟩ := h
  obtain ⟨r, u, hr, rfl, rfl, hlen⟩ := htr q t hback
  obtain ⟨v, s', hs, hm⟩ := (Matches.star_iff hany).mp hm
  obtain ⟨hle, hm⟩ := hm.drop_of_append hr
  have hlen' := congrArg List.length hs
  simp only [List.append_nil, List.length_tail, List.length_append] at hlen'
  rwa [List.eq_nil_of_length_eq_zero (l := s'.drop r.length)
    (by rw [List.length_drop]; omega)] at hm

omit [DecidableEq α] in
/-- A second `star` can do whatever a longer run for the first one could. -/
theorem matches_of_retry_star {back : Option (List α × List α)} {p s : List α}
    (htr : Tracks star back (star :: p) s) (h : Retry star any back) :
    Matches star any (star :: p) s := by
  obtain ⟨q, t, hback, hm⟩ := h
  obtain ⟨r, u, hr, rfl, rfl, hlen⟩ := htr q t hback
  obtain ⟨v, s', hs, hm⟩ := (Matches.star_iff hany).mp hm
  obtain ⟨hle, hm⟩ := hm.drop_of_append hr
  have hrest : s'.drop r.length = s.drop (v.length + 1) := by
    calc s'.drop r.length = (v ++ s').drop (v.length + r.length) := by
          rw [List.drop_length_add_append]
      _ = (u ++ s).drop (u.length + (v.length + 1)) := by
          rw [← hs, ← List.drop_one, List.drop_drop, hlen]
          congr 1
          omega
      _ = s.drop (v.length + 1) := by rw [List.drop_length_add_append]
  rw [hrest] at hm
  rw [← List.take_append_drop (v.length + 1) s]
  exact Matches.star_append hany _ hm

omit [DecidableEq α] in
/-- Giving up on the current match leaves a run longer by one. -/
theorem retry_some_cons {q t : List α} {c : α} :
    Retry star any (some (q, c :: t)) ↔
      Matches star any q t ∨ Retry star any (some (q, t)) := by
  constructor
  · rintro ⟨_, _, ⟨⟩, hm⟩
    rw [List.tail_cons] at hm
    cases t with
    | nil => exact Or.inl ((Matches.star_nil_iff hany).mp hm)
    | cons d t =>
      exact ((Matches.star_cons_iff hany).mp hm).imp id fun h => ⟨q, d :: t, rfl, h⟩
  · rintro (hm | ⟨_, _, ⟨⟩, hm⟩)
    · exact ⟨q, c :: t, rfl, .run [] hm⟩
    · refine ⟨q, c :: t, rfl, ?_⟩
      rw [List.tail_cons, ← List.take_append_drop 1 t, List.drop_one]
      exact Matches.star_append hany _ hm

omit [DecidableEq α] hany in
/-- Before the end of the subject the matcher has a run to extend, or no `star`. -/
theorem not_retry_of_stuck {back : Option (List α × List α)} {p s : List α} {c : α}
    (htr : Tracks star back p (c :: s))
    (hback : ∀ (q : List α) (d : α) (t : List α), back = some (q, d :: t) → False) :
    ¬ Retry star any back := by
  rintro ⟨q, t, rfl, _⟩
  obtain ⟨r, u, _, _, rfl, _⟩ := htr q t rfl
  cases u with
  | nil => exact hback q c s rfl
  | cons d u => exact hback q d (u ++ c :: s) rfl

/-- The matcher finds a match from its position on, or by a longer run for the
last `star`. -/
theorem globLoop_iff {back : Option (List α × List α)} {p s : List α}
    (htr : Tracks star back p s) :
    globLoop star any back p s = true ↔ Matches star any p s ∨ Retry star any back := by
  fun_induction globLoop star any back p s with
  | case1 back p =>
    rw [or_iff_left_of_imp (matches_of_retry_nil hany htr), Matches.iff_of_nil hany]
    simp [List.dropWhile_eq_nil_iff]
  | case2 back c s' p' ih =>
    rw [ih (tracks_some p' (c :: s')), or_iff_left_of_imp (matches_of_retry_star hany htr),
      Matches.star_cons_iff hany]
    exact or_congr_right ⟨fun ⟨_, _, h, hm⟩ => by cases h; exact hm, fun hm => ⟨_, _, rfl, hm⟩⟩
  | case3 back c s' x p' hx hm ih =>
    rw [ih (htr.step hx), Matches.cons_iff hx]
    exact or_congr_left ⟨fun h => ⟨c, s', rfl, hm, h⟩, fun ⟨_, _, hs, _, h⟩ => by cases hs; exact h⟩
  | case4 c s' x p' hx hm q d t ih =>
    rw [ih (tracks_some q t), or_iff_right (Matches.not_cons_cons hx hm), retry_some_cons hany]
  | case5 back c s' x p' hx hm hback =>
    simp [Matches.not_cons_cons hx hm, not_retry_of_stuck htr hback]
  | case6 c s' q d t ih =>
    rw [ih (tracks_some q t), Matches.nil_iff, or_iff_right (List.cons_ne_nil c s'),
      retry_some_cons hany]
  | case7 back c s' hback =>
    simp [Matches.nil_iff, not_retry_of_stuck htr hback]

/-- The matcher decides the meaning of the pattern. -/
theorem globLoop_none {p s : List α} :
    globLoop star any none p s = true ↔ Matches star any p s := by
  rw [globLoop_iff hany (tracks_none p s)]
  exact or_iff_left fun ⟨_, _, h, _⟩ => by cases h

end Loop

end Rdq.Foundation
