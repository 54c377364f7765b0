import Mathlib.Computability.StateTransition
import Mathlib.Data.Fintype.Order

/-!
# Walks along links

A loop that follows the link of each node until it finds what it looks for, or a node
without a link. It ends exactly when such a node is reachable, and on a finite type of
nodes a node without a link is reachable exactly when no cycle is.
-/

namespace Rdq.Foundation.Walk

open StateTransition (Reaches Reaches₁ reaches_total reaches₁_fwd)

variable {α : Type*} (next : α → Option α) (found : α → Bool)

/-- The loop, for at most `fuel` nodes: the node it stops at, and whether that is found. -/
def walk : Nat → α → Option (α × Bool)
  | 0, _ => none
  | fuel + 1, a =>
    if found a then some (a, true)
    else
      match next a with
      | none => some (a, false)
      | some b => walk fuel b

/-- The loop ends. -/
def Ends (a : α) : Prop := ∃ fuel, walk next found fuel a ≠ none

variable {next found} {a b : α}

/-- What the loop returns is reachable, and it is found or has no link. -/
theorem walk_eq_some {fuel : Nat} {r : α × Bool} (h : walk next found fuel a = some r) :
    Reaches next a r.1 ∧ found r.1 = r.2 ∧ (r.2 = false → next r.1 = none) := by
  induction fuel generalizing a with
  | zero => cases h
  | succ fuel ih =>
    rw [walk] at h
    split at h
    · rename_i hfound
      cases h
      refine ⟨.refl, hfound, ?_⟩
      intro hfalse
      cases hfalse
    · rename_i hfound
      cases hnext : next a with
      | none =>
        rw [hnext] at h
        cases h
        exact ⟨.refl, Bool.of_not_eq_true hfound, fun _ => hnext⟩
      | some b =>
        rw [hnext] at h
        obtain ⟨hreach, hrest⟩ := ih h
        exact ⟨.head hnext hreach, hrest⟩

/-- A loop that found nothing has seen everything reachable. -/
theorem not_found_of_walk {fuel : Nat} {c : α} (h : walk next found fuel a = some (c, false))
    (hb : Reaches next a b) : found b = false := by
  induction fuel generalizing a with
  | zero => cases h
  | succ fuel ih =>
    rw [walk] at h
    split at h
    · cases h
    · rename_i hfound
      rcases Relation.ReflTransGen.cases_head hb with rfl | ⟨d, hlink, hd⟩
      · exact Bool.of_not_eq_true hfound
      · rw [Option.mem_def.mp hlink] at h
        exact ih h hd

/-- When the loop ends, it has found something exactly when something is reachable. -/
theorem found_iff {fuel : Nat} {r : α × Bool} (h : walk next found fuel a = some r) :
    r.2 = true ↔ ∃ b, Reaches next a b ∧ found b = true := by
  constructor
  · intro hflag
    obtain ⟨hreach, hfound, -⟩ := walk_eq_some h
    exact ⟨r.1, hreach, hfound.trans hflag⟩
  · rintro ⟨b, hb, hfound⟩
    by_contra hflag
    have hr : r = (r.1, false) := Prod.ext rfl (Bool.of_not_eq_true hflag)
    rw [hr] at h
    exact Bool.false_ne_true ((not_found_of_walk h hb).symm.trans hfound)

/-- The loop ends from a node that reaches an end of it. -/
theorem ends_of_reaches (hreach : Reaches next a b) (hb : found b = true ∨ next b = none) :
    Ends next found a := by
  induction hreach using Relation.ReflTransGen.head_induction_on with
  | refl =>
    refine ⟨1, ?_⟩
    rw [walk]
    split
    · exact Option.some_ne_none _
    · rename_i hfound
      rw [hb.resolve_left hfound]
      exact Option.some_ne_none _
  | head hlink _ ih =>
    obtain ⟨fuel, hfuel⟩ := ih
    refine ⟨fuel + 1, ?_⟩
    rw [walk]
    split
    · exact Option.some_ne_none _
    · rw [Option.mem_def.mp hlink]
      exact hfuel

theorem ends_iff :
    Ends next found a ↔ ∃ b, Reaches next a b ∧ (found b = true ∨ next b = none) := by
  constructor
  · rintro ⟨fuel, hfuel⟩
    obtain ⟨r, hr⟩ := Option.ne_none_iff_exists'.mp hfuel
    obtain ⟨hreach, hfound, hlast⟩ := walk_eq_some hr
    refine ⟨r.1, hreach, ?_⟩
    cases hflag : r.2 with
    | true => exact Or.inl (hfound.trans hflag)
    | false => exact Or.inr (hlast hflag)
  · rintro ⟨b, hreach, hb⟩
    exact ends_of_reaches hreach hb

/-! ## Finitely many nodes -/

variable (next) in
/-- A node that reaches itself again is reachable. -/
def ReachesCycle (a : α) : Prop := ∃ b, Reaches next a b ∧ Reaches₁ next b b

/-- What a cycle reaches lies on a cycle. -/
theorem cycle_of_reaches (ha : Reaches₁ next a a) (hb : Reaches next a b) : Reaches₁ next b b := by
  induction hb with
  | refl => exact ha
  | tail _ hlink ih => exact Relation.TransGen.tail' (reaches₁_fwd ih hlink) hlink

/-- On finitely many nodes a walk has a last node exactly when it meets no cycle. -/
theorem exists_last_iff [Finite α] :
    (∃ b, Reaches next a b ∧ next b = none) ↔ ¬ ReachesCycle next a := by
  constructor
  · rintro ⟨b, hb, hnone⟩ ⟨c, hc, hcycle⟩
    have hstuck {d : α} (h : Reaches₁ next b d) : False := by
      obtain ⟨e, hlink, -⟩ := Relation.TransGen.head'_iff.mp h
      rw [hnone] at hlink
      cases hlink
    rcases reaches_total hb hc with hbc | hcb
    · exact hstuck (Relation.TransGen.trans_right hbc hcycle)
    · exact hstuck (cycle_of_reaches hcycle hcb)
  · intro hno
    -- a step back along a link that leaves a reachable node
    let back (x y : α) : Prop := Reaches next a y ∧ x ∈ next y
    have hpath {x y : α} (h : Relation.TransGen back x y) :
        Reaches next a y ∧ Reaches₁ next y x := by
      induction h with
      | single h => exact ⟨h.1, .single h.2⟩
      | tail _ h ih => exact ⟨h.1, .head h.2 ih.2⟩
    have : Std.Irrefl (Relation.TransGen back) := ⟨fun x hx => hno ⟨x, hpath hx⟩⟩
    have hwf : WellFounded (Relation.TransGen back) := Finite.wellFounded_of_trans_of_irrefl _
    obtain ⟨m, hm, hmin⟩ := hwf.has_min {x | Reaches next a x} ⟨a, .refl⟩
    refine ⟨m, hm, ?_⟩
    by_contra hsome
    obtain ⟨n, hn⟩ := Option.ne_none_iff_exists'.mp hsome
    exact hmin n (Relation.ReflTransGen.tail hm hn) (.single ⟨hm, hn⟩)

end Rdq.Foundation.Walk
