import Rdq.Foundation.Walk

/-!
# Cause chains of the Java engine

`errorType` and `findClassified` of `Classifier.java` and `matches` of `ClassRule.java`
follow `getCause` from an exception. Each loop stops at a null cause and at an exception
that is its own cause, and none of them knows where it has been.

## Implementation notes

Exceptions are an arbitrary type with a link to the cause. The loops run on fuel, and a
loop without an answer is still running.
-/

namespace Rdq.Engine

open Foundation Walk
open StateTransition (Reaches Reaches₁)

variable {θ : Type} [DecidableEq θ] (getCause : θ → Option θ)

/-- The step of all three loops: a cause that is null or the exception itself ends them. -/
def nextCause (t : θ) : Option θ := (getCause t).filter fun cause => cause ≠ t

/-- `Classifier.errorType`: the class name of the last exception. -/
def javaErrorType (className : θ → String) (fuel : Nat) : Option θ → Option String
  | none => some ""
  | some ex => (walk (nextCause getCause) (fun _ => false) fuel ex).map fun r => className r.1

/-- `Classifier.findClassified`: the first exception that is `Classified`. -/
def findClassified (isClassified : θ → Bool) (fuel : Nat) : Option θ → Option (Option θ)
  | none => some none
  | some ex =>
    (walk (nextCause getCause) isClassified fuel ex).map fun r => if r.2 then some r.1 else none

/-- `ClassRule.matches`, where `isInstance` tests for the type of the rule. -/
def classRuleMatches (isInstance : θ → Bool) (fuel : Nat) : Option θ → Option Bool
  | none => some false
  | some ex => (walk (nextCause getCause) isInstance fuel ex).map Prod.snd

/-- Reachable from the argument by cause links. -/
def CauseOf (ex : Option θ) (t : θ) : Prop := ∃ e ∈ ex, Reaches getCause e t

/-- The three loops end, and a rule matches exactly when an instance of its type is
reachable. -/
structure WalksEnd (className : θ → String) (isClassified : θ → Bool) (ex : Option θ) : Prop where
  errorType : ∃ fuel, javaErrorType getCause className fuel ex ≠ none
  classified : ∃ fuel, findClassified getCause isClassified fuel ex ≠ none
  rules : ∀ isInstance : θ → Bool, (∃ fuel, classRuleMatches getCause isInstance fuel ex ≠ none) ∧
    ∀ fuel b, classRuleMatches getCause isInstance fuel ex = some b →
      (b = true ↔ ∃ t, CauseOf getCause ex t ∧ isInstance t = true)

/-- A cycle of two exceptions or more is reachable. -/
def MeetsCycle (ex : Option θ) : Prop :=
  ∃ t, CauseOf getCause ex t ∧ ∃ u, getCause t = some u ∧ u ≠ t ∧ Reaches getCause u t

/-! ## Cause links and the links of the loops -/

variable {getCause} {t u : θ}

theorem nextCause_eq_some : nextCause getCause t = some u ↔ getCause t = some u ∧ u ≠ t := by
  simp [nextCause, Option.filter_eq_some_iff]

/-- An exception that is its own cause adds nothing to what is reachable. -/
theorem reaches_nextCause : Reaches (nextCause getCause) t u ↔ Reaches getCause t u := by
  constructor
  · intro h
    induction h with
    | refl => exact .refl
    | tail _ hlink ih => exact ih.tail (nextCause_eq_some.mp hlink).1
  · intro h
    induction h with
    | refl => exact .refl
    | @tail b c _ hlink ih =>
      by_cases hself : c = b
      · rw [hself]
        exact ih
      · exact ih.tail (nextCause_eq_some.mpr ⟨hlink, hself⟩)

theorem reachesCycle_iff {ex : θ} :
    ReachesCycle (nextCause getCause) ex ↔ MeetsCycle getCause (some ex) := by
  constructor
  · rintro ⟨t, ht, hcycle⟩
    obtain ⟨u, hlink, hback⟩ := Relation.TransGen.head'_iff.mp hcycle
    obtain ⟨hcause, hne⟩ := nextCause_eq_some.mp hlink
    exact ⟨t, ⟨ex, rfl, reaches_nextCause.mp ht⟩, u, hcause, hne, reaches_nextCause.mp hback⟩
  · rintro ⟨t, ⟨e, he, ht⟩, u, hcause, hne, hback⟩
    cases he
    exact ⟨t, reaches_nextCause.mpr ht, Relation.TransGen.head'
      (nextCause_eq_some.mpr ⟨hcause, hne⟩) (reaches_nextCause.mpr hback)⟩

theorem map_ne_none {α β : Type} {x : Nat → Option α} {f : α → β} :
    (∃ fuel, (x fuel).map f ≠ none) ↔ ∃ fuel, x fuel ≠ none := by
  simp only [ne_eq, Option.map_eq_none_iff]

/-- The loop for the class name ends exactly when it meets no cycle. -/
theorem javaErrorType_ends_iff [Finite θ] {className : θ → String} {ex : θ} :
    (∃ fuel, javaErrorType getCause className fuel (some ex) ≠ none) ↔
      ¬ MeetsCycle getCause (some ex) := by
  rw [← reachesCycle_iff, ← exists_last_iff]
  simp only [javaErrorType, map_ne_none]
  exact ends_iff.trans (by simp)

/-- Without a cycle every loop ends. -/
theorem ends_of_no_cycle [Finite θ] {ex : θ} (h : ¬ MeetsCycle getCause (some ex))
    (found : θ → Bool) : Ends (nextCause getCause) found ex := by
  rw [← reachesCycle_iff, ← exists_last_iff] at h
  obtain ⟨b, hb, hnone⟩ := h
  exact ends_of_reaches hb (Or.inr hnone)

/-- The cause walks end, with the right answer, exactly when no cycle of two exceptions
or more is reachable from the argument. -/
theorem cause_walks_end_iff [Finite θ] (getCause : θ → Option θ) (className : θ → String)
    (isClassified : θ → Bool) (ex : Option θ) :
    WalksEnd getCause className isClassified ex ↔ ¬ MeetsCycle getCause ex := by
  cases ex with
  | none =>
    refine iff_of_true ⟨⟨0, ?_⟩, ⟨0, ?_⟩, fun isInstance => ⟨⟨0, ?_⟩, ?_⟩⟩ ?_
    · exact Option.some_ne_none _
    · exact Option.some_ne_none _
    · exact Option.some_ne_none _
    · intro fuel b hb
      cases hb
      simp [CauseOf]
    · simp [MeetsCycle, CauseOf]
  | some ex =>
    constructor
    · intro h
      exact javaErrorType_ends_iff.mp h.errorType
    · intro h
      refine ⟨javaErrorType_ends_iff.mpr h, map_ne_none.mpr (ends_of_no_cycle h _), ?_⟩
      intro isInstance
      refine ⟨map_ne_none.mpr (ends_of_no_cycle h _), ?_⟩
      intro fuel b hb
      obtain ⟨r, hr, rfl⟩ := Option.map_eq_some_iff.mp hb
      rw [found_iff hr]
      simp only [CauseOf, Option.mem_some, exists_eq_left', reaches_nextCause]

/-- An exception with a cause that has none. -/
theorem cause_walks_end_pair :
    WalksEnd (fun t : Bool => if t then some false else none) (fun _ => "E") (fun _ => false)
      (some true) := by
  refine (cause_walks_end_iff _ _ _ _).mpr ?_
  rintro ⟨t, -, u, hcause, hne, hback⟩
  cases t with
  | false => cases hcause
  | true =>
    cases hcause
    rcases Relation.ReflTransGen.cases_head hback with h | ⟨d, hlink, -⟩
    · cases h
    · cases hlink

/-- Two exceptions that are each other's cause. -/
theorem mutual_causes_never_end :
    let getCause : Bool → Option Bool := fun t => some (!t)
    ∀ fuel, javaErrorType getCause (fun _ => "E") fuel (some true) = none ∧
      findClassified getCause (fun _ => false) fuel (some true) = none ∧
      classRuleMatches getCause (fun _ => false) fuel (some true) = none := by
  intro getCause fuel
  have hnext (t : Bool) : nextCause getCause t = some (!t) := by cases t <;> rfl
  have hwalk (t : Bool) : walk (nextCause getCause) (fun _ => false) fuel t = none := by
    induction fuel generalizing t with
    | zero => rfl
    | succ fuel ih =>
      rw [walk, if_neg Bool.false_ne_true, hnext]
      exact ih (!t)
  simp only [javaErrorType, findClassified, classRuleMatches, hwalk, Option.map_none, and_self]

end Rdq.Engine
