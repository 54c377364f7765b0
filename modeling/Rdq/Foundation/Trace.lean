import Mathlib.Data.List.Induction
import Mathlib.Tactic.Common

/-!
# Runs of a step function and their traces

A component is a function from a state and an input to the next state and an
output. Every source of choice (the caller, the clock, the scheduler) is part
of the input, so a list of inputs is one complete history and "every
interleaving" is "every list of inputs". The trace keeps, for every step, the
state before it, its input, its output and the state after it.

Invariants may speak about the trace as well as about the state. The step
obligation is then stated for the trace extended by one entry, and a side
condition may restrict each step by the state it starts from.
-/

namespace Rdq.Foundation

variable {σ ι ο : Type*}

/-- One performed step. -/
structure Entry (σ ι ο : Type*) where
  pre : σ
  input : ι
  output : ο
  post : σ

variable (step : σ → ι → σ × ο)

/-- The entry recorded when `i` is performed in state `s`. -/
def entry (s : σ) (i : ι) : Entry σ ι ο :=
  ⟨s, i, (step s i).2, (step s i).1⟩

/-- The state after a list of inputs. -/
def run (s : σ) : List ι → σ
  | [] => s
  | i :: is => run (step s i).1 is

/-- The entries of a list of inputs, oldest first. -/
def trace (s : σ) : List ι → List (Entry σ ι ο)
  | [] => []
  | i :: is => entry step s i :: trace (step s i).1 is

/-- Every step of the run satisfies a condition on its starting state and input. -/
def AllSteps (c : σ → ι → Prop) (s : σ) : List ι → Prop
  | [] => True
  | i :: is => c s i ∧ AllSteps c (step s i).1 is

instance decidableAllSteps (c : σ → ι → Prop) [∀ s i, Decidable (c s i)] :
    (s : σ) → (is : List ι) → Decidable (AllSteps step c s is)
  | _, [] => instDecidableTrue
  | s, i :: is =>
    have := decidableAllSteps c (step s i).1 is
    inferInstanceAs (Decidable (_ ∧ _))

@[simp] theorem run_nil (s : σ) : run step s [] = s := rfl

@[simp] theorem run_cons (s : σ) (i : ι) (is : List ι) :
    run step s (i :: is) = run step (step s i).1 is := rfl

@[simp] theorem trace_nil (s : σ) : trace step s [] = [] := rfl

@[simp] theorem trace_cons (s : σ) (i : ι) (is : List ι) :
    trace step s (i :: is) = entry step s i :: trace step (step s i).1 is := rfl

@[simp] theorem allSteps_nil (c : σ → ι → Prop) (s : σ) : AllSteps step c s [] := trivial

theorem run_append (s : σ) (is js : List ι) :
    run step s (is ++ js) = run step (run step s is) js := by
  induction is generalizing s with
  | nil => rfl
  | cons i is ih => exact ih (step s i).1

theorem run_concat (s : σ) (is : List ι) (i : ι) :
    run step s (is ++ [i]) = (step (run step s is) i).1 := by
  rw [run_append]
  rfl

theorem trace_append (s : σ) (is js : List ι) :
    trace step s (is ++ js) = trace step s is ++ trace step (run step s is) js := by
  induction is generalizing s with
  | nil => rfl
  | cons i is ih =>
    simp only [List.cons_append, trace_cons, run_cons, ih]

theorem trace_concat (s : σ) (is : List ι) (i : ι) :
    trace step s (is ++ [i]) = trace step s is ++ [entry step (run step s is) i] := by
  rw [trace_append]
  rfl

theorem allSteps_append (c : σ → ι → Prop) (s : σ) (is js : List ι) :
    AllSteps step c s (is ++ js) ↔
      AllSteps step c s is ∧ AllSteps step c (run step s is) js := by
  induction is generalizing s with
  | nil => simp
  | cons i is ih =>
    simp only [List.cons_append, AllSteps, ih, run_cons, and_assoc]

variable {step}

variable {s : σ} {is : List ι} {c : σ → ι → Prop}

/-- A condition on the inputs alone holds of every step. -/
theorem allSteps_of_forall {c : ι → Prop} (h : ∀ i ∈ is, c i) (s : σ) :
    AllSteps step (fun _ i => c i) s is := by
  induction is generalizing s with
  | nil => trivial
  | cons i is ih =>
    exact ⟨h i (by simp), ih (fun j hj => h j (by simp [hj])) _⟩

theorem AllSteps.mono {c d : σ → ι → Prop} (h : AllSteps step c s is) (hcd : ∀ s i, c s i → d s i) :
    AllSteps step d s is := by
  induction is generalizing s with
  | nil => trivial
  | cons i is ih => exact ⟨hcd s i h.1, ih h.2⟩

/-- An invariant holds at the start of every step. -/
theorem AllSteps.with_invariant {P : σ → Prop} (h₀ : P s)
    (hstep : ∀ s i, P s → c s i → P (step s i).1) (h : AllSteps step c s is) :
    AllSteps step (fun s i => P s ∧ c s i) s is := by
  induction is generalizing s with
  | nil => trivial
  | cons i is ih => exact ⟨⟨h₀, h.1⟩, ih (hstep s i h₀ h.1) h.2⟩

/-- An entry of a trace is what its input does to its starting state. -/
theorem entry_of_mem_trace {e : Entry σ ι ο} (he : e ∈ trace step s is) :
    e = entry step e.pre e.input := by
  induction is generalizing s with
  | nil => cases he
  | cons i is ih =>
    rcases List.mem_cons.mp he with rfl | he
    · rfl
    · exact ih he

theorem input_mem_of_mem_trace {e : Entry σ ι ο} (he : e ∈ trace step s is) : e.input ∈ is := by
  induction is generalizing s with
  | nil => cases he
  | cons i is ih =>
    rcases List.mem_cons.mp he with rfl | he
    · exact List.mem_cons_self
    · exact List.mem_cons_of_mem i (ih he)

/-- A condition on the entries of a trace is one on the steps of the run. -/
theorem allSteps_of_trace {c : Entry σ ι ο → Prop} (h : ∀ e ∈ trace step s is, c e) :
    AllSteps step (fun s i => c (entry step s i)) s is := by
  induction is generalizing s with
  | nil => trivial
  | cons i is ih =>
    exact ⟨h _ List.mem_cons_self, ih fun e he => h e (List.mem_cons_of_mem _ he)⟩

/-- A condition on starting states and inputs, read off the trace. -/
theorem allSteps_iff_trace :
    AllSteps step c s is ↔ ∀ e ∈ trace step s is, c e.pre e.input := by
  induction is generalizing s with
  | nil => simp
  | cons i is ih =>
    rw [AllSteps, ih, trace_cons, List.forall_mem_cons]
    rfl

/-- Two elements occur in this order in a list extended by `x` when they do so
in the list, or when the first occurs in the list and the second is `x`. -/
theorem pair_sublist_concat {α : Type*} {a b x : α} {l : List α} :
    List.Sublist [a, b] (l ++ [x]) ↔ List.Sublist [a, b] l ∨ a ∈ l ∧ b = x := by
  constructor
  · intro h
    obtain ⟨l₁, l₂, hl, h₁, h₂⟩ := List.sublist_append_iff.mp h
    cases h₂ with
    | cons _ hnil =>
      obtain rfl := List.sublist_nil.mp hnil
      rw [List.append_nil] at hl
      exact Or.inl (hl ▸ h₁)
    | cons_cons _ hnil =>
      obtain rfl := List.sublist_nil.mp hnil
      have hl' : [a] ++ [b] = l₁ ++ [x] := hl
      obtain ⟨rfl, hx⟩ := List.append_inj' hl' rfl
      exact Or.inr ⟨List.singleton_sublist.mp h₁, by simpa using hx⟩
  · rintro (h | ⟨ha, rfl⟩)
    · exact h.trans (List.sublist_append_left l [x])
    · exact (List.singleton_sublist.mpr ha).append (List.Sublist.refl [b])

/-- The invariant rule for a trace and its final state. -/
theorem trace_invariant {P : List (Entry σ ι ο) → σ → Prop} (h₀ : P [] s)
    (hstep : ∀ tr s i, P tr s → c s i → P (tr ++ [entry step s i]) (step s i).1)
    (hall : AllSteps step c s is) : P (trace step s is) (run step s is) := by
  induction is using List.reverseRecOn with
  | nil => exact h₀
  | append_singleton is i ih =>
    rw [allSteps_append] at hall
    rw [trace_concat, run_concat]
    exact hstep _ _ _ (ih hall.1) hall.2.1

/-- The invariant rule for the final state alone. -/
theorem run_invariant {P : σ → Prop} (h₀ : P s) (hstep : ∀ s i, P s → c s i → P (step s i).1)
    (hall : AllSteps step c s is) :
    P (run step s is) :=
  trace_invariant (P := fun _ s => P s) h₀ (fun _ s i hs hc => hstep s i hs hc) hall

end Rdq.Foundation
