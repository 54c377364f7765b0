import Mathlib

/-!
# Transactions that hold the rows they rest on

A state is read row by row. An open transaction holds some rows: whether it is
ready to commit depends on these rows alone, and its commit changes no other row.
As long as no two open transactions hold a row in common, a commit leaves every
other transaction as ready as it was. The open transactions can then be taken one
by one, each on the state its predecessors leave.
-/

namespace Rdq.Foundation

/-- A kind of transaction `τ` on states `σ` whose rows have keys `κ` and values `ν`. -/
structure RowLocking (σ κ ν τ : Type*) where
  view : σ → κ → ν
  held : τ → Set κ
  Ready : σ → τ → Prop
  commit : τ → σ → σ
  ready_congr : ∀ {s s' t}, (∀ k ∈ held t, view s' k = view s k) → Ready s t → Ready s' t
  commit_frame : ∀ {s t k}, Ready s t → k ∉ held t → view (commit t s) k = view s k

namespace RowLocking
variable {σ κ ν τ ι : Type*} (L : RowLocking σ κ ν τ)

/-- A commit leaves a transaction ready that holds other rows. -/
theorem ready_commit {s : σ} {t u : τ} (ht : L.Ready s t) (hu : L.Ready s u)
    (h : Disjoint (L.held t) (L.held u)) : L.Ready (L.commit t s) u := by
  refine L.ready_congr ?_ hu
  intro k hk
  exact L.commit_frame ht fun hk' => Set.disjoint_left.mp h hk' hk

/-- Every open transaction is ready, and no row is held twice. -/
structure Held (s : σ) (txs : ι → Option τ) : Prop where
  ready : ∀ {i t}, txs i = some t → L.Ready s t
  apart : ∀ {i j t u}, i ≠ j → txs i = some t → txs j = some u →
    Disjoint (L.held t) (L.held u)

namespace Held
variable {L} {s : σ} {txs : ι → Option τ}

/-- A transaction ends without a commit. -/
theorem release (h : L.Held s txs) {txs' : ι → Option τ}
    (hsub : ∀ i t, txs' i = some t → txs i = some t) : L.Held s txs' where
  ready := fun ht => h.ready (hsub _ _ ht)
  apart := fun hij ht hu => h.apart hij (hsub _ _ ht) (hsub _ _ hu)

/-- Something else changes the state, but no row that is held. -/
theorem congr (h : L.Held s txs) {s' : σ}
    (hsame : ∀ i t, txs i = some t → ∀ k ∈ L.held t, L.view s' k = L.view s k) :
    L.Held s' txs where
  ready := fun ht => L.ready_congr (hsame _ _ ht) (h.ready ht)
  apart := h.apart

variable [DecidableEq ι]

/-- A transaction takes rows that no other holds, or goes on with rows it holds. -/
theorem take (h : L.Held s txs) (i : ι) {t : τ} (ht : L.Ready s t)
    (hfree : ∀ j u, j ≠ i → txs j = some u → Disjoint (L.held t) (L.held u)) :
    L.Held s (Function.update txs i (some t)) where
  ready := by
    intro j u hu
    by_cases hj : j = i
    · subst hj
      rw [Function.update_self] at hu
      cases hu
      exact ht
    · rw [Function.update_of_ne hj] at hu
      exact h.ready hu
  apart := by
    intro j k u v hjk hu hv
    by_cases hj : j = i
    · subst hj
      rw [Function.update_self] at hu
      rw [Function.update_of_ne (Ne.symm hjk)] at hv
      cases hu
      exact hfree k v (Ne.symm hjk) hv
    · rw [Function.update_of_ne hj] at hu
      by_cases hk : k = i
      · subst hk
        rw [Function.update_self] at hv
        cases hv
        exact (hfree j u hj hu).symm
      · rw [Function.update_of_ne hk] at hv
        exact h.apart hjk hu hv

/-- A transaction commits. -/
theorem commit (h : L.Held s txs) {i : ι} {t : τ} (hi : txs i = some t) :
    L.Held (L.commit t s) (Function.update txs i none) where
  ready := by
    intro j u hu
    by_cases hj : j = i
    · subst hj
      rw [Function.update_self] at hu
      cases hu
    · rw [Function.update_of_ne hj] at hu
      exact L.ready_commit (h.ready hi) (h.ready hu) (h.apart (Ne.symm hj) hi hu)
  apart := by
    intro j k u v hjk hu hv
    by_cases hj : j = i
    · subst hj
      rw [Function.update_self] at hu
      cases hu
    · by_cases hk : k = i
      · subst hk
        rw [Function.update_self] at hv
        cases hv
      · rw [Function.update_of_ne hj] at hu
        rw [Function.update_of_ne hk] at hv
        exact h.apart hjk hu hv

end Held

end RowLocking

end Rdq.Foundation
