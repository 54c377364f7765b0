import Mathlib.Tactic.Common

/-!
# Walking through the pages of a list

A client reads a collection that does not change page by page, and passes each returned
cursor to the next call until it gets the empty one. When the calls return the rows that
are left in pages of one size, the client lists all rows, and reaches the end exactly if
every row can be delivered.
-/

namespace Rdq.Foundation.PageWalk

variable {α β ε : Type*}

/-- What a client lists from a cursor on to the end. -/
inductive Listing (call : String → Except ε (List β × String)) : String → List β → Prop
  | last {cursor : String} {page : List β} (h : call cursor = .ok (page, "")) :
      Listing call cursor page
  | more {cursor next : String} {page rest : List β} (h : call cursor = .ok (page, next))
      (hnext : next ≠ "") (hrest : Listing call next rest) : Listing call cursor (page ++ rest)

/-- The calls return the rows that are left at a cursor in pages of `size`. A page with a
row that cannot be delivered fails. -/
structure Serves (call : String → Except ε (List β × String)) (size : Nat)
    (left : String → List α → Prop) (deliverable : α → Prop) (out : α → β) : Prop where
  delivered : ∀ {cursor rows}, left cursor rows → (∀ a ∈ rows.take size, deliverable a) →
    ∃ next, call cursor = .ok ((rows.take size).map out, next) ∧
      (next = "" ↔ rows.length ≤ size) ∧ (size < rows.length → left next (rows.drop size))
  refused : ∀ {cursor rows}, left cursor rows → (¬∀ a ∈ rows.take size, deliverable a) →
    ∀ page, call cursor ≠ .ok page

variable {call : String → Except ε (List β × String)} {size : Nat} {left : String → List α → Prop}
  {deliverable : α → Prop} {out : α → β} {cursor : String} {rows : List α} {listed : List β}

/-- Whatever a client lists is all that was left. -/
theorem Listing.eq_map (h : Listing call cursor listed)
    (hserves : Serves call size left deliverable out) (hleft : left cursor rows) :
    listed = rows.map out ∧ ∀ a ∈ rows, deliverable a := by
  induction h generalizing rows with
  | last hcall =>
    by_cases hgood : ∀ a ∈ rows.take size, deliverable a
    · obtain ⟨next, hpage, hlast, -⟩ := hserves.delivered hleft hgood
      cases hcall.symm.trans hpage
      rw [List.take_of_length_le (hlast.mp rfl)] at hgood ⊢
      exact ⟨rfl, hgood⟩
    · exact absurd hcall (hserves.refused hleft hgood _)
  | more hcall hnext _ ih =>
    by_cases hgood : ∀ a ∈ rows.take size, deliverable a
    · obtain ⟨next, hpage, hlast, hmore⟩ := hserves.delivered hleft hgood
      cases hcall.symm.trans hpage
      have hlong : size < rows.length := by
        by_contra hshort
        exact hnext (hlast.mpr (Nat.le_of_not_lt hshort))
      obtain ⟨hrest, hdrop⟩ := ih (hmore hlong)
      constructor
      · rw [hrest, ← List.map_append, List.take_append_drop]
      · intro a ha
        rw [← List.take_append_drop size rows] at ha
        rcases List.mem_append.mp ha with ha | ha
        · exact hgood a ha
        · exact hdrop a ha
    · exact absurd hcall (hserves.refused hleft hgood _)

/-- A client reaches the end when everything can be delivered. -/
theorem listing_of_deliverable (hsize : 0 < size)
    (hserves : Serves call size left deliverable out) (hleft : left cursor rows)
    (h : ∀ a ∈ rows, deliverable a) : Listing call cursor (rows.map out) := by
  -- every page takes at least one row from what is left
  induction hlen : rows.length using Nat.strongRecOn generalizing cursor rows with
  | ind n ih =>
    obtain ⟨next, hpage, hlast, hmore⟩ :=
      hserves.delivered hleft fun a ha => h a (List.mem_of_mem_take ha)
    by_cases hshort : rows.length ≤ size
    · rw [hlast.mpr hshort, List.take_of_length_le hshort] at hpage
      exact Listing.last hpage
    · have hdrop : (rows.drop size).length < n := by
        rw [List.length_drop]
        omega
      have hrest := ih _ hdrop (hmore (Nat.lt_of_not_le hshort))
        (fun a ha => h a (List.mem_of_mem_drop ha)) rfl
      have hlisting := Listing.more hpage (fun hnil => hshort (hlast.mp hnil)) hrest
      rwa [← List.map_append, List.take_append_drop] at hlisting

theorem listing_iff (hsize : 0 < size) (hserves : Serves call size left deliverable out)
    (hleft : left cursor rows) :
    Listing call cursor listed ↔ listed = rows.map out ∧ ∀ a ∈ rows, deliverable a := by
  constructor
  · intro h
    exact h.eq_map hserves hleft
  · rintro ⟨rfl, h⟩
    exact listing_of_deliverable hsize hserves hleft h

end Rdq.Foundation.PageWalk
