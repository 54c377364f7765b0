import Mathlib.Logic.Function.Iterate
import Mathlib.Data.List.Nodup
import Mathlib.Data.List.Perm.Basic
import Mathlib.Tactic.Common

/-!
# Tables with a primary key

A table is a finite list of rows whose keys are pairwise distinct. The key is
read off the row, so no row can be stored under a key that is not its own.
Updates keep every key, inserts never replace a row, and deletions select rows
by a predicate. Every operation is described by what it does to `find?`; the
order of the rows is not part of any of these descriptions.
-/

namespace Rdq.Foundation

variable {α κ : Type*} {key : α → κ}

/-- Rows with pairwise distinct keys. -/
structure KeyedTable {α κ : Type*} (key : α → κ) where
  rows : List α
  keys_nodup : (rows.map key).Nodup

namespace KeyedTable

@[ext] theorem ext {t u : KeyedTable key} (h : t.rows = u.rows) : t = u := by
  cases t
  cases u
  cases h
  rfl

instance [DecidableEq α] : DecidableEq (KeyedTable key) := fun _ _ =>
  decidable_of_iff _ ⟨KeyedTable.ext, congrArg KeyedTable.rows⟩

/-- The table without rows. -/
def empty : KeyedTable key := ⟨[], by simp⟩

theorem eq_of_key_eq (t : KeyedTable key) {a b : α} (ha : a ∈ t.rows) (hb : b ∈ t.rows)
    (h : key a = key b) : a = b :=
  List.inj_on_of_nodup_map t.keys_nodup ha hb h

variable [DecidableEq κ]

variable {t : KeyedTable key} {a : α} {k : κ}

/-- The row stored under a key. -/
def find? (t : KeyedTable key) (k : κ) : Option α :=
  t.rows.find? fun a => decide (key a = k)

theorem find?_eq_some_iff :
    t.find? k = some a ↔ a ∈ t.rows ∧ key a = k := by
  constructor
  · intro h
    exact ⟨List.mem_of_find?_eq_some h, by simpa using List.find?_some h⟩
  · rintro ⟨ha, rfl⟩
    cases h : t.find? (key a) with
    | none =>
      have hn := List.find?_eq_none.mp h a ha
      simp at hn
    | some b =>
      have hb : b ∈ t.rows := List.mem_of_find?_eq_some h
      have hk : key b = key a := by simpa using List.find?_some h
      rw [t.eq_of_key_eq hb ha hk]

theorem find?_eq_none_iff :
    t.find? k = none ↔ ∀ a ∈ t.rows, key a ≠ k := by
  simp [find?, List.find?_eq_none]

theorem key_of_find? (h : t.find? k = some a) :
    key a = k :=
  (find?_eq_some_iff.mp h).2

theorem mem_of_find? (h : t.find? k = some a) :
    a ∈ t.rows :=
  (find?_eq_some_iff.mp h).1

theorem find?_key_of_mem (h : a ∈ t.rows) :
    t.find? (key a) = some a :=
  find?_eq_some_iff.mpr ⟨h, rfl⟩

@[simp] theorem find?_empty (k : κ) : (empty : KeyedTable key).find? k = none := rfl

/-- Two lookups are equal as soon as they answer the same rows. -/
theorem find?_ext {t u : KeyedTable key} (h : ∀ a, t.find? k = some a ↔ u.find? k = some a) :
    t.find? k = u.find? k := by
  cases ht : t.find? k with
  | some a => exact ((h a).mp ht).symm
  | none =>
    cases hu : u.find? k with
    | none => rfl
    | some b =>
      have hb := (h b).mpr hu
      rw [ht] at hb
      cases hb

/-- Add a row, unless its key is already taken. -/
def insertNew (t : KeyedTable key) (a : α) : KeyedTable key :=
  if h : t.find? (key a) = none then
    ⟨t.rows ++ [a], by
      rw [List.map_append, List.nodup_append]
      refine ⟨t.keys_nodup, by simp, ?_⟩
      intro k hk k' hk' heq
      obtain ⟨b, hb, rfl⟩ := List.mem_map.mp hk
      simp only [List.map_cons, List.map_nil, List.mem_singleton] at hk'
      exact find?_eq_none_iff.mp h b hb (heq.trans hk')⟩
  else t

theorem find?_insertNew_self (h : t.find? (key a) = none) :
    (t.insertNew a).find? (key a) = some a := by
  apply find?_eq_some_iff.mpr
  simp [insertNew, h]

theorem find?_insertNew_of_ne (t : KeyedTable key) (h : key a ≠ k) :
    (t.insertNew a).find? k = t.find? k := by
  apply find?_ext
  intro b
  rw [find?_eq_some_iff, find?_eq_some_iff]
  unfold insertNew
  split
  · simp only [List.mem_append, List.mem_singleton]
    constructor
    · rintro ⟨hb | rfl, hk⟩
      · exact ⟨hb, hk⟩
      · exact absurd hk h
    · rintro ⟨hb, hk⟩
      exact ⟨Or.inl hb, hk⟩
  · rfl

theorem rows_insertNew (h : t.find? (key a) = none) :
    (t.insertNew a).rows = t.rows ++ [a] := by
  simp [insertNew, h]

/-- Keys that none of the added rows has keep their row. -/
theorem find?_foldl_insertNew_of_not_mem (t : KeyedTable key) (as : List α) (h : k ∉ as.map key) :
    (as.foldl insertNew t).find? k = t.find? k := by
  induction as generalizing t with
  | nil => rfl
  | cons a as ih =>
    simp only [List.map_cons, List.mem_cons, not_or] at h
    rw [List.foldl_cons, ih _ h.2, find?_insertNew_of_ne t (Ne.symm h.1)]

/-- Every row that is added under a free key is found there. -/
theorem find?_foldl_insertNew_of_mem (t : KeyedTable key) (as : List α) (hnd : (as.map key).Nodup)
    (hfree : ∀ a ∈ as, t.find? (key a) = none) (ha : a ∈ as) :
    (as.foldl insertNew t).find? (key a) = some a := by
  induction as generalizing t with
  | nil => cases ha
  | cons b as ih =>
    simp only [List.map_cons, List.nodup_cons] at hnd
    rw [List.foldl_cons]
    rcases List.mem_cons.mp ha with rfl | ha
    · rw [find?_foldl_insertNew_of_not_mem _ as hnd.1, find?_insertNew_self (hfree a (by simp))]
    · refine ih (t.insertNew b) hnd.2 ?_ ha
      intro a' ha'
      have hne : key b ≠ key a' := fun he => hnd.1 (he ▸ List.mem_map_of_mem ha')
      rw [find?_insertNew_of_ne t hne]
      exact hfree a' (List.mem_cons_of_mem b ha')

/-- Rewrite the rows that satisfy a predicate by a map that keeps the key. -/
def updateWhere (t : KeyedTable key) (p : α → Bool) (f : α → α)
    (hf : ∀ a, key (f a) = key a) : KeyedTable key :=
  ⟨t.rows.map fun a => if p a then f a else a, by
    have hkeys : (t.rows.map fun a => if p a then f a else a).map key = t.rows.map key := by
      rw [List.map_map]
      apply List.map_congr_left
      intro a _
      simp only [Function.comp_apply]
      split
      · exact hf a
      · rfl
    rw [hkeys]
    exact t.keys_nodup⟩

theorem find?_updateWhere (t : KeyedTable key) (p : α → Bool) (f : α → α)
    (hf : ∀ a, key (f a) = key a) (k : κ) :
    (t.updateWhere p f hf).find? k = (t.find? k).map fun a => if p a then f a else a := by
  have hkey : ∀ a, key (if p a then f a else a) = key a := by
    intro a
    split
    · exact hf a
    · rfl
  unfold find? updateWhere
  rw [List.find?_map]
  congr 2
  funext a
  simp [hkey]

/-- Rewrite the row under one key. -/
def modify (t : KeyedTable key) (k : κ) (f : α → α) (hf : ∀ a, key (f a) = key a) :
    KeyedTable key :=
  t.updateWhere (fun a => decide (key a = k)) f hf

@[simp] theorem find?_modify_self (t : KeyedTable key) (k : κ) (f : α → α)
    (hf : ∀ a, key (f a) = key a) : (t.modify k f hf).find? k = (t.find? k).map f := by
  rw [modify, find?_updateWhere]
  cases h : t.find? k with
  | none => rfl
  | some a => simp [key_of_find? h]

theorem find?_modify_of_ne (t : KeyedTable key) {k k' : κ} (f : α → α)
    (hf : ∀ a, key (f a) = key a) (h : k' ≠ k) : (t.modify k f hf).find? k' = t.find? k' := by
  rw [modify, find?_updateWhere]
  cases hk : t.find? k' with
  | none => rfl
  | some a =>
    have hne : key a ≠ k := by
      rw [key_of_find? hk]
      exact h
    simp [hne]

/-- Drop the rows that satisfy a predicate. -/
def deleteWhere (t : KeyedTable key) (p : α → Bool) : KeyedTable key :=
  ⟨t.rows.filter fun a => !p a, (List.filter_sublist.map key).nodup t.keys_nodup⟩

theorem find?_deleteWhere (t : KeyedTable key) (p : α → Bool) (k : κ) :
    (t.deleteWhere p).find? k = (t.find? k).filter fun a => !p a := by
  apply Option.ext
  intro a
  rw [Option.filter_eq_some_iff, find?_eq_some_iff, find?_eq_some_iff]
  simp only [deleteWhere, List.mem_filter]
  tauto

theorem find?_deleteWhere_of_mem {p : α → Bool} (h : a ∈ t.rows.filter p) :
    (t.deleteWhere p).find? (key a) = none := by
  obtain ⟨hmem, hp⟩ := List.mem_filter.mp h
  rw [find?_deleteWhere, find?_key_of_mem hmem]
  simp [hp]

theorem find?_deleteWhere_of_not_mem {p : α → Bool} (h : k ∉ (t.rows.filter p).map key) :
    (t.deleteWhere p).find? k = t.find? k := by
  rw [find?_deleteWhere]
  cases hf : t.find? k with
  | none => rfl
  | some a =>
    have hp : ¬ p a = true := by
      intro hp
      rw [← key_of_find? hf] at h
      exact h (List.mem_map_of_mem (List.mem_filter.mpr ⟨mem_of_find? hf, hp⟩))
    simp [hp]

omit [DecidableEq κ] in
/-- Two predicates leave the same rows exactly if they agree on the rows of the table. -/
theorem deleteWhere_eq_iff {p q : α → Bool} :
    t.deleteWhere p = t.deleteWhere q ↔ ∀ a ∈ t.rows, p a = q a := by
  constructor
  · intro h a ha
    have hrows : (t.rows.filter fun b => !p b) = t.rows.filter fun b => !q b :=
      congrArg KeyedTable.rows h
    have hmem : (a ∈ t.rows.filter fun b => !p b) ↔ a ∈ t.rows.filter fun b => !q b := by
      rw [hrows]
    simp only [List.mem_filter, ha, true_and, Bool.not_eq_true'] at hmem
    exact Bool.eq_iff_iff.mpr (not_iff_not.mp (by simpa using hmem))
  · intro h
    have hrows : (t.rows.filter fun b => !p b) = t.rows.filter fun b => !q b := by
      apply List.filter_congr
      intro a ha
      rw [h a ha]
    simp only [deleteWhere, hrows]

/-- Drop the row under one key. -/
def erase (t : KeyedTable key) (k : κ) : KeyedTable key :=
  t.deleteWhere fun a => decide (key a = k)

@[simp] theorem find?_erase_self (t : KeyedTable key) (k : κ) : (t.erase k).find? k = none := by
  rw [erase, find?_deleteWhere]
  cases h : t.find? k with
  | none => rfl
  | some a => simp [key_of_find? h]

theorem find?_erase_of_ne (t : KeyedTable key) {k k' : κ} (h : k' ≠ k) :
    (t.erase k).find? k' = t.find? k' := by
  rw [erase, find?_deleteWhere]
  cases hk : t.find? k' with
  | none => rfl
  | some a =>
    have hne : key a ≠ k := by
      rw [key_of_find? hk]
      exact h
    simp [hne]

/-! ### Folds over a list of keys -/

theorem rows_foldl_modify (t : KeyedTable key) (ks : List κ) (f : α → α)
    (hf : ∀ a, key (f a) = key a) :
    (ks.foldl (fun t k => t.modify k f hf) t).rows =
      t.rows.map fun a => f^[ks.count (key a)] a := by
  induction ks generalizing t with
  | nil => simp
  | cons k ks ih =>
    rw [List.foldl_cons, ih, modify, updateWhere, List.map_map]
    apply List.map_congr_left
    intro a _
    by_cases h : key a = k
    · simp only [Function.comp_apply, h, decide_true, if_true, hf, List.count_cons_self,
        Function.iterate_succ_apply]
    · simp only [Function.comp_apply, h, decide_false, Bool.false_eq_true, if_false,
        List.count_cons_of_ne (Ne.symm h)]

theorem rows_foldl_erase (t : KeyedTable key) (ks : List κ) :
    (ks.foldl erase t).rows = t.rows.filter fun a => decide (key a ∉ ks) := by
  induction ks generalizing t with
  | nil => simp
  | cons k ks ih =>
    rw [List.foldl_cons, ih, erase, deleteWhere, List.filter_filter]
    apply List.filter_congr
    intro a _
    by_cases h : key a = k <;> simp [h]

/-- The order in which rows are rewritten does not matter. -/
theorem foldl_modify_perm (t : KeyedTable key) {ks ks' : List κ} (h : ks.Perm ks') (f : α → α)
    (hf : ∀ a, key (f a) = key a) :
    ks.foldl (fun t k => t.modify k f hf) t = ks'.foldl (fun t k => t.modify k f hf) t := by
  apply ext
  rw [rows_foldl_modify, rows_foldl_modify]
  simp only [h.count_eq]

/-- The order in which rows are dropped does not matter. -/
theorem foldl_erase_perm (t : KeyedTable key) {ks ks' : List κ} (h : ks.Perm ks') :
    ks.foldl erase t = ks'.foldl erase t := by
  apply ext
  rw [rows_foldl_erase, rows_foldl_erase]
  simp only [h.mem_iff]

end KeyedTable

end Rdq.Foundation
