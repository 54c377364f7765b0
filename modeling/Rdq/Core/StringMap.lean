import Mathlib.Data.List.Basic
import Rdq.Core.Envelope

/-!
# Maps with string keys

Assignment to a key, selection by key and conversion of the values. A map is its
entries in key order, so a map filled with entries that already stand in that
order is those entries.
-/

namespace Rdq.StringMap

variable {α β : Type}

theorem ext_entries {m n : StringMap α} (h : m.entries = n.entries) : m = n := by
  cases m
  cases n
  cases h
  rfl

/-- The entries before and after a key, with a new one between them. -/
def splice (key : String) (v : α) (entries : List (String × α)) : List (String × α) :=
  entries.filter (fun entry => entry.1 < key) ++
    (key, v) :: entries.filter fun entry => key < entry.1

variable {entries : List (String × α)} {m : StringMap α}

theorem sorted_splice (key : String) (v : α) (h : entries.Pairwise fun a b => a.1 < b.1) :
    (splice key v entries).Pairwise fun a b => a.1 < b.1 := by
  refine List.pairwise_append.mpr ⟨h.filter _, List.pairwise_cons.mpr ⟨?_, h.filter _⟩, ?_⟩
  · intro b hb
    simpa using (List.mem_filter.mp hb).2
  · intro a ha b hb
    have hkey : a.1 < key := by simpa using (List.mem_filter.mp ha).2
    rcases List.mem_cons.mp hb with rfl | hb
    · exact hkey
    · exact lt_trans hkey (by simpa using (List.mem_filter.mp hb).2)

/-- Assignment `m[key] = v`. -/
def insert (key : String) (v : α) (m : StringMap α) : StringMap α :=
  ⟨splice key v m.entries, sorted_splice key v m.sorted⟩

/-- Assignment of entries one after another. -/
def insertAll (entries : List (String × α)) (m : StringMap α) : StringMap α :=
  entries.foldl (fun m entry => m.insert entry.1 entry.2) m

def isEmpty (m : StringMap α) : Bool := m.entries.isEmpty

/-- The entries whose keys are selected. -/
def select (p : String → Bool) (m : StringMap α) : StringMap α :=
  ⟨m.entries.filter fun entry => p entry.1, m.sorted.filter _⟩

/-- The map with every value converted. -/
def mapValues (f : α → β) (m : StringMap α) : StringMap β :=
  ⟨m.entries.map fun entry => (entry.1, f entry.2), List.pairwise_map.mpr m.sorted⟩

@[simp] theorem entries_empty : (empty : StringMap α).entries = [] := rfl

theorem isEmpty_iff : m.isEmpty = true ↔ m = empty := by
  rw [isEmpty, List.isEmpty_iff]
  exact ⟨fun h => ext_entries h, fun h => congrArg entries h⟩

@[simp] theorem entries_select (p : String → Bool) (m : StringMap α) :
    (m.select p).entries = m.entries.filter fun entry => p entry.1 := rfl

@[simp] theorem entries_mapValues (f : α → β) (m : StringMap α) :
    (m.mapValues f).entries = m.entries.map fun entry => (entry.1, f entry.2) := rfl

@[simp] theorem insertAll_nil (m : StringMap α) : m.insertAll [] = m := rfl

@[simp] theorem insertAll_cons (entry : String × α) (entries : List (String × α))
    (m : StringMap α) :
    m.insertAll (entry :: entries) = (m.insert entry.1 entry.2).insertAll entries := rfl

/-- A key past every other is added at the end. -/
theorem entries_insert_of_lt {key : String} (v : α) (h : ∀ entry ∈ m.entries, entry.1 < key) :
    (m.insert key v).entries = m.entries ++ [(key, v)] := by
  have hbefore : (m.entries.filter fun entry => entry.1 < key) = m.entries :=
    List.filter_eq_self.mpr fun entry he => by simpa using h entry he
  have hafter : (m.entries.filter fun entry => key < entry.1) = [] :=
    List.filter_eq_nil_iff.mpr fun entry he => by
      simpa only [decide_eq_true_eq] using not_lt_of_gt (h entry he)
  simp only [insert, splice, hbefore, hafter]

/-- Entries in key order past every other are added at the end. -/
theorem entries_insertAll_of_sorted (h : (m.entries ++ entries).Pairwise fun a b => a.1 < b.1) :
    (m.insertAll entries).entries = m.entries ++ entries := by
  induction entries generalizing m with
  | nil => simp
  | cons entry entries ih =>
    have hlast : (m.insert entry.1 entry.2).entries = m.entries ++ [entry] :=
      entries_insert_of_lt entry.2 fun e he =>
        (List.pairwise_append.mp h).2.2 e he entry List.mem_cons_self
    rw [insertAll_cons, ih (by simpa [hlast] using h), hlast, List.append_assoc,
      List.singleton_append]

/-- A map filled with the entries of another in their order is that map. -/
@[simp] theorem insertAll_entries (m : StringMap α) : empty.insertAll m.entries = m :=
  ext_entries (entries_insertAll_of_sorted m.sorted)

/-- The entries before and after a key that is missing are all the entries. -/
theorem filter_lt_append_filter_gt {key : String} (h : entries.Pairwise fun a b => a.1 < b.1)
    (hkey : ∀ entry ∈ entries, entry.1 ≠ key) :
    (entries.filter fun entry => entry.1 < key) ++ (entries.filter fun entry => key < entry.1) =
      entries := by
  induction entries with
  | nil => rfl
  | cons entry entries ih =>
    obtain ⟨hfirst, hrest⟩ := List.pairwise_cons.mp h
    obtain ⟨hne, hkeys⟩ := List.forall_mem_cons.mp hkey
    rcases lt_or_gt_of_ne hne with hlt | hgt
    · simp only [List.filter_cons, decide_eq_true hlt, decide_eq_false (not_lt_of_gt hlt),
        if_true, Bool.false_eq_true, if_false, List.cons_append, ih hrest hkeys]
    · have hall : ∀ e ∈ entry :: entries, key < e.1 :=
        List.forall_mem_cons.mpr ⟨hgt, fun e he => lt_trans hgt (hfirst e he)⟩
      have hnone : ((entry :: entries).filter fun e => e.1 < key) = [] :=
        List.filter_eq_nil_iff.mpr fun e he => by
          simpa only [decide_eq_true_eq] using not_lt_of_gt (hall e he)
      have hkept : ((entry :: entries).filter fun e => key < e.1) = entry :: entries :=
        List.filter_eq_self.mpr fun e he => decide_eq_true (hall e he)
      rw [hnone, hkept, List.nil_append]

/-- Selection after an assignment: the assignment is kept when its key is selected. -/
theorem select_insert (p : String → Bool) (key : String) (v : α) (m : StringMap α) :
    (m.insert key v).select p = if p key then (m.select p).insert key v else m.select p := by
  apply ext_entries
  split
  · rename_i hp
    simp only [insert, splice, entries_select, List.filter_append, List.filter_cons, hp, if_true,
      List.filter_filter, Bool.and_comm]
  · rename_i hp
    have hmissing : ∀ entry ∈ (m.select p).entries, entry.1 ≠ key := by
      rintro entry he rfl
      exact hp (List.mem_filter.mp he).2
    calc ((m.insert key v).select p).entries
        = ((m.select p).entries.filter fun entry => entry.1 < key) ++
            ((m.select p).entries.filter fun entry => key < entry.1) := by
          simp only [insert, splice, entries_select, List.filter_append, List.filter_cons, hp,
            List.filter_filter, Bool.and_comm, Bool.false_eq_true, if_false]
      _ = (m.select p).entries := filter_lt_append_filter_gt (m.select p).sorted hmissing

/-- What is selected from a map filled with entries is filled with the selected ones. -/
theorem select_insertAll (p : String → Bool) (entries : List (String × α)) (m : StringMap α) :
    (m.insertAll entries).select p =
      (m.select p).insertAll (entries.filter fun entry => p entry.1) := by
  induction entries generalizing m with
  | nil => rfl
  | cons entry entries ih =>
    rw [insertAll_cons, ih, select_insert, List.filter_cons]
    split
    · rw [insertAll_cons]
    · rfl

@[simp] theorem mapValues_id (m : StringMap α) : m.mapValues id = m :=
  ext_entries (List.map_id m.entries)

/-- Every entry of a filled map was there before or was assigned. -/
theorem mem_insertAll {x : String × α} (h : x ∈ (m.insertAll entries).entries) :
    x ∈ m.entries ∨ x ∈ entries := by
  induction entries generalizing m with
  | nil => exact Or.inl h
  | cons entry entries ih =>
    rcases ih h with h | h
    · rcases List.mem_append.mp h with h | h
      · exact Or.inl (List.mem_filter.mp h).1
      · rcases List.mem_cons.mp h with rfl | h
        · exact Or.inr List.mem_cons_self
        · exact Or.inl (List.mem_filter.mp h).1
    · exact Or.inr (List.mem_cons_of_mem _ h)

end Rdq.StringMap
