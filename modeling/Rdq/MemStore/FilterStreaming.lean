import Rdq.MemStore.Paging

/-!
# Streaming a filter

When a backend cannot select by a filter itself, the server reads the ids of all pages
of `DLQList` and then redrives or purges by id (`collectByFilter` of
`server/http/dlq.go`). On the memstore this is the same as selecting by the filter: the
pages list every match once, and the order in which the records are changed does not
matter.
-/

namespace Rdq.MemStore

open Rdq.Foundation

/-! ## The ids of the loop -/

section
variable {s : Store} {queue : String} {f : DLQFilter}

/-- The rows past the last one taken are the rows not taken. -/
theorem filter_eq_drop {l : List Record} (hsorted : l.Pairwise fun a b => a.dlqSeq < b.dlqSeq)
    {n : Nat} {r : Record} (hlast : (l.take n).getLast? = some r) :
    (l.filter fun x => decide (r.dlqSeq < x.dlqSeq)) = l.drop n := by
  obtain ⟨front, hfront⟩ := List.getLast?_eq_some_iff.mp hlast
  have hsplit := List.take_append_drop n l
  rw [hfront] at hsplit
  rw [← hsplit] at hsorted
  obtain ⟨htaken, -, hpast⟩ := List.pairwise_append.mp hsorted
  have hnone : ((front ++ [r]).filter fun x => decide (r.dlqSeq < x.dlqSeq)) = [] := by
    rw [List.filter_eq_nil_iff]
    intro x hx
    rcases List.mem_append.mp hx with hx | hx
    · have := (List.pairwise_append.mp htaken).2.2 x hx r (by simp)
      simpa using this.le
    · simp [List.mem_singleton.mp hx]
  have hall : ((l.drop n).filter fun x => decide (r.dlqSeq < x.dlqSeq)) = l.drop n := by
    rw [List.filter_eq_self]
    intro x hx
    exact decide_eq_true (hpast r (by simp) x hx)
  calc (l.filter fun x => decide (r.dlqSeq < x.dlqSeq))
      = ((front ++ [r]) ++ l.drop n).filter fun x => decide (r.dlqSeq < x.dlqSeq) := by
        rw [hsplit]
    _ = l.drop n := by rw [List.filter_append, hnone, hall, List.nil_append]

/-- The records past a listed one are listed by its number. -/
theorem listed_past (hinv : LifecycleInv s) {n : Nat} {r : Record}
    (hr : r ∈ s.listed queue f n) :
    s.listed queue f r.dlqSeq =
      (s.listed queue f n).filter fun x => decide (r.dlqSeq < x.dlqSeq) := by
  have hlt := (Store.mem_listed.mp hr).2.2.2.1
  have hsorted := @listed_sorted queue f s hinv
  have hstrict : ∀ m, (s.listed queue f m).Nodup := fun m =>
    (hsorted m).imp fun hab => fun heq => by rw [heq] at hab; exact lt_irrefl _ hab
  have hperm : (s.listed queue f r.dlqSeq).Perm
      ((s.listed queue f n).filter fun x => decide (r.dlqSeq < x.dlqSeq)) := by
    refine (List.perm_ext_iff_of_nodup (hstrict _) ((hstrict n).filter _)).mpr ?_
    intro x
    rw [List.mem_filter, Store.mem_listed, Store.mem_listed, decide_eq_true_eq]
    constructor
    · rintro ⟨hrow, hqueue, hdead, hpast, hmatch⟩
      exact ⟨⟨hrow, hqueue, hdead, hlt.trans hpast, hmatch⟩, hpast⟩
    · rintro ⟨⟨hrow, hqueue, hdead, -, hmatch⟩, hpast⟩
      exact ⟨hrow, hqueue, hdead, hpast, hmatch⟩
  refine hperm.eq_of_pairwise ?_ (hsorted _) ((hsorted n).filter _)
  intro a b _ _ hab hba
  exact absurd hba (lt_asymm hab)

/-- A page without a cursor holds all that is left. -/
theorem length_listed_of_last {n : Nat} {limit : Int}
    (h : (s.dlqList queue f (some n) limit).2 = none) :
    (s.listed queue f n).length ≤ pageLimit limit := by
  by_contra hmore
  simp only [Store.dlqList, Option.getD_some] at h
  rw [if_pos (Nat.lt_of_not_le hmore), Option.map_eq_none_iff, List.getLast?_eq_none_iff,
    List.take_eq_nil_iff] at h
  rcases h with hzero | hnil
  · exact absurd hzero (pageLimit_pos limit).ne'
  · rw [hnil] at hmore
    exact hmore (Nat.zero_le _)

/-- A cursor is the number of the last record of its page. -/
theorem last_of_cursor {n k : Nat} {limit : Int}
    (h : (s.dlqList queue f (some n) limit).2 = some k) :
    ∃ r, ((s.listed queue f n).take (pageLimit limit)).getLast? = some r ∧ r.dlqSeq = k := by
  simp only [Store.dlqList, Option.getD_some] at h
  split at h
  · exact Option.map_eq_some_iff.mp h
  · cases h

/-- The pages from a cursor on list the records past it, in order and each once. -/
theorem collectPages_eq (hinv : LifecycleInv s) {rounds n : Nat} {cursor : String}
    (hc : decodeCursor cursor = .ok n) (hrounds : s.remaining n < rounds) :
    s.collectPages queue f rounds cursor =
      some (.ok ((s.listed queue f n).map Record.id)) := by
  induction rounds generalizing cursor n with
  | zero => omega
  | succ rounds ih =>
    have hids := @Store.ids_dlqList s queue f (some n) 500
    rw [Option.getD_some] at hids
    simp only [Store.collectPages, Store.dlqListPage, hc]
    cases hnext : (s.dlqList queue f (some n) 500).2 with
    | none =>
      rw [cursorText, if_pos rfl, hids, List.take_of_length_le (length_listed_of_last hnext)]
    | some k =>
      obtain ⟨r, hlast, rfl⟩ := last_of_cursor hnext
      have hr := List.mem_of_mem_take (List.mem_of_getLast? hlast)
      obtain ⟨hrow, -, -, hpast, -⟩ := Store.mem_listed.mp hr
      have hlt := Store.remaining_lt hrow hpast
      have hrest := ih (decodeCursor_encodeCursor r.dlqSeq) (by omega)
      rw [listed_past hinv hr, filter_eq_drop (listed_sorted hinv n) hlast] at hrest
      simp only [cursorText, encodeCursor_ne_empty, if_false, hrest, hids, Option.map_some,
        Except.map]
      rw [← List.map_append, List.take_append_drop]

/-! ## Selecting by id and by filter -/

/-- In a reachable store the listed records are those the filter selects. -/
theorem listed_perm_selectDead (hinv : LifecycleInv s) :
    (s.listed queue f 0).Perm (s.selectDead queue { filter := some f }) := by
  have heq : s.selectDead queue { filter := some f } =
      s.tasks.rows.filter fun r => decide (r.env.queue = queue) && decide (r.env.status = .dead) &&
        decide (0 < r.dlqSeq) && matchFilter r f := by
    simp only [Store.selectDead, ne_eq, not_true_eq_false, if_false]
    apply List.filter_congr
    intro r hr
    have hok := hinv.records r.id r (KeyedTable.find?_key_of_mem hr)
    by_cases hdead : r.env.status = .dead
    · have hpos : 0 < r.dlqSeq := Nat.pos_of_ne_zero (hok.dlqSeq_ne_zero.mpr hdead)
      simp [hdead, hpos]
    · simp [hdead]
  rw [heq]
  exact List.perm_insertionSort _ _

/-- The ids of listed records select these records. -/
theorem selectDead_listed (n : Nat) :
    s.selectDead queue { ids := (s.listed queue f n).map Record.id } = s.listed queue f n := by
  have hfind : ∀ r ∈ s.listed queue f n, (s.tasks.find? r.id).filter
      (fun r => decide (r.env.queue = queue ∧ r.env.status = .dead)) = some r := by
    intro r hr
    obtain ⟨hrow, hqueue, hdead, -⟩ := Store.mem_listed.mp hr
    rw [KeyedTable.find?_key_of_mem hrow]
    simp [hqueue, hdead]
  unfold Store.selectDead
  dsimp only
  split
  · rw [List.filterMap_map]
    calc (s.listed queue f n).filterMap _
        = (s.listed queue f n).filterMap some := List.filterMap_congr hfind
      _ = s.listed queue f n := List.filterMap_some
  · rename_i hnil
    rw [ne_eq, not_not, List.map_eq_nil_iff] at hnil
    exact hnil.symm

/-- Two selections of the same records have the same effect. -/
theorem redrive_congr {sel sel' : Selector} (now : Time)
    (h : (s.selectDead queue sel).Perm (s.selectDead queue sel')) :
    s.redrive queue sel now = s.redrive queue sel' now := by
  have htasks := s.tasks.foldl_modify_perm (h.map Record.id) (Record.redrive now)
    (Record.id_redrive now)
  rw [List.foldl_map, List.foldl_map] at htasks
  simp only [Store.redrive, htasks, h.length_eq]

theorem purge_congr {sel sel' : Selector}
    (h : (s.selectDead queue sel).Perm (s.selectDead queue sel')) :
    s.purge queue sel = s.purge queue sel' := by
  have htasks := s.tasks.foldl_erase_perm (h.map Record.id)
  rw [List.foldl_map, List.foldl_map] at htasks
  simp only [Store.purge, htasks, h.length_eq]

end

/-- In every store that Submit-shaped tasks can reach, the loop ends with the ids of the
matching dead letters, each once, and redriving or purging these ids is redriving or
purging by the filter. -/
theorem streaming_eq_filtering (past : List Op) (hpast : Shaped past) (queue : String)
    (f : DLQFilter) :
    ∃ rounds₀ ids, (∀ rounds ≥ rounds₀,
        (stateAfter past).collectPages queue f rounds "" = some (.ok ids)) ∧
      ids.Nodup ∧
      (∀ id, id ∈ ids ↔ ∃ r, (stateAfter past).tasks.find? id = some r ∧
        r.env.queue = queue ∧ r.env.status = .dead ∧ matchFilter r f = true) ∧
      (∀ now, (stateAfter past).redrive queue { ids := ids } now =
        (stateAfter past).redrive queue { filter := some f } now) ∧
      (stateAfter past).purge queue { ids := ids } =
        (stateAfter past).purge queue { filter := some f } := by
  have hinv := hpast.lifecycleInv
  have hperm := @listed_perm_selectDead (stateAfter past) queue f hinv
  have hsel : ((stateAfter past).selectDead queue
      { ids := ((stateAfter past).listed queue f 0).map Record.id }).Perm
        ((stateAfter past).selectDead queue { filter := some f }) := by
    rw [selectDead_listed]
    exact hperm
  refine ⟨(stateAfter past).remaining 0 + 1, ((stateAfter past).listed queue f 0).map Record.id,
    ?_, ?_, ?_, ?_, ?_⟩
  · intro rounds hrounds
    exact collectPages_eq hinv decodeCursor_empty hrounds
  · rw [Store.listed, ((List.perm_insertionSort _ _).map Record.id).nodup_iff]
    exact (List.filter_sublist.map Record.id).nodup (stateAfter past).tasks.keys_nodup
  · intro id
    rw [(hperm.map Record.id).mem_iff]
    constructor
    · intro hid
      obtain ⟨r, hr, rfl⟩ := List.mem_map.mp hid
      obtain ⟨hrow, hqueue, hdead, -, hmatch⟩ := Store.mem_listed.mp (hperm.mem_iff.mpr hr)
      exact ⟨r, KeyedTable.find?_key_of_mem hrow, hqueue, hdead, hmatch⟩
    · rintro ⟨r, hr, hqueue, hdead, hmatch⟩
      obtain rfl := KeyedTable.key_of_find? hr
      refine List.mem_map_of_mem ?_
      simp only [Store.selectDead, ne_eq, not_true_eq_false, if_false]
      exact List.mem_filter.mpr ⟨KeyedTable.mem_of_find? hr, by simp [hqueue, hdead, hmatch]⟩
  · intro now
    exact redrive_congr now hsel
  · exact purge_congr hsel

/-- Three dead letters, one of them of another error type. -/
def threeDeadRun : List Op :=
  twoDeadRun ++ [.deadLetter "c" (mintToken 3) (failedAttempt "Timeout") 7]

/-- The loop finds the two dead letters that match, and leaves out the third. -/
theorem streaming_threeDeadRun :
    ∃ rounds ids,
      (stateAfter threeDeadRun).collectPages "q" { errorType := "Timeout" } rounds "" =
        some (.ok ids) ∧
      "a" ∈ ids ∧ "b" ∉ ids ∧ "c" ∈ ids ∧
      ((stateAfter threeDeadRun).redrive "q" { ids := ids } 8).2 = 2 ∧
      (stateAfter threeDeadRun).purge "q" { ids := ids } =
        (stateAfter threeDeadRun).purge "q" { filter := some { errorType := "Timeout" } } := by
  have hshaped : Shaped threeDeadRun := shaped_twoDeadRun.append (by simp [Shaped])
  obtain ⟨rounds, ids, hloop, -, hids, hredrive, hpurge⟩ :=
    streaming_eq_filtering threeDeadRun hshaped "q" { errorType := "Timeout" }
  refine ⟨rounds, ids, hloop rounds le_rfl, (hids "a").mpr ⟨_, rfl, rfl, rfl, by decide⟩, ?_,
    (hids "c").mpr ⟨_, rfl, rfl, rfl, by decide⟩, ?_, hpurge⟩
  · intro hb
    obtain ⟨r, hr, -, -, hmatch⟩ := (hids "b").mp hb
    have hnot : ∀ r ∈ (stateAfter threeDeadRun).tasks.find? "b",
        matchFilter r { errorType := "Timeout" } = false := by decide
    rw [hnot r hr] at hmatch
    cases hmatch
  · rw [hredrive 8]
    decide

end Rdq.MemStore
