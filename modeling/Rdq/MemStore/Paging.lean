import Rdq.Foundation.KeysetPaging
import Rdq.MemStore.Deaths
import Rdq.MemStore.DlqList

/-!
# Paging through the dead letters of the memstore

Walks through `Store.DLQList` that follow the returned cursors while other calls are
served between the pages. A dead letter keeps its record
until it is redriven or purged, and a later one gets a larger number, so the
sequence numbers are a key for which a walk is stable.
-/

namespace Rdq.MemStore

open Rdq.Foundation Rdq.Foundation.KeysetPaging

/-! ## Walks -/

/-- A round of a walk: the page size asked for, and the calls that are served before
the next page. -/
structure Round where
  limit : Int
  ops : List Op := []

/-- The moment of a page call: all calls served before it, and the page size. -/
structure Moment where
  past : List Op
  limit : Int

def Moment.store (m : Moment) : Store := stateAfter m.past

def moments (past : List Op) : List Round → List Moment
  | [] => []
  | r :: rs => ⟨past, r.limit⟩ :: moments (past ++ r.ops) rs

section Walks
variable (queue : String) (f : DLQFilter)

def Moment.call (m : Moment) (cursor : String) : Except StorageError (List Envelope × String) :=
  m.store.dlqListPage queue f cursor m.limit

/-- The page calls of a walk from the first page on, with their cursors. -/
def visits (past : List Op) (rounds : List Round) : List (Moment × String) :=
  follow (Moment.call queue f) "" (moments past rounds)

/-- The walk reached its last page. -/
def Ended (past : List Op) (rounds : List Round) : Prop :=
  Finished (Moment.call queue f) (visits queue f past rounds)

/-- The ids a page lists. -/
def idsOf (v : Moment × String) : List TaskID :=
  match v.1.call queue f v.2 with
  | .ok (page, _) => page.map Envelope.id
  | .error _ => []

def idsListed (past : List Op) (rounds : List Round) : List TaskID :=
  (visits queue f past rounds).flatMap (idsOf queue f)

/-- The listed deaths, by their numbers. -/
def deathsListed (past : List Op) (rounds : List Round) : List Nat :=
  (visits queue f past rounds).flatMap fun v =>
    (idsOf queue f v).map (deathNumber (deaths (history v.1.past)))

/-- The records a listing of the queue shows. -/
def Shown (s : Store) : Set Record :=
  {r | r ∈ s.tasks.rows ∧ r.env.queue = queue ∧ r.env.status = .dead ∧ matchFilter r f = true}

/-- The records a page lists. -/
def recordsOf (m : Moment) (cursor : String) : List Record :=
  match decodeCursor cursor with
  | .ok n => (m.store.listed queue f n).take (pageLimit m.limit)
  | .error _ => []

def recordsListed (past : List Op) (rounds : List Round) : List Record :=
  (visits queue f past rounds).flatMap fun v => recordsOf queue f v.1 v.2

variable {queue f}

/-! ### One page -/

theorem pageLimit_pos (limit : Int) : 0 < pageLimit limit := by
  unfold pageLimit defaultPageLimit
  split <;> omega

theorem listed_sorted {s : Store} (hinv : LifecycleInv s) (n : Nat) :
    (s.listed queue f n).Pairwise fun a b => a.dlqSeq < b.dlqSeq := by
  have hle : (s.listed queue f n).Pairwise fun a b => a.dlqSeq ≤ b.dlqSeq :=
    List.pairwise_insertionSort (fun a b : Record => a.dlqSeq ≤ b.dlqSeq) _
  have hids : ((s.listed queue f n).map Record.id).Nodup := by
    rw [Store.listed, ((List.perm_insertionSort _ _).map Record.id).nodup_iff]
    exact (List.filter_sublist.map Record.id).nodup s.tasks.keys_nodup
  have hboth := hle.and (List.pairwise_map.mp hids)
  refine hboth.imp_of_mem ?_
  intro a b ha hb hab
  obtain ⟨hra, -, hdead, hpast, -⟩ := Store.mem_listed.mp ha
  have hrb := (Store.mem_listed.mp hb).1
  refine lt_of_le_of_ne hab.1 ?_
  intro heq
  exact hab.2 (hinv.dlqSeq_unique a.id b.id a b (KeyedTable.find?_key_of_mem hra)
    (KeyedTable.find?_key_of_mem hrb) (by omega) heq)

/-- `DLQList` takes a page of the shown records. -/
theorem isPage_dlqList {s : Store} (hinv : LifecycleInv s) (n : Nat) (limit : Int) :
    IsPage Record.dlqSeq (Shown queue f s) (WithBot.some n)
      ((s.listed queue f n).take (pageLimit limit)) (s.dlqList queue f (some n) limit).2 := by
  refine isPage_take (listed_sorted hinv n) ?_ (pageLimit_pos limit)
  intro r
  rw [Store.mem_listed, WithBot.coe_lt_coe]
  simp only [Shown, Set.mem_ofPred_eq]
  tauto

variable {m : Moment} {r : Record}

/-- A DEAD record has a number, so the first page starts before all of them. -/
theorem pos_of_shown {s : Store} (hinv : LifecycleInv s) (hr : r ∈ Shown queue f s) :
    WithBot.some 0 < WithBot.some r.dlqSeq := by
  have hok := hinv.records r.id r (KeyedTable.find?_key_of_mem hr.1)
  exact WithBot.coe_lt_coe.mpr (Nat.pos_of_ne_zero (hok.dlqSeq_ne_zero.mpr hr.2.2.1))

/-- A cursor denotes the position after its number. -/
def Denotes (cursor : String) (pos : WithBot Nat) : Prop :=
  ∃ n, decodeCursor cursor = .ok n ∧ pos = WithBot.some n

theorem denotes_empty : Denotes "" (WithBot.some 0) := ⟨0, decodeCursor_empty, rfl⟩

theorem call_of_cursor {cursor : String} {n : Nat} (hc : decodeCursor cursor = .ok n) :
    m.call queue f cursor = .ok ((m.store.dlqList queue f (some n) m.limit).1,
      cursorText (m.store.dlqList queue f (some n) m.limit).2) := by
  simp only [Moment.call, Store.dlqListPage, hc]

theorem moment_serves (hpast : Shaped m.past) :
    Serves Record.dlqSeq (Moment.call queue f) (fun m => Shown queue f m.store)
      (recordsOf queue f) Denotes m := by
  rintro cursor pos ⟨n, hn, rfl⟩
  refine ⟨_, _, (m.store.dlqList queue f (some n) m.limit).2, call_of_cursor hn, ?_, ?_, ?_⟩
  · simp only [recordsOf, hn]
    exact isPage_dlqList hpast.lifecycleInv n m.limit
  · cases (m.store.dlqList queue f (some n) m.limit).2 with
    | none => simp [cursorText]
    | some k => simp [cursorText, encodeCursor_ne_empty]
  · intro k hk
    rw [hk]
    exact ⟨k, decodeCursor_encodeCursor k, rfl⟩

theorem idsOf_eq {v : Moment × String} {pos : WithBot Nat} (hv : Denotes v.2 pos) :
    idsOf queue f v = (recordsOf queue f v.1 v.2).map Record.id := by
  obtain ⟨n, hn, -⟩ := hv
  simp only [idsOf, call_of_cursor hn, recordsOf, hn]
  exact Store.ids_dlqList (some n) v.1.limit

theorem mem_shown_of_mem_recordsOf {cursor : String} (h : r ∈ recordsOf queue f m cursor) :
    r ∈ Shown queue f m.store := by
  unfold recordsOf at h
  split at h
  · obtain ⟨hrow, hqueue, hdead, -, hmatch⟩ := Store.mem_listed.mp (List.mem_of_mem_take h)
    exact ⟨hrow, hqueue, hdead, hmatch⟩
  · cases h

/-! ### The moments of a walk -/

/-- The calls served between the pages are Submit-shaped. -/
def Round.Shaped (rounds : List Round) : Prop := ∀ r ∈ rounds, MemStore.Shaped r.ops

section
variable {past : List Op} {rounds : List Round}

/-- Before a page the calls of the rounds before it were served. -/
theorem past_of_mem_moments (hm : m ∈ moments past rounds) :
    ∃ front, front <+: rounds ∧ m.past = past ++ front.flatMap Round.ops := by
  induction rounds generalizing past with
  | nil => cases hm
  | cons r rs ih =>
    rcases List.mem_cons.mp hm with rfl | hm
    · exact ⟨[], List.nil_prefix, by simp⟩
    · obtain ⟨front, hfront, heq⟩ := ih hm
      exact ⟨r :: front, List.cons_prefix_cons.mpr ⟨rfl, hfront⟩, by simp [heq]⟩

theorem past_le_of_mem_moments (hm : m ∈ moments past rounds) :
    past <+: m.past := by
  obtain ⟨front, -, heq⟩ := past_of_mem_moments hm
  exact heq ▸ List.prefix_append past _

/-- The pages of a walk are taken one after the other. -/
theorem moments_chain (past : List Op) (rounds : List Round) :
    (moments past rounds).Pairwise fun a b => a.past <+: b.past := by
  induction rounds generalizing past with
  | nil => exact List.Pairwise.nil
  | cons r rs ih =>
    refine List.Pairwise.cons ?_ (ih (past ++ r.ops))
    intro m hm
    exact (List.prefix_append past r.ops).trans (past_le_of_mem_moments hm)

theorem shaped_of_mem_moments (hpast : Shaped past) (hrounds : Round.Shaped rounds)
    (hm : m ∈ moments past rounds) : Shaped m.past := by
  obtain ⟨front, hfront, heq⟩ := past_of_mem_moments hm
  rw [heq]
  refine hpast.append ?_
  intro task ht
  obtain ⟨r, hr, hop⟩ := List.mem_flatMap.mp ht
  exact hrounds r (hfront.mem hr) task hop

/-- A walk with nothing in between stays at one moment. -/
theorem past_of_quiet (hquiet : ∀ r ∈ rounds, r.ops = []) (hm : m ∈ moments past rounds) :
    m.past = past := by
  obtain ⟨front, hfront, heq⟩ := past_of_mem_moments hm
  have hnone : front.flatMap Round.ops = [] :=
    List.flatMap_eq_nil_iff.mpr fun r hr => hquiet r (hfront.mem hr)
  rw [heq, hnone, List.append_nil]

theorem serves_of_mem_moments (hpast : Shaped past) (hrounds : Round.Shaped rounds) :
    ∀ m ∈ moments past rounds,
      Serves Record.dlqSeq (Moment.call queue f) (fun m => Shown queue f m.store)
        (recordsOf queue f) Denotes m :=
  fun _ hm => moment_serves (shaped_of_mem_moments hpast hrounds hm)

/-- The page calls of a walk take the pages of a keyset walk. -/
theorem walk_visits (hpast : Shaped past) (hrounds : Round.Shaped rounds) (hne : rounds ≠ []) :
    ∃ next, Walk Record.dlqSeq (WithBot.some 0)
        (pages (fun m => Shown queue f m.store) (recordsOf queue f)
          (visits queue f past rounds)) next ∧
      (Ended queue f past rounds ↔ next = none) := by
  refine walk_follow ?_ (serves_of_mem_moments hpast hrounds) denotes_empty
  cases rounds with
  | nil => exact absurd rfl hne
  | cons r rs => exact List.cons_ne_nil _ _

theorem denotes_of_mem_visits (hpast : Shaped past) (hrounds : Round.Shaped rounds)
    {v : Moment × String} (hv : v ∈ visits queue f past rounds) : ∃ pos, Denotes v.2 pos :=
  denotes_of_mem_follow (serves_of_mem_moments hpast hrounds) denotes_empty hv

theorem past_le_last {v last : Moment × String} (hv : v ∈ visits queue f past rounds)
    (hlast : (visits queue f past rounds).getLast? = some last) : v.1.past <+: last.1.past :=
  rel_last_of_mem_follow (r := fun a b : Moment => a.past <+: b.past)
    (fun _ => List.prefix_rfl) (moments_chain past rounds) hv hlast

/-- A client with nothing in between ends when the records past its cursor are used up. -/
theorem finished_of_remaining {cursor : String} {n : Nat} (hquiet : ∀ r ∈ rounds, r.ops = [])
    (hc : decodeCursor cursor = .ok n)
    (hlen : (stateAfter past).remaining n < rounds.length) :
    Finished (Moment.call queue f)
      (follow (Moment.call queue f) cursor (moments past rounds)) := by
  induction rounds generalizing cursor n with
  | nil => cases hlen
  | cons r rs ih =>
    have hcall := @call_of_cursor queue f ⟨past, r.limit⟩ cursor n hc
    simp only [Moment.store] at hcall
    simp only [moments, follow, hcall]
    cases hnext : ((stateAfter past).dlqList queue f (some n) r.limit).2 with
    | none =>
      simp only [hnext] at hcall
      exact ⟨_, _, rfl, hcall⟩
    | some k =>
      obtain ⟨x, hx, hpast, rfl⟩ := Store.next_of_dlqList hnext
      have hlt := Store.remaining_lt hx hpast
      have hlen' : (stateAfter past).remaining x.dlqSeq < rs.length := by
        simp only [List.length_cons, Option.getD_some] at hlen hlt
        omega
      have hmoments : moments past rs ≠ [] := by
        cases rs with
        | nil => cases hlen'
        | cons r' rs => exact List.cons_ne_nil _ _
      simp only [cursorText, encodeCursor_ne_empty, if_false]
      rw [hquiet r List.mem_cons_self, List.append_nil, finished_cons (follow_ne_nil hmoments)]
      exact ih (fun r' hr' => hquiet r' (List.mem_cons_of_mem r hr'))
        (decodeCursor_encodeCursor _) hlen'

/-! ### What a walk lists -/

theorem idsListed_eq (hpast : Shaped past) (hrounds : Round.Shaped rounds) :
    idsListed queue f past rounds = (recordsListed queue f past rounds).map Record.id := by
  rw [idsListed, recordsListed, List.map_flatMap]
  refine List.flatMap_congr fun v hv => ?_
  obtain ⟨pos, hpos⟩ := denotes_of_mem_visits hpast hrounds hv
  exact idsOf_eq hpos

theorem shown_of_mem_recordsListed (h : r ∈ recordsListed queue f past rounds) :
    ∃ m ∈ moments past rounds, r ∈ Shown queue f m.store := by
  obtain ⟨v, hv, hr⟩ := List.mem_flatMap.mp h
  exact ⟨v.1, mem_of_mem_follow hv, mem_shown_of_mem_recordsOf hr⟩

/-- The listed deaths are the sequence numbers of the listed records. -/
theorem deathsListed_eq (hpast : Shaped past) (hrounds : Round.Shaped rounds) :
    deathsListed queue f past rounds =
      (recordsListed queue f past rounds).map Record.dlqSeq := by
  rw [deathsListed, recordsListed, List.map_flatMap]
  refine List.flatMap_congr fun v hv => ?_
  obtain ⟨pos, hpos⟩ := denotes_of_mem_visits hpast hrounds hv
  rw [idsOf_eq hpos, List.map_map]
  refine List.map_congr_left fun r hr => ?_
  have hshown := mem_shown_of_mem_recordsOf hr
  have hshaped := shaped_of_mem_moments hpast hrounds (mem_of_mem_follow hv)
  exact (hshaped.deathsOk.number r.id r (KeyedTable.find?_key_of_mem hshown.1)
    hshown.2.2.1).symm

/-- The numbers of the listed deaths increase along every walk. -/
theorem deathsListed_sorted (hpast : Shaped past) (hrounds : Round.Shaped rounds) :
    (deathsListed queue f past rounds).Pairwise (· < ·) := by
  by_cases hne : rounds = []
  · rw [hne]
    exact List.Pairwise.nil
  · obtain ⟨next, hwalk, -⟩ := @walk_visits queue f past rounds hpast hrounds hne
    rw [deathsListed_eq hpast hrounds, List.pairwise_map]
    have hsorted := hwalk.sorted
    rw [listing_pages] at hsorted
    exact hsorted

/-- A finished walk lists the record of every task that its last page finds DEAD and
matching: a record the earlier pages did not find has a number past all of theirs. -/
theorem mem_recordsListed_of_shown (hpast : Shaped past) (hrounds : Round.Shaped rounds)
    {last : Moment × String} (hlast : (visits queue f past rounds).getLast? = some last)
    (hend : Ended queue f past rounds) (hr : r ∈ Shown queue f last.1.store) :
    r ∈ recordsListed queue f past rounds := by
  have hlastmem := List.mem_of_getLast? hlast
  have hne : rounds ≠ [] := by
    rintro rfl
    cases hlastmem
  obtain ⟨next, hwalk, hiff⟩ := @walk_visits queue f past rounds hpast hrounds hne
  rw [hiff.mp hend] at hwalk
  have hshaped := shaped_of_mem_moments hpast hrounds (mem_of_mem_follow hlastmem)
  rw [recordsListed, ← listing_pages]
  refine hwalk.mem_listing (pos_of_shown hshaped.lifecycleInv hr) ?_ ?_
  · intro p hp
    obtain ⟨v, hv, rfl⟩ := List.mem_map.mp hp
    obtain ⟨ops, hops⟩ := past_le_last hv hlast
    have hfind := KeyedTable.find?_key_of_mem hr.1
    rw [Moment.store, ← hops] at hfind
    rcases Shaped.dead_earlier (hops ▸ hshaped) hfind hr.2.2.1 with hold | hnew
    · exact Or.inl ⟨KeyedTable.mem_of_find? hold, hr.2⟩
    · refine Or.inr fun b hb => lt_of_le_of_lt ?_ hnew
      have hv' := shaped_of_mem_moments hpast hrounds (mem_of_mem_follow hv)
      exact (hv'.lifecycleInv.records b.id b (KeyedTable.find?_key_of_mem hb.1)).dlqSeq_le
  · intro p hp
    rw [pages, List.getLast?_map, hlast] at hp
    cases hp
    exact hr

/-- A task that is DEAD and matching all along is listed by one record only. -/
theorem record_unique {last : Moment × String} {id : TaskID}
    (hlast : (visits queue f past rounds).getLast? = some last)
    (hstays : ∀ p, past <+: p → p <+: last.1.past →
      ∃ r ∈ Shown queue f (stateAfter p), r.id = id) :
    ∃ r₀ ∈ Shown queue f last.1.store, r₀.id = id ∧
      ∀ r ∈ recordsListed queue f past rounds, r.id = id → r = r₀ := by
  have hfind : ∀ v ∈ visits queue f past rounds,
      v.1.store.tasks.find? id = (stateAfter past).tasks.find? id := by
    intro v hv
    obtain ⟨ops, hops⟩ := past_le_of_mem_moments (mem_of_mem_follow hv)
    have hle : past ++ ops <+: last.1.past := by
      rw [hops]
      exact past_le_last hv hlast
    rw [Moment.store, ← hops]
    apply dead_stays
    intro p hp hp'
    obtain ⟨r, hr, hid⟩ := hstays p hp (hp'.trans hle)
    exact ⟨r, hid ▸ KeyedTable.find?_key_of_mem hr.1, hr.2.2.1⟩
  have hlastmem := List.mem_of_getLast? hlast
  obtain ⟨r₀, hr₀, hid₀⟩ :=
    hstays last.1.past (past_le_of_mem_moments (mem_of_mem_follow hlastmem)) List.prefix_rfl
  refine ⟨r₀, hr₀, hid₀, ?_⟩
  intro r hr hid
  obtain ⟨v, hv, hrv⟩ := List.mem_flatMap.mp hr
  have hrow := KeyedTable.find?_key_of_mem (mem_shown_of_mem_recordsOf hrv).1
  have hrow₀ := KeyedTable.find?_key_of_mem hr₀.1
  rw [hid, hfind v hv] at hrow
  rw [hid₀] at hrow₀
  have hsame := hfind last hlastmem
  rw [Moment.store, hrow₀, hrow] at hsame
  exact (Option.some.inj hsame).symm

end

end Walks

/-- Paging through the dead letters is stable. From every reachable store, whatever page
sizes a walk asks for and whatever calls are served between its pages: no page is
refused, and the listed deaths increase, so none is listed twice. If the walk reaches
its last page, then a task that is DEAD and matching from the first page to the last is
listed once, and the latest death of every task that is DEAD and matching at the last
page is listed once. With no calls in between, a walk ends within one page more than
there are records, and lists the DEAD and matching tasks. -/
theorem paging_stable (past : List Op) (hpast : Shaped past) (queue : String) (f : DLQFilter)
    (rounds : List Round) (hrounds : Round.Shaped rounds) :
    (∀ v ∈ visits queue f past rounds, ∃ page, v.1.call queue f v.2 = .ok page) ∧
    (deathsListed queue f past rounds).Pairwise (· < ·) ∧
    (∀ last, (visits queue f past rounds).getLast? = some last → Ended queue f past rounds →
      (∀ id, (∀ p, past <+: p → p <+: last.1.past →
          ∃ r ∈ Shown queue f (stateAfter p), r.id = id) →
        (idsListed queue f past rounds).count id = 1) ∧
      ∀ r ∈ Shown queue f last.1.store, (deathsListed queue f past rounds).count
        (deathNumber (deaths (history last.1.past)) r.id) = 1) ∧
    ((∀ r ∈ rounds, r.ops = []) → (stateAfter past).tasks.rows.length < rounds.length →
      Ended queue f past rounds ∧ ∀ id, id ∈ idsListed queue f past rounds ↔
        ∃ r ∈ Shown queue f (stateAfter past), r.id = id) := by
  have hsorted := @deathsListed_sorted queue f past rounds hpast hrounds
  refine ⟨?_, hsorted, ?_, ?_⟩
  · intro v hv
    obtain ⟨pos, n, hn, -⟩ := denotes_of_mem_visits hpast hrounds hv
    exact ⟨_, call_of_cursor hn⟩
  · intro last hlast hend
    refine ⟨?_, ?_⟩
    · intro id hstays
      obtain ⟨r₀, hr₀, hid₀, hunique⟩ := record_unique hlast hstays
      have hmem := mem_recordsListed_of_shown hpast hrounds hlast hend hr₀
      have hnodup : (recordsListed queue f past rounds).Nodup := by
        rw [deathsListed_eq hpast hrounds] at hsorted
        exact List.Pairwise.of_map _ (fun _ _ h heq => absurd (heq ▸ h) (lt_irrefl _)) hsorted
      rw [idsListed_eq hpast hrounds, List.count_eq_countP, List.countP_map,
        ← List.count_eq_one_of_mem hnodup hmem, List.count_eq_countP]
      refine List.countP_congr fun r hr => ?_
      simp only [Function.comp_apply, beq_iff_eq]
      exact ⟨hunique r hr, fun h => h ▸ hid₀⟩
    · intro r hr
      have hshaped :=
        shaped_of_mem_moments hpast hrounds (mem_of_mem_follow (List.mem_of_getLast? hlast))
      rw [← hshaped.deathsOk.number r.id r (KeyedTable.find?_key_of_mem hr.1) hr.2.2.1]
      refine List.count_eq_one_of_mem (hsorted.imp fun h => ne_of_lt h) ?_
      rw [deathsListed_eq hpast hrounds]
      exact List.mem_map_of_mem (mem_recordsListed_of_shown hpast hrounds hlast hend hr)
  · intro hquiet hlen
    have hend : Ended queue f past rounds :=
      finished_of_remaining hquiet decodeCursor_empty
        (lt_of_le_of_lt List.countP_le_length hlen)
    refine ⟨hend, fun id => ?_⟩
    rw [idsListed_eq hpast hrounds]
    constructor
    · intro hid
      obtain ⟨r, hr, rfl⟩ := List.mem_map.mp hid
      obtain ⟨m, hm, hshown⟩ := shown_of_mem_recordsListed hr
      rw [Moment.store, past_of_quiet hquiet hm] at hshown
      exact ⟨r, hshown, rfl⟩
    · rintro ⟨r, hr, rfl⟩
      have hlast := hend
      obtain ⟨last, page, hlast, -⟩ := hlast
      refine List.mem_map_of_mem (mem_recordsListed_of_shown hpast hrounds hlast hend ?_)
      rw [Moment.store, past_of_quiet hquiet (mem_of_mem_follow (List.mem_of_getLast? hlast))]
      exact hr

def failedAttempt (errorType : String) : Attempt where
  attemptNo := 1
  startedAt := 0
  finishedAt := some 5
  outcome := .permanentFailure
  error := some { type := errorType, message := "" }

/-- Three tasks are claimed, and two of them die. -/
def twoDeadRun : List Op :=
  [.enqueue (.submitted "a" "q" "h" 0), .enqueue (.submitted "b" "q" "h" 0),
    .enqueue (.submitted "c" "q" "h" 0), .claimDue "q" 3 10 0,
    .deadLetter "a" (mintToken 1) (failedAttempt "Timeout") 5,
    .deadLetter "b" (mintToken 2) (failedAttempt "Refused") 5]

/-- Pages of one task; after the first one its task is redriven and the third task dies. -/
def redrivenBetween : List Round :=
  [⟨1, [.redrive "q" { ids := ["a"] } 6,
      .deadLetter "c" (mintToken 3) (failedAttempt "Timeout") 7]⟩,
    ⟨1, []⟩, ⟨1, []⟩]

theorem shaped_twoDeadRun : Shaped twoDeadRun := by
  intro task ht
  simp only [twoDeadRun, List.mem_cons, List.not_mem_nil, Op.enqueue.injEq, reduceCtorEq,
    or_false] at ht
  rcases ht with rfl | rfl | rfl
  · exact Envelope.submitted_shaped "a" "q" "h" 0
  · exact Envelope.submitted_shaped "b" "q" "h" 0
  · exact Envelope.submitted_shaped "c" "q" "h" 0

/-- The walk lists all three deaths, and the task that stays once. -/
theorem paging_stable_redrivenBetween :
    idsListed "q" {} twoDeadRun redrivenBetween = ["a", "b", "c"] ∧
      (idsListed "q" {} twoDeadRun redrivenBetween).count "b" = 1 := by
  have hrounds : Round.Shaped redrivenBetween := by
    intro r hr task ht
    simp only [redrivenBetween, List.mem_cons, List.not_mem_nil, or_false, or_self] at hr
    rcases hr with rfl | rfl <;> simp at ht
  have hstays : ∀ p ∈ (twoDeadRun ++ redrivenBetween.flatMap Round.ops).inits, twoDeadRun <+: p →
      ∃ r ∈ (stateAfter p).tasks.rows, r.env.queue = "q" ∧ r.env.status = .dead ∧
        matchFilter r {} = true ∧ r.id = "b" := by
    decide +kernel
  have hwalk := paging_stable twoDeadRun shaped_twoDeadRun "q" {} redrivenBetween hrounds
  refine ⟨by decide +kernel, (hwalk.2.2.1 _ rfl ⟨_, _, rfl, rfl⟩).1 "b" ?_⟩
  intro p hp hlast
  obtain ⟨r, hrow, hqueue, hdead, hmatch, hid⟩ := hstays p ((List.mem_inits _ _).mpr hlast) hp
  exact ⟨r, ⟨hrow, hqueue, hdead, hmatch⟩, hid⟩

end Rdq.MemStore
