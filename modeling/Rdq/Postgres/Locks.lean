import Rdq.Foundation.RowLocks
import Rdq.Postgres.OneHome
import Rdq.Postgres.Statements

/-!
# What an open transaction rests on

A transaction that has written holds the rows of its tasks, and with them their
attempts: all it found, and all its later statements write, depends on these tasks
alone, and its commit changes no other. So it stays ready as long as nobody else
touches them, and once only the commit is left, the commit does what the whole call
would do at that moment. A Redrive or a Purge counts as one of the ids it has taken.
-/

namespace Rdq.Postgres

open Rdq.Foundation
open ReadCommitted (OneHome)

variable {queue : String} {sel : Selector} {ids : List TaskID} {a : AttemptRow}
  {as : List AttemptRow} {r : TaskRow} {rows : List TaskRow} {limit : Int}

/-! ## Adding attempts -/

/-- The attempts can all be inserted. -/
def Insertable (db : Database) (as : List AttemptRow) : Prop :=
  (as.map AttemptRow.key).Nodup ∧ ∀ a ∈ as, db.attempt.find? a.key = none

section Attempts
variable {db : Database}

@[simp] theorem addAttempts_nil (db : Database) : db.addAttempts [] = db := rfl

theorem addAttempts_append (db : Database) (as bs : List AttemptRow) :
    db.addAttempts (as ++ bs) = (db.addAttempts as).addAttempts bs := by
  simp only [Database.addAttempts, List.foldl_append]

theorem insertable_nil (db : Database) : Insertable db [] := ⟨List.nodup_nil, by simp⟩

/-- The first of insertable attempts is inserted, and the others stay insertable. -/
theorem Insertable.cons (h : Insertable db (a :: as)) :
    db.insertAttempt a = some (db.addAttempts [a]) ∧ Insertable (db.addAttempts [a]) as := by
  obtain ⟨hnd, hfree⟩ := h
  rw [List.map_cons, List.nodup_cons] at hnd
  refine ⟨insertAttempt_eq_some_iff.mpr ⟨hfree a List.mem_cons_self, rfl⟩, hnd.2, ?_⟩
  intro b hb
  have hne : a.key ≠ b.key := fun he => hnd.1 (he ▸ List.mem_map_of_mem hb)
  exact (KeyedTable.find?_insertNew_of_ne db.attempt hne).trans
    (hfree b (List.mem_cons_of_mem a hb))

/-- Inserting one by one succeeds. -/
theorem foldlM_insertAttempt_of_insertable (h : Insertable db as) :
    as.foldlM Database.insertAttempt db = some (db.addAttempts as) := by
  induction as generalizing db with
  | nil => rfl
  | cons a as ih =>
    rw [List.foldlM_cons, h.cons.1]
    exact ih h.cons.2

/-- The attempts of a task after attempts were added. -/
theorem attemptsOf_addAttempts (h : Insertable db as) (id : TaskID) :
    (db.addAttempts as).attemptsOf id = db.attemptsOf id ++ as.filter fun a => a.taskId = id :=
  (foldlM_insertAttempt (foldlM_insertAttempt_of_insertable h)).2.2 id

/-- One more attempt can be inserted exactly when its number is still free. -/
theorem insertable_concat_iff (h : Insertable db as) (a : AttemptRow) :
    Insertable db (as ++ [a]) ↔ (db.addAttempts as).attempt.find? a.key = none := by
  have hfind : (db.addAttempts as).attempt.find? a.key = none ↔
      db.attempt.find? a.key = none ∧ a.key ∉ as.map AttemptRow.key := by
    constructor
    · intro hnone
      have hmem : a.key ∉ as.map AttemptRow.key := by
        intro hmem
        obtain ⟨b, hb, hkey⟩ := List.mem_map.mp hmem
        have hsome := KeyedTable.find?_foldl_insertNew_of_mem db.attempt as h.1 h.2 hb
        rw [hkey] at hsome
        exact Option.some_ne_none b (hsome.symm.trans hnone)
      exact ⟨(KeyedTable.find?_foldl_insertNew_of_not_mem db.attempt as hmem).symm.trans hnone,
        hmem⟩
    · rintro ⟨hnone, hmem⟩
      exact (KeyedTable.find?_foldl_insertNew_of_not_mem db.attempt as hmem).trans hnone
  rw [hfind, Insertable, List.map_append, List.nodup_append]
  constructor
  · rintro ⟨⟨-, -, hdisj⟩, hfree⟩
    refine ⟨hfree a (by simp), fun hmem => ?_⟩
    exact hdisj a.key hmem a.key (by simp) rfl
  · rintro ⟨hnone, hmem⟩
    refine ⟨⟨h.1, by simp, ?_⟩, ?_⟩
    · rintro k hk k' hk' rfl
      simp only [List.map_cons, List.map_nil, List.mem_singleton] at hk'
      exact hmem (hk' ▸ hk)
    · intro b hb
      rcases List.mem_append.mp hb with hb | hb
      · exact h.2 b hb
      · rw [List.mem_singleton.mp hb]
        exact hnone

/-- An attempt whose number is taken stops the whole loop. -/
theorem foldlM_insertAttempt_blocked {added todo : List AttemptRow} (hadded : Insertable db added)
    (hnone : (db.addAttempts added).insertAttempt a = none) :
    (added ++ a :: todo).foldlM Database.insertAttempt db = none := by
  rw [List.foldlM_append, foldlM_insertAttempt_of_insertable hadded]
  change (a :: todo).foldlM Database.insertAttempt (db.addAttempts added) = none
  rw [List.foldlM_cons, hnone]
  rfl

theorem Insertable.concat {added : List AttemptRow} {db' : Database} (hadded : Insertable db added)
    (h : (db.addAttempts added).insertAttempt a = some db') :
    Insertable db (added ++ [a]) :=
  (insertable_concat_iff hadded a).mpr (insertAttempt_eq_some_iff.mp h).1

/-- Whether attempts can be inserted depends on the attempts of their tasks. -/
theorem insertable_congr {db' : Database}
    (h : ∀ a ∈ as, db'.attemptsOf a.taskId = db.attemptsOf a.taskId) (has : Insertable db as) :
    Insertable db' as := by
  refine ⟨has.1, fun a ha => ?_⟩
  rw [find?_attempt_eq_none_iff, h a ha]
  exact find?_attempt_eq_none_iff.mp (has.2 a ha)

/-- Tasks without a new attempt keep theirs. -/
theorem attemptsOf_addAttempts_of_ne (db : Database) {id : TaskID} (hid : ∀ a ∈ as, a.taskId ≠ id) :
    (db.addAttempts as).attemptsOf id = db.attemptsOf id := by
  induction as generalizing db with
  | nil => rfl
  | cons a as ih =>
    have hone : (db.addAttempts [a]).attemptsOf id = db.attemptsOf id := by
      change ((db.attempt.insertNew a).rows.filter fun b => decide (b.taskId = id)) = _
      unfold KeyedTable.insertNew
      split
      · simp [Database.attemptsOf, List.filter_append, hid a List.mem_cons_self]
      · rfl
    rw [← hone]
    exact ih (db.addAttempts [a]) fun b hb => hid b (List.mem_cons_of_mem a hb)

end Attempts

/-! ## The reclaimed leases of a claim -/

section Reclaims
variable {db : Database} {now : Time}

/-- The attempts a claim records for the rows it took. -/
def reclaims (db : Database) (now : Time) (rows : List TaskRow) : List AttemptRow :=
  rows.flatMap fun r => reclaimed db r now

theorem taskId_of_mem_reclaimed (h : a ∈ reclaimed db r now) :
    a.taskId = r.id := by
  unfold reclaimed at h
  split at h
  · rw [List.mem_singleton.mp h]
    rfl
  · cases h

theorem taskId_of_mem_reclaims (h : a ∈ reclaims db now rows) : a.taskId ∈ rows.map TaskRow.id := by
  obtain ⟨r, hr, ha⟩ := List.mem_flatMap.mp h
  rw [taskId_of_mem_reclaimed ha]
  exact List.mem_map_of_mem hr

theorem reclaims_congr {db' : Database} (h : ∀ r ∈ rows, db'.attemptsOf r.id = db.attemptsOf r.id) :
    reclaims db' now rows = reclaims db now rows := by
  apply List.flatMap_congr
  intro r hr
  exact reclaimed_congr (h r hr) now

theorem insertable_reclaimed (db : Database) (now : Time) (r : TaskRow) :
    Insertable db (reclaimed db r now) := by
  unfold reclaimed
  split
  · refine ⟨by simp, ?_⟩
    intro a ha
    rw [List.mem_singleton.mp ha, find?_attempt_eq_none_iff]
    intro b hb
    have hle : b.attemptNo ≤ db.maxAttemptNo r.id := attemptNo_le_max db hb
    have hno : (db.leaseExpiredRow r now).attemptNo = db.maxAttemptNo r.id + 1 := rfl
    omega
  · exact insertable_nil db

/-- The reclaimed leases of different tasks never stand in each other's way. -/
theorem insertable_reclaims (hnd : (rows.map TaskRow.id).Nodup) :
    Insertable db (reclaims db now rows) := by
  induction rows with
  | nil => exact insertable_nil db
  | cons r rows ih =>
    rw [List.map_cons, List.nodup_cons] at hnd
    obtain ⟨hnodup, hfree⟩ := ih hnd.2
    obtain ⟨hnodup', hfree'⟩ := insertable_reclaimed db now r
    rw [Insertable, reclaims, List.flatMap_cons, List.map_append, List.nodup_append]
    refine ⟨⟨hnodup', hnodup, ?_⟩, ?_⟩
    · rintro k hk k' hk' rfl
      obtain ⟨a, ha, rfl⟩ := List.mem_map.mp hk
      obtain ⟨b, hb, hkey⟩ := List.mem_map.mp hk'
      have hid : b.taskId = a.taskId := congrArg Prod.fst hkey
      rw [taskId_of_mem_reclaimed ha] at hid
      exact hnd.1 (hid ▸ taskId_of_mem_reclaims hb)
    · intro a ha
      rcases List.mem_append.mp ha with ha | ha
      · exact hfree' a ha
      · exact hfree a ha

theorem recordReclaim_eq (db : Database) (now : Time) (r : TaskRow) :
    db.recordReclaim now r = some (db.addAttempts (reclaimed db r now)) := by
  have hins := insertable_reclaimed db now r
  unfold Database.recordReclaim reclaimed at *
  split
  · rename_i hst
    rw [if_pos hst] at hins
    exact insertAttempt_eq_some_iff.mpr ⟨hins.2 _ (by simp), rfl⟩
  · rfl

/-- The loop of a claim records the reclaimed leases of its rows. -/
theorem foldlM_recordReclaim_eq (db : Database) (now : Time) (hnd : (rows.map TaskRow.id).Nodup) :
    rows.foldlM (fun db r => db.recordReclaim now r) db =
      some (db.addAttempts (reclaims db now rows)) := by
  induction rows generalizing db with
  | nil => rfl
  | cons r rows ih =>
    rw [List.map_cons, List.nodup_cons] at hnd
    have hsame : reclaims (db.addAttempts (reclaimed db r now)) now rows =
        reclaims db now rows := by
      apply reclaims_congr
      intro r' hr'
      apply attemptsOf_addAttempts_of_ne
      intro a ha
      rw [taskId_of_mem_reclaimed ha]
      exact fun he => hnd.1 (he ▸ List.mem_map_of_mem hr')
    rw [List.foldlM_cons, recordReclaim_eq]
    refine (ih _ hnd.2).trans ?_
    rw [hsame, ← addAttempts_append]
    rfl

end Reclaims

namespace Statements

variable {tx : Tx} {now : Time}

/-! ## What an open transaction rests on -/

/-- The tasks whose rows a transaction has locked. -/
def Tx.held (tx : Tx) : Set TaskID := {id | id ∈ tx.write.taskIds ∨ id ∈ tx.write.dlqIds}

/-- The rows are stored, and a claim may take all of them. -/
structure Takes (db : Database) (queue : String) (limit : Int) (now : Time)
    (rows : List TaskRow) : Prop where
  nodup : (rows.map TaskRow.id).Nodup
  found : ∀ r ∈ rows, db.task.find? r.id = some r
  due : ∀ r ∈ rows, r.queue = queue ∧ r.isDue now = true
  limit_pos : 0 < limit
  length_le : rows.length ≤ limit.toNat

/-- The history a claim loads for a row. -/
def history (db : Database) (now : Time) (r : TaskRow) : List AttemptRow :=
  (db.attemptsOf r.id ++ reclaimed db r now).insertionSort fun a b => a.attemptNo ≤ b.attemptNo

/-- The ids are those of dead letters that a selector chooses. -/
def Selected (db : Database) (queue : String) (sel : Selector) (ids : List TaskID) : Prop :=
  ∀ id ∈ ids, ∃ d, db.dlq.find? id = some d ∧ dlqSelects queue sel d = true

/-- What holds of a transaction that has written, as long as nobody else changes the tasks it
holds: its write still fits, and what it did so far is what it would do now. -/
inductive Ready (db : Database) : Tx → Prop
  | enqueue {task : Envelope} {added todo : List AttemptRow}
      (hstorable : (taskRowFromEnvelope task).Storable)
      (hlook : db.lookupQueue task.id = none)
      (hsplit : attemptRowsFromEnvelope task = added ++ todo) (hadded : Insertable db added) :
      Ready db ⟨.enqueue task, .insertTask (taskRowFromEnvelope task), added, .attempts todo⟩
  | recording {queue : String} {limit : Int} {c : Claim} {taken todo : List TaskRow}
      (htakes : Takes db queue limit c.now c.rows) (hsplit : c.rows = taken ++ todo) :
      Ready db ⟨.claimDue queue limit c.lease c.now, .claim c, reclaims db c.now taken,
        .reclaims c todo⟩
  | loading {queue : String} {limit : Int} {c : Claim} {loaded todo : List TaskRow}
      (htakes : Takes db queue limit c.now c.rows) (hsplit : c.rows = loaded ++ todo) :
      Ready db ⟨.claimDue queue limit c.lease c.now, .claim c, reclaims db c.now c.rows,
        .loads c todo (loaded.map fun r => c.grant r (history db c.now r))⟩
  | extend {id : TaskID} {token : ClaimToken} {lease : Duration} {now : Time} {r : TaskRow}
      (hr : db.task.find? id = some r) (hfenced : r.Fenced token) :
      Ready db ⟨.extendLease id token lease now, .extendLease id lease now, [], .answer .done⟩
  | reschedule {id : TaskID} {token : ClaimToken} {att : Attempt} {nextAt : Time} {r : TaskRow}
      {added todo : List AttemptRow} (hr : db.task.find? id = some r) (hfenced : r.Fenced token)
      (hsplit : [attemptRowFromAttempt id att] = added ++ todo) (hadded : Insertable db added) :
      Ready db ⟨.reschedule id token att nextAt, .reschedule id nextAt, added, .attempts todo⟩
  | complete {id : TaskID} {token : ClaimToken} {att : Attempt} {now : Time} {r : TaskRow}
      {added todo : List AttemptRow} (hr : db.task.find? id = some r) (hfenced : r.Fenced token)
      (hsplit : [attemptRowFromAttempt id att] = added ++ todo) (hadded : Insertable db added) :
      Ready db ⟨.complete id token att now, .complete id, added, .attempts todo⟩
  | deadLetter {id : TaskID} {token : ClaimToken} {att : Attempt} {now : Time} {r : TaskRow}
      {added todo : List AttemptRow} (hr : db.task.find? id = some r) (hfenced : r.Fenced token)
      (hfree : db.dlq.find? id = none)
      (hsplit : [attemptRowFromAttempt id att] = added ++ todo) (hadded : Insertable db added) :
      Ready db ⟨.deadLetter id token att now, .deadLetter (r.deadLetter now (errType att)), added,
        .attempts todo⟩
  | redrive {queue : String} {sel : Selector} {now : Time} {ids : List TaskID}
      (hnd : ids.Nodup) (hfree : ∀ id ∈ ids, db.task.find? id = none)
      (hdead : Selected db queue sel ids) :
      Ready db ⟨.redrive queue sel now, .redrive ids now, [], .answer (.count ids.length)⟩
  | purge {queue : String} {sel : Selector} {ids : List TaskID} (hnd : ids.Nodup)
      (hdead : Selected db queue sel ids) :
      Ready db ⟨.purge queue sel, .purge ids, [], .answer (.count ids.length)⟩

section Congr
variable {db db' : Database}

theorem Takes.congr (h : Takes db queue limit now rows)
    (hsame : ∀ r ∈ rows, db'.task.find? r.id = db.task.find? r.id) :
    Takes db' queue limit now rows :=
  { h with found := fun r hr => (hsame r hr).trans (h.found r hr) }

theorem history_congr (h : db'.attemptsOf r.id = db.attemptsOf r.id) :
    history db' now r = history db now r := by
  rw [history, history, h, reclaimed_congr h]

/-- The attempts an open transaction has written belong to the tasks it holds. -/
theorem Ready.taskId_of_mem_added (h : Ready db tx) :
    ∀ a ∈ tx.added, a.taskId ∈ tx.held := by
  -- an outcome writes at most one attempt, that of its task
  have houtcome : ∀ {id : TaskID} {att : Attempt} {added todo : List AttemptRow}, id ∈ tx.held →
      [attemptRowFromAttempt id att] = added ++ todo → ∀ a ∈ added, a.taskId ∈ tx.held := by
    intro id att added todo hid hsplit a ha
    have hmem : a ∈ [attemptRowFromAttempt id att] := hsplit ▸ List.mem_append_left todo ha
    rw [List.mem_singleton.mp hmem]
    exact hid
  cases h with
  | @enqueue task added todo hstorable hlook hsplit hadded =>
    intro a ha
    have hmem : a ∈ attemptRowsFromEnvelope task := hsplit ▸ List.mem_append_left todo ha
    obtain ⟨att, -, rfl⟩ := List.mem_map.mp hmem
    exact Or.inl (List.mem_singleton.mpr rfl)
  | @recording queue limit c taken todo htakes hsplit =>
    intro a ha
    obtain ⟨r, hr, hid⟩ := List.mem_map.mp (taskId_of_mem_reclaims ha)
    exact Or.inl (List.mem_map.mpr ⟨r, hsplit ▸ List.mem_append_left todo hr, hid⟩)
  | loading htakes hsplit => exact fun a ha => Or.inl (taskId_of_mem_reclaims ha)
  | extend | redrive | purge =>
    intro a ha
    cases ha
  | reschedule hr hfenced hsplit | complete hr hfenced hsplit =>
    exact houtcome (Or.inl (List.mem_singleton.mpr rfl)) hsplit
  | deadLetter hr hfenced hfree hsplit hadded =>
    refine houtcome (Or.inl (List.mem_singleton.mpr ?_)) hsplit
    exact (KeyedTable.key_of_find? hr).symm

/-- A transaction stays ready as long as the tasks it holds stay as they are. -/
theorem Ready.congr (hsame : ∀ id ∈ tx.held, db'.view id = db.view id) (h : Ready db tx) :
    Ready db' tx := by
  have htask : ∀ id ∈ tx.held, db'.task.find? id = db.task.find? id :=
    fun id hid => congrArg View.task (hsame id hid)
  have hdlq : ∀ id ∈ tx.held, db'.dlq.find? id = db.dlq.find? id :=
    fun id hid => congrArg View.dlq (hsame id hid)
  have hatt : ∀ id ∈ tx.held, db'.attemptsOf id = db.attemptsOf id :=
    fun id hid => congrArg View.attempts (hsame id hid)
  have hins : Insertable db tx.added → Insertable db' tx.added :=
    insertable_congr fun a ha => hatt _ (h.taskId_of_mem_added a ha)
  cases h with
  | enqueue hstorable hlook hsplit hadded =>
    obtain ⟨hnone, hnone'⟩ := Tables.lookupQueue_eq_none_iff.mp hlook
    refine .enqueue hstorable (Tables.lookupQueue_eq_none_iff.mpr ⟨?_, ?_⟩) hsplit (hins hadded)
    · exact (htask _ (Or.inl (List.mem_singleton.mpr rfl))).trans hnone
    · exact (hdlq _ (Or.inl (List.mem_singleton.mpr rfl))).trans hnone'
  | @recording queue limit c taken todo htakes hsplit =>
    have hrows : ∀ r ∈ c.rows, r.id ∈ Tx.held ⟨.claimDue queue limit c.lease c.now, .claim c,
        reclaims db c.now taken, .reclaims c todo⟩ :=
      fun r hr => Or.inl (List.mem_map_of_mem hr)
    have hsame' : reclaims db c.now taken = reclaims db' c.now taken := by
      refine (reclaims_congr fun r hr => ?_).symm
      exact hatt _ (hrows r (hsplit ▸ List.mem_append_left todo hr))
    rw [hsame']
    exact .recording (htakes.congr fun r hr => htask _ (hrows r hr)) hsplit
  | @loading queue limit c loaded todo htakes hsplit =>
    have hrows : ∀ r ∈ c.rows, r.id ∈ Tx.held ⟨.claimDue queue limit c.lease c.now, .claim c,
        reclaims db c.now c.rows,
        .loads c todo (loaded.map fun r => c.grant r (history db c.now r))⟩ :=
      fun r hr => Or.inl (List.mem_map_of_mem hr)
    have hsame' : reclaims db c.now c.rows = reclaims db' c.now c.rows :=
      (reclaims_congr fun r hr => hatt _ (hrows r hr)).symm
    have hloaded : (loaded.map fun r => c.grant r (history db c.now r)) =
        loaded.map fun r => c.grant r (history db' c.now r) := by
      apply List.map_congr_left
      intro r hr
      rw [history_congr (hatt _ (hrows r (hsplit ▸ List.mem_append_left todo hr)))]
    rw [hsame', hloaded]
    exact .loading (htakes.congr fun r hr => htask _ (hrows r hr)) hsplit
  | extend hr hfenced =>
    exact .extend ((htask _ (Or.inl (List.mem_singleton.mpr rfl))).trans hr) hfenced
  | reschedule hr hfenced hsplit hadded =>
    have hr' := (htask _ (Or.inl (List.mem_singleton.mpr rfl))).trans hr
    exact .reschedule hr' hfenced hsplit (hins hadded)
  | complete hr hfenced hsplit hadded =>
    have hr' := (htask _ (Or.inl (List.mem_singleton.mpr rfl))).trans hr
    exact .complete hr' hfenced hsplit (hins hadded)
  | deadLetter hr hfenced hfree hsplit hadded =>
    have hid := List.mem_singleton.mpr (KeyedTable.key_of_find? hr).symm
    have hr' := (htask _ (Or.inl hid)).trans hr
    exact .deadLetter hr' hfenced ((hdlq _ (Or.inl hid)).trans hfree) hsplit (hins hadded)
  | redrive hnd hfree hdead =>
    refine .redrive hnd (fun id hid => (htask id (Or.inl hid)).trans (hfree id hid)) ?_
    intro id hid
    rw [hdlq id (Or.inl hid)]
    exact hdead id hid
  | purge hnd hdead =>
    refine .purge hnd ?_
    intro id hid
    rw [hdlq id (Or.inr hid)]
    exact hdead id hid

end Congr

/-! ## What a commit changes -/

section Frame
variable {db : Database}

theorem not_mem_map_id_filter (db : Database) {id : TaskID} (h : id ∉ ids) :
    id ∉ (db.dlq.rows.filter fun d => decide (d.id ∈ ids)).map DlqRow.id := by
  intro hm
  obtain ⟨d, hd, rfl⟩ := List.mem_map.mp hm
  have hin := (List.mem_filter.mp hd).2
  exact h (of_decide_eq_true hin)

/-- A write changes nothing about tasks without a locked row. -/
theorem Write.view_apply (db : Database) (w : Write) {id : TaskID} (htask : id ∉ w.taskIds)
    (hdlq : id ∉ w.dlqIds) : (w.apply db).view id = db.view id := by
  cases w with
  | insertTask row =>
    have hne : row.id ≠ id := fun he => htask (List.mem_singleton.mpr he.symm)
    simp only [Write.apply, Database.view, Database.attemptsOf,
      KeyedTable.find?_insertNew_of_ne db.task hne]
  | claim c =>
    simp only [Write.apply, Database.view, Database.attemptsOf,
      Tables.find?_claimRows_of_not_mem htask]
    rfl
  | extendLease i lease now | reschedule i nextAt | complete i =>
    have hne : id ≠ i := fun he => htask (List.mem_singleton.mpr he)
    simp only [Write.apply, Database.view, Database.attemptsOf,
      KeyedTable.find?_modify_of_ne _ _ _ hne]
  | deadLetter dead =>
    have hne : id ≠ dead.id := fun he => htask (List.mem_singleton.mpr he)
    simp only [Write.apply, Database.view, Database.attemptsOf,
      KeyedTable.find?_erase_of_ne _ hne,
      KeyedTable.find?_insertNew_of_ne db.dlq (Ne.symm hne)]
  | redrive ids now =>
    have hid : id ∉ (db.dlq.rows.filter fun d => decide (d.id ∈ ids)).map DlqRow.id :=
      not_mem_map_id_filter db htask
    have hid' : id ∉ ((db.dlq.rows.filter fun d => decide (d.id ∈ ids)).map
        (DlqRow.redrive now)).map TaskRow.id := by
      rw [map_id_redrive]
      exact hid
    simp only [Write.apply, Database.view, Database.attemptsOf,
      ← List.foldl_map (f := DlqRow.redrive now) (g := KeyedTable.insertNew),
      KeyedTable.find?_foldl_insertNew_of_not_mem _ _ hid',
      KeyedTable.find?_deleteWhere_of_not_mem hid]
  | purge ids =>
    have hid : id ∉ ids := hdlq
    rw [Write.apply, view_deleteAttempts, if_neg hid,
      KeyedTable.find?_deleteWhere_of_not_mem (not_mem_map_id_filter db hid)]
    rfl

/-- A commit changes only the tasks the transaction holds. -/
theorem Ready.view_apply (h : Ready db tx) {id : TaskID} (hid : id ∉ tx.held) :
    (tx.apply db).view id = db.view id := by
  have hwrite : (tx.write.apply db).view id = db.view id :=
    Write.view_apply db tx.write (fun hm => hid (Or.inl hm)) (fun hm => hid (Or.inr hm))
  have hatt : (tx.apply db).attemptsOf id = (tx.write.apply db).attemptsOf id := by
    apply attemptsOf_addAttempts_of_ne
    intro a ha he
    exact hid (he ▸ h.taskId_of_mem_added a ha)
  rw [← hwrite]
  simp only [Database.view, hatt]
  rfl

/-- Open transactions under the row locks of Postgres. -/
def locking : RowLocking Database TaskID View Tx where
  view := Database.view
  held := Tx.held
  Ready := Ready
  commit := Tx.apply
  ready_congr := Ready.congr
  commit_frame := fun h hid => h.view_apply hid

end Frame

/-! ## What a commit amounts to -/

/-- The ids are those of all chosen dead letters that last. -/
def Covers (lasts : DlqRow → Prop) (queue : String) (sel : Selector) (ids : List TaskID) : Prop :=
  ∀ d, dlqSelects queue sel d = true → lasts d → d.id ∈ ids

/-- A call that does the same as a transaction of the call `op` that commits on `db`: the call
itself, or a Redrive or Purge by ids, of dead letters that its selector chooses and among them
all that last. -/
inductive Serves (lasts : DlqRow → Prop) (db : Database) : Op → Op → Prop
  | same (op : Op) : Serves lasts db op op
  | redrive {queue : String} {sel : Selector} {now : Time} {ids : List TaskID}
      (h : Selected db queue sel ids) (hall : Covers lasts queue sel ids) :
      Serves lasts db (.redrive queue sel now) (.redrive queue ⟨ids, none⟩ now)
  | purge {queue : String} {sel : Selector} {ids : List TaskID} (h : Selected db queue sel ids)
      (hall : Covers lasts queue sel ids) :
      Serves lasts db (.purge queue sel) (.purge queue ⟨ids, none⟩)

/-- Fewer rows that last ask for less. -/
theorem Serves.imp {lasts lasts' : DlqRow → Prop} (h : ∀ d, lasts' d → lasts d) {db : Database}
    {op op' : Op} (hs : Serves lasts db op op') : Serves lasts' db op op' := by
  cases hs with
  | same => exact .same op
  | redrive hsel hall => exact .redrive hsel fun d hd hl => hall d hd (h d hl)
  | purge hsel hall => exact .purge hsel fun d hd hl => hall d hd (h d hl)

/-- A Redrive or Purge has taken all chosen dead letters that last. -/
def Tx.Found (lasts : DlqRow → Prop) (tx : Tx) : Prop :=
  match tx.op, tx.write with
  | .redrive queue sel _, .redrive ids _ => Covers lasts queue sel ids
  | .purge queue sel, .purge ids => Covers lasts queue sel ids
  | _, _ => True

section Commit
variable {db : Database}

/-- A claim that sees exactly rows it may take takes all of them. -/
theorem Takes.dueRows_eq (h : Takes db queue limit now rows) :
    db.dueRows queue limit now (rows.map TaskRow.id) = rows := by
  have hscan : (rows.map TaskRow.id).dedup.filterMap db.task.find? = rows := by
    rw [h.nodup.dedup, List.filterMap_map]
    conv_rhs => rw [← List.filterMap_some (l := rows)]
    exact List.filterMap_congr h.found
  have hdue : (rows.filter fun r => decide (r.queue = queue) && r.isDue now) = rows := by
    apply List.filter_eq_self.mpr
    intro r hr
    simp [h.due r hr]
  simp only [Tables.dueRows, hscan, hdue]
  apply List.filter_eq_self.mpr
  intro r hr
  rw [List.take_of_length_le (by rw [List.length_insertionSort]; exact h.length_le)]
  simpa using hr

theorem filter_reclaims (hnd : (rows.map TaskRow.id).Nodup) (hr : r ∈ rows) :
    ((reclaims db now rows).filter fun a => decide (a.taskId = r.id)) = reclaimed db r now := by
  induction rows with
  | nil => cases hr
  | cons r' rows ih =>
    rw [List.map_cons, List.nodup_cons] at hnd
    rw [reclaims, List.flatMap_cons, List.filter_append]
    rcases List.mem_cons.mp hr with rfl | hr
    · -- the attempts of the other rows carry other ids
      have hown : ((reclaimed db r now).filter fun a => decide (a.taskId = r.id)) =
          reclaimed db r now := by
        apply List.filter_eq_self.mpr
        intro a ha
        exact decide_eq_true (taskId_of_mem_reclaimed ha)
      have hother : ((rows.flatMap fun r => reclaimed db r now).filter
          fun a => decide (a.taskId = r.id)) = [] := by
        apply List.filter_eq_nil_iff.mpr
        intro a ha he
        exact hnd.1 (of_decide_eq_true he ▸ taskId_of_mem_reclaims ha)
      rw [hown, hother, List.append_nil]
    · have hne : ((reclaimed db r' now).filter fun a => decide (a.taskId = r.id)) = [] := by
        apply List.filter_eq_nil_iff.mpr
        intro a ha he
        rw [taskId_of_mem_reclaimed ha, decide_eq_true_eq] at he
        exact hnd.1 (he ▸ List.mem_map_of_mem hr)
      rw [hne, List.nil_append]
      exact ih hnd.2 hr

/-- The history a claim hands out is the one before it, and the reclaimed lease. -/
theorem loadAttempts_claim (db : Database) (now : Time) (t : Tables)
    (hnd : (rows.map TaskRow.id).Nodup) (hr : r ∈ rows) :
    (Database.addAttempts { db with toTables := t } (reclaims db now rows)).loadAttempts r.id =
      history db now r := by
  have hins : Insertable { db with toTables := t } (reclaims db now rows) :=
    insertable_reclaims hnd
  rw [Database.loadAttempts, attemptsOf_addAttempts hins, filter_reclaims hnd hr]
  rfl

theorem claimDue_of_takes {c : Claim} (h : Takes db queue limit c.now c.rows) :
    db.claimDue queue limit c.lease c.now ⟨c.rows.map TaskRow.id, c.mint⟩ =
      ((Write.apply db (.claim c)).addAttempts (reclaims db c.now c.rows),
        .ok (c.rows.map fun r => c.grant r (history db c.now r))) := by
  have hpos := h.limit_pos
  have hloop := foldlM_recordReclaim_eq
    { db with toTables := db.claimRows c.now c.lease c.mint c.rows } c.now h.nodup
  have hsame : reclaims { db with toTables := db.claimRows c.now c.lease c.mint c.rows } c.now
      c.rows = reclaims db c.now c.rows := rfl
  rw [hsame] at hloop
  simp only [Database.claimDue, if_neg (not_le.mpr hpos), h.dueRows_eq, hloop]
  refine Prod.ext rfl (congrArg Except.ok (List.map_congr_left fun r hr => ?_))
  rw [loadAttempts_claim db c.now _ h.nodup hr]
  rfl

/-- Among the stored dead letters, a call by ids selects the rows under these ids. -/
theorem dlqSelects_ids (h : Selected db queue sel ids) {d : DlqRow} (hd : d ∈ db.dlq.rows) :
    dlqSelects queue ⟨ids, none⟩ d = decide (d.id ∈ ids) := by
  by_cases hid : d.id ∈ ids
  · obtain ⟨d', hd', hsel⟩ := h d.id hid
    have heq : d = d' := by
      have hfind := KeyedTable.find?_key_of_mem hd
      exact Option.some.inj (hfind.symm.trans hd')
    subst heq
    have hqueue : d.row.queue = queue := by
      simp only [dlqSelects, Bool.and_eq_true, decide_eq_true_eq] at hsel
      exact hsel.1
    have hne : ids ≠ [] := List.ne_nil_of_mem hid
    simp [dlqSelects, hqueue, hne, hid]
  · simp [dlqSelects, hid]

theorem filter_dlqSelects_ids (h : Selected db queue sel ids) :
    db.dlq.rows.filter (dlqSelects queue ⟨ids, none⟩) =
      db.dlq.rows.filter fun d => decide (d.id ∈ ids) :=
  List.filter_congr fun _ hd => dlqSelects_ids h hd

theorem deleteWhere_dlqSelects_ids (h : Selected db queue sel ids) :
    db.dlq.deleteWhere (dlqSelects queue ⟨ids, none⟩) =
      db.dlq.deleteWhere fun d => decide (d.id ∈ ids) :=
  KeyedTable.deleteWhere_eq_iff.mpr fun _ hd => dlqSelects_ids h hd

theorem mem_map_id_filter_iff (h : Selected db queue sel ids) {id : TaskID} :
    id ∈ (db.dlq.rows.filter fun d => decide (d.id ∈ ids)).map DlqRow.id ↔ id ∈ ids := by
  constructor
  · intro hm
    exact not_not.mp fun hid => not_mem_map_id_filter db hid hm
  · intro hid
    obtain ⟨d, hd, -⟩ := h id hid
    have hkey : d.id = id := KeyedTable.key_of_find? hd
    exact List.mem_map.mpr ⟨d, List.mem_filter.mpr
      ⟨KeyedTable.mem_of_find? hd, decide_eq_true (hkey ▸ hid)⟩, hkey⟩

theorem length_filter_ids (h : Selected db queue sel ids) (hnd : ids.Nodup) :
    (db.dlq.rows.filter fun d => decide (d.id ∈ ids)).length = ids.length := by
  rw [← List.length_map DlqRow.id]
  apply List.Perm.length_eq
  apply (List.perm_ext_iff_of_nodup
    ((List.filter_sublist.map DlqRow.id).nodup db.dlq.keys_nodup) hnd).mpr
  exact fun _ => mem_map_id_filter_iff h

theorem deleteAttempts_filter_ids {db' : Database} (h : Selected db queue sel ids) :
    db'.deleteAttempts ((db.dlq.rows.filter fun d => decide (d.id ∈ ids)).map DlqRow.id) =
      db'.deleteAttempts ids := by
  refine congrArg (Database.mk db'.toTables) (KeyedTable.deleteWhere_eq_iff.mpr fun a _ => ?_)
  simp only [mem_map_id_filter_iff h]

theorem spendClaim_of_fenced {id : TaskID} {token : ClaimToken} {att : Attempt}
    {f : TaskRow → TaskRow} {hf : ∀ r, (f r).id = r.id} (hr : db.task.find? id = some r)
    (hfenced : r.Fenced token) (hins : Insertable db [attemptRowFromAttempt id att]) :
    db.spendClaim id token att f hf =
      (Database.addAttempts { db with task := db.task.modify id f hf }
        [attemptRowFromAttempt id att], .ok ()) := by
  have hins' : Insertable { db with task := db.task.modify id f hf }
      [attemptRowFromAttempt id att] := hins
  rw [Database.spendClaim, fenced_eq_some hr hfenced]
  simp only [hins'.cons.1]

/-- When only the commit is left, the transaction does what the whole call does now. -/
theorem Ready.commit_eq (h : Ready db tx) {reply : Reply} (hreply : tx.rest.reply? = some reply)
    {lasts : DlqRow → Prop} (hfound : tx.Found lasts) (ch : Choice) :
    ∃ ch op, Serves lasts db tx.op op ∧ Postgres.step db ch op = (tx.apply db, reply) := by
  cases h with
  | @enqueue task added todo hstorable hlook hsplit hadded =>
    cases todo with
    | cons a todo => cases hreply
    | nil =>
      cases hreply
      rw [List.append_nil] at hsplit
      refine ⟨ch, _, .same _, ?_⟩
      have hins : Insertable
          { db with task := db.task.insertNew (taskRowFromEnvelope task) } added := hadded
      simp only [Postgres.step, Database.enqueue, hlook, if_pos hstorable, hsplit,
        foldlM_insertAttempt_of_insertable hins]
      rfl
  | recording => cases hreply
  | @loading queue limit c loaded todo htakes hsplit =>
    cases todo with
    | cons r todo => cases hreply
    | nil =>
      cases hreply
      rw [List.append_nil] at hsplit
      refine ⟨⟨c.rows.map TaskRow.id, c.mint⟩, _, .same _, ?_⟩
      rw [Postgres.step, claimDue_of_takes htakes, hsplit]
      rfl
  | extend hr hfenced =>
    cases hreply
    refine ⟨ch, _, .same _, ?_⟩
    rw [Postgres.step, Database.extendLease, fenced_eq_some hr hfenced]
    rfl
  | @reschedule id token att nextAt r added todo hr hfenced hsplit hadded =>
    obtain ⟨rfl, rfl⟩ | ⟨rfl, rfl⟩ := List.append_eq_singleton_iff.mp hsplit.symm
    · cases hreply
    · cases hreply
      refine ⟨ch, _, .same _, ?_⟩
      rw [Postgres.step, Database.reschedule, spendClaim_of_fenced hr hfenced hadded]
      rfl
  | @complete id token att now r added todo hr hfenced hsplit hadded =>
    obtain ⟨rfl, rfl⟩ | ⟨rfl, rfl⟩ := List.append_eq_singleton_iff.mp hsplit.symm
    · cases hreply
    · cases hreply
      refine ⟨ch, _, .same _, ?_⟩
      rw [Postgres.step, Database.complete, spendClaim_of_fenced hr hfenced hadded]
      rfl
  | @deadLetter id token att now r added todo hr hfenced hfree hsplit hadded =>
    obtain ⟨rfl, rfl⟩ | ⟨rfl, rfl⟩ := List.append_eq_singleton_iff.mp hsplit.symm
    · cases hreply
    · cases hreply
      have hkey : r.id = id := KeyedTable.key_of_find? hr
      have hid : (r.deadLetter now (errType att)).id = id := hkey
      have hins : Insertable { db with
          task := db.task.erase id, dlq := db.dlq.insertNew (r.deadLetter now (errType att)) }
          [attemptRowFromAttempt id att] := hadded
      refine ⟨ch, _, .same _, ?_⟩
      simp only [Postgres.step, Database.deadLetter, fenced_eq_some hr hfenced, hid,
        if_pos hfree, hins.cons.1, Tx.apply, Write.apply]
      rfl
  | redrive hnd hfree hdead =>
    cases hreply
    refine ⟨ch, _, .redrive hdead hfound, ?_⟩
    have hall : ∀ d ∈ db.dlq.rows.filter (fun d => decide (d.id ∈ _)),
        db.task.find? d.id = none :=
      fun d hd => hfree _ (of_decide_eq_true (List.mem_filter.mp hd).2)
    simp only [Postgres.step, Database.redrive, filter_dlqSelects_ids hdead,
      deleteWhere_dlqSelects_ids hdead, if_pos hall, length_filter_ids hdead hnd]
    rfl
  | purge hnd hdead =>
    cases hreply
    refine ⟨ch, _, .purge hdead hfound, ?_⟩
    simp only [Postgres.step, Database.purge, filter_dlqSelects_ids hdead,
      deleteWhere_dlqSelects_ids hdead, length_filter_ids hdead hnd,
      deleteAttempts_filter_ids hdead]
    rfl

end Commit

/-! ## The statements between the write and the commit -/

section Next
variable {db : Database}

theorem spendClaim_blocked {id : TaskID} {token : ClaimToken} {att : Attempt}
    {f : TaskRow → TaskRow} {hf : ∀ r, (f r).id = r.id} (hr : db.task.find? id = some r)
    (hfenced : r.Fenced token)
    (hnone : Database.insertAttempt { db with task := db.task.modify id f hf }
      (attemptRowFromAttempt id att) = none) :
    db.spendClaim id token att f hf =
      (db, .error (.uniqueViolation "rdq/postgres: recording attempt")) := by
  rw [Database.spendClaim, fenced_eq_some hr hfenced]
  simp only [hnone]

/-- The next attempt is recorded, or its number is taken. -/
theorem next_attempts {op : Op} {w : Write} {added todo : List AttemptRow}
    (hadded : Insertable (w.apply db) added) :
    Tx.next ⟨op, w, added, .attempts (a :: todo)⟩ db =
        .opened ⟨op, w, added ++ [a], .attempts todo⟩ ∧ Insertable (w.apply db) (added ++ [a]) ∨
      Tx.next ⟨op, w, added, .attempts (a :: todo)⟩ db =
        .ended (.failed (.uniqueViolation (recordingContext op))) ∧
          ((w.apply db).addAttempts added).insertAttempt a = none := by
  cases hins : ((w.apply db).addAttempts added).insertAttempt a with
  | some db' =>
    refine Or.inl ⟨?_, hadded.concat hins⟩
    simp only [Tx.next, Tx.apply, hins]
  | none =>
    refine Or.inr ⟨?_, rfl⟩
    simp only [Tx.next, Tx.apply, hins]

/-- Before its commit a transaction goes on, or is refused as the whole call is now. -/
theorem Ready.next_spec (h : Ready db tx) (hreply : tx.rest.reply? = none) (ch : Choice) :
    (∃ tx', tx.next db = .opened tx' ∧ tx'.op = tx.op ∧ tx'.write = tx.write ∧ Ready db tx') ∨
      ∃ e, tx.next db = .ended (.failed e) ∧ Postgres.step db ch tx.op = (db, .failed e) := by
  cases h with
  | @enqueue task added todo hstorable hlook hsplit hadded =>
    cases todo with
    | nil => cases hreply
    | cons a todo =>
      have hadded' : Insertable (Write.apply db (.insertTask (taskRowFromEnvelope task)))
        added := hadded
      rcases @next_attempts a db (.enqueue task) _ added todo hadded' with
        ⟨hnext, hins⟩ | ⟨hnext, hnone⟩
      · refine Or.inl ⟨_, hnext, rfl, rfl, .enqueue hstorable hlook ?_ hins⟩
        rw [hsplit, List.append_cons]
      · refine Or.inr ⟨_, hnext, ?_⟩
        have hloop : (attemptRowsFromEnvelope task).foldlM Database.insertAttempt
            { db with task := db.task.insertNew (taskRowFromEnvelope task) } = none := by
          rw [hsplit]
          exact foldlM_insertAttempt_blocked hadded' hnone
        simp only [Postgres.step, Database.enqueue, hlook, if_pos hstorable, hloop]
        rfl
  | @recording queue limit c taken todo htakes hsplit =>
    cases todo with
    | nil =>
      rw [List.append_nil] at hsplit
      refine Or.inl ⟨_, rfl, rfl, rfl, ?_⟩
      rw [← hsplit]
      exact .loading htakes (List.nil_append _).symm
    | cons r todo =>
      have hnd := htakes.nodup
      rw [hsplit, List.map_append, List.nodup_append] at hnd
      have hsame : reclaimed (Tx.apply ⟨.claimDue queue limit c.lease c.now, .claim c,
          reclaims db c.now taken, .reclaims c (r :: todo)⟩ db) r c.now =
            reclaimed db r c.now := by
        apply reclaimed_congr
        apply attemptsOf_addAttempts_of_ne
        intro a ha
        exact hnd.2.2 _ (taskId_of_mem_reclaims ha) _ List.mem_cons_self
      refine Or.inl ⟨⟨.claimDue queue limit c.lease c.now, .claim c,
        reclaims db c.now (taken ++ [r]), .reclaims c todo⟩, ?_, rfl, rfl, ?_⟩
      · simp only [Tx.next, recordReclaim_eq, hsame]
        rw [reclaims, reclaims, List.flatMap_append, List.flatMap_singleton]
      · exact .recording htakes (by rw [hsplit, List.append_cons])
  | @loading queue limit c loaded todo htakes hsplit =>
    cases todo with
    | nil => cases hreply
    | cons r todo =>
      have hr : r ∈ c.rows := hsplit ▸ List.mem_append_right loaded List.mem_cons_self
      refine Or.inl ⟨⟨.claimDue queue limit c.lease c.now, .claim c,
        reclaims db c.now c.rows,
        .loads c todo ((loaded ++ [r]).map fun r => c.grant r (history db c.now r))⟩,
        ?_, rfl, rfl, ?_⟩
      · have hload := loadAttempts_claim db c.now
          (db.claimRows c.now c.lease c.mint c.rows) htakes.nodup hr
        simp only [Tx.next, Tx.apply, Write.apply, hload, List.map_append, List.map_cons,
          List.map_nil]
      · exact .loading htakes (by rw [hsplit, List.append_cons])
  | extend | redrive | purge => cases hreply
  | @reschedule id token att nextAt r added todo hr hfenced hsplit hadded =>
    obtain ⟨rfl, rfl⟩ | ⟨rfl, rfl⟩ := List.append_eq_singleton_iff.mp hsplit.symm
    · rcases next_attempts (w := .reschedule id nextAt) hadded with ⟨hnext, hins⟩ | ⟨hnext, hnone⟩
      · exact Or.inl ⟨_, hnext, rfl, rfl, .reschedule hr hfenced rfl hins⟩
      · refine Or.inr ⟨_, hnext, ?_⟩
        rw [Postgres.step, Database.reschedule, spendClaim_blocked hr hfenced hnone]
        rfl
    · cases hreply
  | @complete id token att now r added todo hr hfenced hsplit hadded =>
    obtain ⟨rfl, rfl⟩ | ⟨rfl, rfl⟩ := List.append_eq_singleton_iff.mp hsplit.symm
    · rcases next_attempts (w := .complete id) hadded with ⟨hnext, hins⟩ | ⟨hnext, hnone⟩
      · exact Or.inl ⟨_, hnext, rfl, rfl, .complete hr hfenced rfl hins⟩
      · refine Or.inr ⟨_, hnext, ?_⟩
        rw [Postgres.step, Database.complete, spendClaim_blocked hr hfenced hnone]
        rfl
    · cases hreply
  | @deadLetter id token att now r added todo hr hfenced hfree hsplit hadded =>
    obtain ⟨rfl, rfl⟩ | ⟨rfl, rfl⟩ := List.append_eq_singleton_iff.mp hsplit.symm
    · have hkey : r.id = id := KeyedTable.key_of_find? hr
      have hid : (r.deadLetter now (errType att)).id = id := hkey
      rcases next_attempts (w := .deadLetter (r.deadLetter now (errType att))) hadded with
        ⟨hnext, hins⟩ | ⟨hnext, hnone⟩
      · exact Or.inl ⟨_, hnext, rfl, rfl, .deadLetter hr hfenced hfree rfl hins⟩
      · refine Or.inr ⟨_, hnext, ?_⟩
        simp only [Write.apply, addAttempts_nil, hid] at hnone
        simp only [Postgres.step, Database.deadLetter, fenced_eq_some hr hfenced, hid,
          if_pos hfree, hnone]
        rfl
    · cases hreply

end Next

/-! ## Locks on two tables -/

section Apart
variable {db : Database} {tx u : Tx} {id : TaskID}

/-- A task held in `rdq_task` alone is no dead letter. -/
theorem Ready.dlq_eq_none (h : Ready db tx) (home : OneHome db.toTables)
    (htask : id ∈ tx.write.taskIds)
    (hdlq : id ∉ tx.write.dlqIds) : db.dlq.find? id = none := by
  have hstored : ∀ {r : TaskRow}, db.task.find? id = some r → db.dlq.find? id = none :=
    fun hr => (home id).resolve_left fun hnone => Option.some_ne_none _ (hr.symm.trans hnone)
  cases h with
  | enqueue hstorable hlook =>
    rw [List.mem_singleton.mp htask]
    exact (Tables.lookupQueue_eq_none_iff.mp hlook).2
  | recording htakes | loading htakes =>
    obtain ⟨r, hr, rfl⟩ := List.mem_map.mp htask
    exact hstored (htakes.found r hr)
  | extend hr | reschedule hr | complete hr =>
    rw [List.mem_singleton.mp htask] at hstored ⊢
    exact hstored hr
  | deadLetter | redrive => exact absurd htask hdlq
  | purge => cases htask

/-- A task held in `rdq_dlq_task` alone is a dead letter. -/
theorem Ready.dlq_ne_none (h : Ready db tx) (htask : id ∉ tx.write.taskIds)
    (hdlq : id ∈ tx.write.dlqIds) : db.dlq.find? id ≠ none := by
  cases h with
  | purge hnd hdead =>
    obtain ⟨d, hd, -⟩ := hdead id hdlq
    rw [hd]
    exact Option.some_ne_none d
  | deadLetter | redrive => exact absurd hdlq htask
  | _ => cases hdlq

/-- Transactions that lock different rows in each table hold different tasks. -/
theorem Ready.disjoint (home : OneHome db.toTables) (h : Ready db tx) (h' : Ready db u)
    (htask : ∀ id ∈ tx.write.taskIds, id ∉ u.write.taskIds)
    (hdlq : ∀ id ∈ tx.write.dlqIds, id ∉ u.write.dlqIds) : Disjoint tx.held u.held := by
  apply Set.disjoint_left.mpr
  rintro id (ht | hd) (ht' | hd')
  · exact htask id ht ht'
  · exact h'.dlq_ne_none (htask id ht) hd' (h.dlq_eq_none home ht fun hd => hdlq id hd hd')
  · exact h.dlq_ne_none (fun ht => htask id ht ht') hd
      (h'.dlq_eq_none home ht' fun hd' => hdlq id hd hd')
  · exact hdlq id hd hd'

end Apart

end Statements

end Rdq.Postgres
