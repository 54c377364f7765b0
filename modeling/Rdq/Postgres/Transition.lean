import Rdq.Postgres.Store

/-!
# What one transaction does to one task

A `View` is everything the tables hold about one task: its row in either table
and its attempts in the order in which they were written. `Change` lists every
way in which a transaction can turn one view into another, with its guard, and
`step_change` is the only place where the transactions are taken apart.

The two sources of attempt numbers are described next to it. A reclaimed lease
is numbered past every stored attempt, so a claim is never refused. An outcome
is refused only when its number, or the task's place in `rdq_dlq_task`, is taken.
-/

namespace Rdq.Postgres

open Rdq.Foundation

/-- What the tables hold about one task. -/
structure View where
  task : Option TaskRow
  dlq : Option DlqRow
  attempts : List AttemptRow

/-- The attempts as the workers see them. -/
def View.history (v : View) : List Attempt := v.attempts.map attemptFromRow

def Database.view (db : Database) (id : TaskID) : View :=
  ⟨db.task.find? id, db.dlq.find? id, db.attemptsOf id⟩

/-- The attempts a claim of `r` adds to those already stored. -/
def reclaimed (db : Database) (r : TaskRow) (now : Time) : List AttemptRow :=
  if r.status = .inFlight then [db.leaseExpiredRow r now] else []

/-- The ways in which a call `op` on `db` changes the view of the task `id`. -/
inductive Change (db : Database) (ch : Choice) (op : Op) (id : TaskID) : View → View → Prop
  | keep (v : View) : Change db ch op id v v
  | admitted (task : Envelope) (atts : List AttemptRow) (hop : op = .enqueue task)
      (hid : task.id = id) :
      Change db ch op id ⟨none, none, atts⟩
        ⟨some (taskRowFromEnvelope task), none, atts ++ attemptRowsFromEnvelope task⟩
  | claim (r : TaskRow) (d : Option DlqRow) (queue : String) (limit : Int) (lease : Duration)
      (now : Time) (hop : op = .claimDue queue limit lease now) (hdue : r.isDue now = true) :
      Change db ch op id ⟨some r, d, db.attemptsOf r.id⟩
        ⟨some (r.claim now lease (ch.mint r.id)), d,
          db.attemptsOf r.id ++ reclaimed db r now⟩
  | extend (r : TaskRow) (d : Option DlqRow) (atts : List AttemptRow) (token : ClaimToken)
      (lease : Duration) (now : Time) (hop : op = .extendLease r.id token lease now)
      (hfenced : r.Fenced token) :
      Change db ch op id ⟨some r, d, atts⟩ ⟨some (r.extendLease now lease), d, atts⟩
  | reschedule (r : TaskRow) (d : Option DlqRow) (atts : List AttemptRow) (token : ClaimToken)
      (att : Attempt) (nextAt : Time) (hop : op = .reschedule r.id token att nextAt)
      (hfenced : r.Fenced token) :
      Change db ch op id ⟨some r, d, atts⟩
        ⟨some (r.reschedule nextAt), d, atts ++ [attemptRowFromAttempt r.id att]⟩
  | complete (r : TaskRow) (d : Option DlqRow) (atts : List AttemptRow) (token : ClaimToken)
      (att : Attempt) (now : Time) (hop : op = .complete r.id token att now)
      (hfenced : r.Fenced token) :
      Change db ch op id ⟨some r, d, atts⟩
        ⟨some r.complete, d, atts ++ [attemptRowFromAttempt r.id att]⟩
  | deadLetter (r : TaskRow) (atts : List AttemptRow) (token : ClaimToken) (att : Attempt)
      (now : Time) (hop : op = .deadLetter r.id token att now) (hfenced : r.Fenced token) :
      Change db ch op id ⟨some r, none, atts⟩
        ⟨none, some (r.deadLetter now (errType att)),
          atts ++ [attemptRowFromAttempt r.id att]⟩
  | redrive (d : DlqRow) (atts : List AttemptRow) (queue : String) (sel : Selector) (now : Time)
      (hop : op = .redrive queue sel now) (hsel : dlqSelects queue sel d = true) :
      Change db ch op id ⟨none, some d, atts⟩ ⟨some (d.redrive now), none, atts⟩
  | purge (r : Option TaskRow) (d : DlqRow) (atts : List AttemptRow) (queue : String)
      (sel : Selector) (hop : op = .purge queue sel) (hsel : dlqSelects queue sel d = true) :
      Change db ch op id ⟨r, some d, atts⟩ ⟨r, none, []⟩
  | sweep (r : TaskRow) (d : Option DlqRow) (atts : List AttemptRow) (queue : String)
      (olderThan : Time) (hop : op = .purgeSucceeded queue olderThan)
      (hdone : r.status = .succeeded) :
      Change db ch op id ⟨some r, d, atts⟩ ⟨none, d, []⟩

/-! ## The attempts table -/

variable {token : ClaimToken} {r : TaskRow} {i : TaskID}

section Attempts
variable {db db' : Database} {a : AttemptRow}

/-- An attempt is stored exactly when its number is free, after all others. -/
theorem insertAttempt_eq_some_iff :
    db.insertAttempt a = some db' ↔
      db.attempt.find? a.key = none ∧ db' = { db with attempt := db.attempt.insertNew a } := by
  unfold Database.insertAttempt
  split
  · rename_i h
    simp [h, eq_comm]
  · rename_i h
    simp [h]

theorem find?_attempt_eq_none_iff :
    db.attempt.find? a.key = none ↔
      ∀ b ∈ db.attemptsOf a.taskId, b.attemptNo ≠ a.attemptNo := by
  rw [KeyedTable.find?_eq_none_iff]
  simp only [Database.attemptsOf, List.mem_filter, decide_eq_true_eq, AttemptRow.key, ne_eq,
    Prod.mk.injEq, not_and, and_imp]

/-- An attempt whose number its task does not have yet is stored. -/
theorem insertAttempt_of_free (db : Database) (a : AttemptRow)
    (h : ∀ b ∈ db.attemptsOf a.taskId, b.attemptNo ≠ a.attemptNo) :
    db.insertAttempt a = some { db with attempt := db.attempt.insertNew a } :=
  insertAttempt_eq_some_iff.mpr ⟨find?_attempt_eq_none_iff.mpr h, rfl⟩

theorem attemptsOf_insertAttempt (h : db.insertAttempt a = some db') (id : TaskID) :
    db'.attemptsOf id = db.attemptsOf id ++ if a.taskId = id then [a] else [] := by
  obtain ⟨hfree, rfl⟩ := insertAttempt_eq_some_iff.mp h
  simp only [Database.attemptsOf, KeyedTable.rows_insertNew hfree, List.filter_append]
  congr 1
  split <;> simp_all

/-- What an outcome call leaves once its attempt is stored. -/
theorem view_insertAttempt {att : Attempt}
    (h : db.insertAttempt (attemptRowFromAttempt i att) = some db') (id : TaskID) :
    db'.view id =
      ⟨db.task.find? id, db.dlq.find? id,
        db.attemptsOf id ++ if i = id then [attemptRowFromAttempt i att] else []⟩ := by
  have hatt := attemptsOf_insertAttempt h id
  change _ = db.attemptsOf id ++ if i = id then _ else [] at hatt
  rw [← hatt]
  obtain ⟨_, rfl⟩ := insertAttempt_eq_some_iff.mp h
  rfl

theorem view_deleteAttempts (ids : List TaskID) (id : TaskID) :
    (db.deleteAttempts ids).view id =
      ⟨db.task.find? id, db.dlq.find? id, if id ∈ ids then [] else db.attemptsOf id⟩ := by
  simp only [Database.view, Database.attemptsOf, Database.deleteAttempts,
    KeyedTable.deleteWhere, List.filter_filter, View.mk.injEq, true_and]
  split
  · rename_i h
    apply List.filter_eq_nil_iff.mpr
    simp +contextual [h]
  · rename_i h
    apply List.filter_congr
    intro b _
    by_cases hb : b.taskId = id <;> simp [hb, h]

end Attempts

/-! ## The claim loop -/

section Claim
variable (db : Database)

theorem attemptNo_le_max {id : TaskID} {a : AttemptRow} (ha : a ∈ db.attemptsOf id) :
    a.attemptNo ≤ db.maxAttemptNo id := by
  have hmem : a.attemptNo ∈ (db.attemptsOf id).map AttemptRow.attemptNo :=
    List.mem_map_of_mem ha
  unfold Database.maxAttemptNo
  cases h : ((db.attemptsOf id).map AttemptRow.attemptNo).max? with
  | none =>
    rw [List.max?_eq_none_iff.mp h] at hmem
    cases hmem
  | some m => exact (List.max?_eq_some_iff.mp h).2 _ hmem

theorem reclaimed_congr {db db' : Database} (h : db'.attemptsOf r.id = db.attemptsOf r.id)
    (now : Time) :
    reclaimed db' r now = reclaimed db r now := by
  simp only [reclaimed, Database.leaseExpiredRow, Database.maxAttemptNo, h]

/-- Recording a reclaimed lease is never refused, because its number is past
every stored one. -/
theorem recordReclaim_spec (now : Time) (r : TaskRow) :
    ∃ db', db.recordReclaim now r = some db' ∧ db'.task = db.task ∧ db'.dlq = db.dlq ∧
      ∀ id, db'.attemptsOf id =
        db.attemptsOf id ++ if r.id = id then reclaimed db r now else [] := by
  unfold Database.recordReclaim reclaimed
  by_cases hst : r.status = .inFlight
  · have hins := insertAttempt_of_free db (db.leaseExpiredRow r now) (by
      intro b hb
      have hle : b.attemptNo ≤ db.maxAttemptNo r.id := attemptNo_le_max db hb
      have hno : (db.leaseExpiredRow r now).attemptNo = db.maxAttemptNo r.id + 1 := rfl
      omega)
    rw [if_pos hst, if_pos hst]
    exact ⟨_, hins, rfl, rfl, attemptsOf_insertAttempt hins⟩
  · rw [if_neg hst, if_neg hst]
    exact ⟨db, rfl, rfl, rfl, by simp⟩

/-- The loop over the claimed rows adds to each task what its own claim adds. -/
theorem foldlM_recordReclaim (now : Time) (rows : List TaskRow)
    (hnd : (rows.map TaskRow.id).Nodup) :
    ∃ db', rows.foldlM (fun db r => db.recordReclaim now r) db = some db' ∧
      db'.task = db.task ∧ db'.dlq = db.dlq ∧
      (∀ id ∉ rows.map TaskRow.id, db'.attemptsOf id = db.attemptsOf id) ∧
      ∀ r ∈ rows, db'.attemptsOf r.id = db.attemptsOf r.id ++ reclaimed db r now := by
  induction rows generalizing db with
  | nil => exact ⟨db, rfl, rfl, rfl, by simp, by simp⟩
  | cons r rows ih =>
    simp only [List.map_cons, List.nodup_cons] at hnd
    obtain ⟨db₁, h₁, htask₁, hdlq₁, hatt₁⟩ := recordReclaim_spec db now r
    obtain ⟨db₂, h₂, htask₂, hdlq₂, hother, hown⟩ := ih db₁ hnd.2
    refine ⟨db₂, ?_, htask₂.trans htask₁, hdlq₂.trans hdlq₁, ?_, ?_⟩
    · rw [List.foldlM_cons, h₁]
      exact h₂
    · intro id hid
      simp only [List.map_cons, List.mem_cons, not_or] at hid
      rw [hother id hid.2, hatt₁, if_neg (Ne.symm hid.1), List.append_nil]
    · intro r' hr'
      rcases List.mem_cons.mp hr' with rfl | hr'
      · rw [hother _ hnd.1, hatt₁, if_pos rfl]
      · have hne : r.id ≠ r'.id := fun he => hnd.1 (he ▸ List.mem_map_of_mem hr')
        have hsame : db₁.attemptsOf r'.id = db.attemptsOf r'.id := by
          rw [hatt₁, if_neg hne, List.append_nil]
        rw [hown r' hr', hsame, reclaimed_congr hsame]

variable {db} {queue : String} {limit : Int} {now : Time} {scan : List TaskID}

theorem mem_dueRows (h : r ∈ db.dueRows queue limit now scan) :
    db.task.find? r.id = some r ∧ r.queue = queue ∧ r.isDue now = true := by
  have hdue := List.mem_of_mem_filter (List.mem_of_mem_filter h)
  obtain ⟨id, _, hid⟩ := List.mem_filterMap.mp hdue
  have hp := List.of_mem_filter (List.mem_of_mem_filter h)
  simp only [Bool.and_eq_true, decide_eq_true_eq] at hp
  rw [KeyedTable.key_of_find? hid]
  exact ⟨hid, hp⟩

/-- No task is claimed twice by one call. -/
theorem dueRows_ids_nodup : ((db.dueRows queue limit now scan).map TaskRow.id).Nodup := by
  have hsub : List.Sublist (db.dueRows queue limit now scan)
      (scan.dedup.filterMap db.task.find?) :=
    List.filter_sublist.trans List.filter_sublist
  refine (hsub.map TaskRow.id).nodup ?_
  rw [List.map_filterMap]
  refine (List.nodup_dedup scan).filterMap ?_
  intro id id' x hx hx'
  obtain ⟨r, hr, rfl⟩ := Option.map_eq_some_iff.mp hx
  obtain ⟨r', hr', heq⟩ := Option.map_eq_some_iff.mp hx'
  rw [← KeyedTable.key_of_find? hr, ← KeyedTable.key_of_find? hr', heq]

/-- A claim is never refused: it claims the due rows, records the reclaimed
leases, and hands out every task as it is stored afterwards. -/
theorem claimDue_spec (db : Database) (queue : String) {limit : Int} (hlimit : 0 < limit)
    (lease : Duration) (now : Time) (ch : Choice) :
    let rows := db.dueRows queue limit now ch.scan
    ∃ db', db.claimDue queue limit lease now ch =
        (db', .ok (rows.map fun r =>
          { task := envelopeFromRows (r.claim now lease (ch.mint r.id)) (db'.loadAttempts r.id)
            token := ch.mint r.id })) ∧
      db'.task = (db.claimRows now lease ch.mint rows).task ∧ db'.dlq = db.dlq ∧
      (∀ id ∉ rows.map TaskRow.id, db'.attemptsOf id = db.attemptsOf id) ∧
      ∀ r ∈ rows, db'.attemptsOf r.id = db.attemptsOf r.id ++ reclaimed db r now := by
  intro rows
  obtain ⟨db', hfold, htask, hdlq, hother, hown⟩ :=
    foldlM_recordReclaim { db with toTables := db.claimRows now lease ch.mint rows } now rows
      dueRows_ids_nodup
  refine ⟨db', ?_, htask, hdlq, hother, hown⟩
  unfold Database.claimDue
  rw [if_neg (by omega)]
  dsimp only
  rw [hfold]

end Claim

/-! ## One transaction, one task -/

section Change
variable (db : Database) (ch : Choice) (id : TaskID)

theorem foldlM_insertAttempt {db db' : Database} {as : List AttemptRow}
    (h : as.foldlM Database.insertAttempt db = some db') :
    db'.task = db.task ∧ db'.dlq = db.dlq ∧
      ∀ id, db'.attemptsOf id = db.attemptsOf id ++ as.filter fun a => a.taskId = id := by
  induction as generalizing db with
  | nil =>
    cases h
    simp
  | cons a as ih =>
    rw [List.foldlM_cons] at h
    obtain ⟨db₁, h₁, h₂⟩ := Option.bind_eq_some_iff.mp h
    obtain ⟨htask, hdlq, hatt⟩ := ih h₂
    obtain ⟨_, rfl⟩ := insertAttempt_eq_some_iff.mp h₁
    refine ⟨htask, hdlq, fun id => ?_⟩
    rw [hatt id, attemptsOf_insertAttempt h₁]
    by_cases hid : a.taskId = id <;> simp [hid]

theorem enqueue_change (task : Envelope) :
    Change db ch (.enqueue task) id (db.view id) ((db.enqueue task).1.view id) := by
  unfold Database.enqueue
  split
  · exact .keep _
  · rename_i hlook
    split
    · dsimp only
      split
      · rename_i db' hfold
        obtain ⟨htask, hdlq, hatt⟩ := foldlM_insertAttempt hfold
        obtain ⟨hnone, hnone'⟩ := Tables.lookupQueue_eq_none_iff.mp hlook
        have hrows : ∀ a ∈ attemptRowsFromEnvelope task, a.taskId = task.id := by
          simp [attemptRowsFromEnvelope, attemptRowFromAttempt]
        simp only [Database.view, htask, hdlq, hatt]
        by_cases hid : task.id = id
        · subst hid
          have hnew : (db.task.insertNew (taskRowFromEnvelope task)).find? task.id =
              some (taskRowFromEnvelope task) := KeyedTable.find?_insertNew_self hnone
          rw [hnew, hnone, hnone', List.filter_eq_self.mpr (by simpa using hrows)]
          exact .admitted task _ rfl rfl
        · have hother : (db.task.insertNew (taskRowFromEnvelope task)).find? id =
              db.task.find? id := KeyedTable.find?_insertNew_of_ne _ hid
          have hnil : ((attemptRowsFromEnvelope task).filter fun a => a.taskId = id) = [] := by
            apply List.filter_eq_nil_iff.mpr
            intro a ha
            simp [hrows a ha, hid]
          rw [hother, hnil, List.append_nil]
          exact .keep _
      · exact .keep _
    · exact .keep _

theorem claimDue_change (queue : String) (limit : Int) (lease : Duration) (now : Time) :
    Change db ch (.claimDue queue limit lease now) id (db.view id)
      ((db.claimDue queue limit lease now ch).1.view id) := by
  by_cases hlimit : 0 < limit
  · obtain ⟨db', heq, htask, hdlq, hother, hown⟩ := claimDue_spec db queue hlimit lease now ch
    rw [heq]
    simp only [Database.view, htask, hdlq]
    by_cases hid : id ∈ (db.dueRows queue limit now ch.scan).map TaskRow.id
    · obtain ⟨r, hr, rfl⟩ := List.mem_map.mp hid
      obtain ⟨hfind, _, hdue⟩ := mem_dueRows hr
      rw [Tables.find?_claimRows_of_mem hfind hid, hfind, hown r hr]
      exact .claim r _ queue limit lease now rfl hdue
    · rw [Tables.find?_claimRows_of_not_mem hid, hother id hid]
      exact .keep _
  · rw [Database.claimDue, if_pos (by omega)]
    exact .keep _

/-- A fenced statement finds the row of a live claim, or nothing. -/
theorem filter_fenced_eq_some {db : Database}
    (h : ((db.task.find? i).filter fun r => r.Fenced token) = some r) :
    db.task.find? i = some r ∧ r.id = i ∧ r.Fenced token := by
  obtain ⟨hfind, hf⟩ := Option.filter_eq_some_iff.mp h
  exact ⟨hfind, KeyedTable.key_of_find? hfind, of_decide_eq_true hf⟩

theorem fenced_eq_some {db : Database} {id : TaskID} (hr : db.task.find? id = some r)
    (hfenced : r.Fenced token) :
    ((db.task.find? id).filter fun r => r.Fenced token) = some r := by
  rw [hr, Option.filter_some, if_pos (decide_eq_true hfenced)]

theorem extendLease_change (i : TaskID) (token : ClaimToken) (lease : Duration) (now : Time) :
    Change db ch (.extendLease i token lease now) id (db.view id)
      ((db.extendLease i token lease now).1.view id) := by
  unfold Database.extendLease
  split
  · exact .keep _
  · rename_i r hr
    obtain ⟨hfind, rfl, hf⟩ := filter_fenced_eq_some hr
    by_cases hid : id = r.id
    · subst hid
      simp only [Database.view, Database.attemptsOf, KeyedTable.find?_modify_self, hfind,
        Option.map_some]
      exact .extend r _ _ token lease now rfl hf
    · simp only [Database.view, Database.attemptsOf, KeyedTable.find?_modify_of_ne _ _ _ hid]
      exact .keep _

/-- A fenced update with its attempt changes nothing, or exactly the claimed task. -/
theorem spendClaim_view (i : TaskID) (token : ClaimToken) (att : Attempt)
    (f : TaskRow → TaskRow) (hf : ∀ r, (f r).id = r.id) :
    (db.spendClaim i token att f hf).1.view id = db.view id ∨
      ∃ r, db.task.find? id = some r ∧ r.id = i ∧ r.Fenced token ∧
        (db.spendClaim i token att f hf).1.view id =
          ⟨some (f r), db.dlq.find? id,
            db.attemptsOf id ++ [attemptRowFromAttempt r.id att]⟩ := by
  unfold Database.spendClaim
  split
  · exact Or.inl rfl
  · rename_i r hr
    obtain ⟨hfind, rfl, hfenced⟩ := filter_fenced_eq_some hr
    dsimp only
    split
    · rename_i db' hins
      rw [view_insertAttempt hins]
      by_cases hid : id = r.id
      · subst hid
        refine Or.inr ⟨r, hfind, rfl, hfenced, ?_⟩
        simp only [Database.attemptsOf, KeyedTable.find?_modify_self, hfind, Option.map_some,
          if_true]
      · left
        simp only [Database.view, Database.attemptsOf, KeyedTable.find?_modify_of_ne _ _ _ hid,
          if_neg (Ne.symm hid), List.append_nil]
    · exact Or.inl rfl

theorem reschedule_change (i : TaskID) (token : ClaimToken) (att : Attempt) (nextAt : Time) :
    Change db ch (.reschedule i token att nextAt) id (db.view id)
      ((db.reschedule i token att nextAt).1.view id) := by
  rcases spendClaim_view db id i token att _ (TaskRow.id_reschedule nextAt) with
    h | ⟨r, hfind, rfl, hfenced, h⟩
  · rw [Database.reschedule, h]
    exact .keep _
  · rw [Database.reschedule, h, Database.view, hfind]
    exact .reschedule r _ _ token att nextAt rfl hfenced

theorem complete_change (i : TaskID) (token : ClaimToken) (att : Attempt) (now : Time) :
    Change db ch (.complete i token att now) id (db.view id)
      ((db.complete i token att).1.view id) := by
  rcases spendClaim_view db id i token att _ TaskRow.id_complete with
    h | ⟨r, hfind, rfl, hfenced, h⟩
  · rw [Database.complete, h]
    exact .keep _
  · rw [Database.complete, h, Database.view, hfind]
    exact .complete r _ _ token att now rfl hfenced

theorem deadLetter_change (i : TaskID) (token : ClaimToken) (att : Attempt) (now : Time) :
    Change db ch (.deadLetter i token att now) id (db.view id)
      ((db.deadLetter i token att now).1.view id) := by
  unfold Database.deadLetter
  split
  · exact .keep _
  · rename_i r hr
    obtain ⟨hfind, rfl, hfenced⟩ := filter_fenced_eq_some hr
    dsimp only
    split
    · rename_i hfree
      split
      · rename_i db' hins
        rw [view_insertAttempt hins]
        by_cases hid : id = r.id
        · subst hid
          have hfree' : db.dlq.find? r.id = none := hfree
          have hdead : (db.dlq.insertNew (r.deadLetter now (errType att))).find? r.id =
              some (r.deadLetter now (errType att)) := KeyedTable.find?_insertNew_self hfree
          simp only [Database.view, Database.attemptsOf, KeyedTable.find?_erase_self, hdead, hfind,
            hfree', if_true]
          exact .deadLetter r _ token att now rfl hfenced
        · have hother : (db.dlq.insertNew (r.deadLetter now (errType att))).find? id =
              db.dlq.find? id := KeyedTable.find?_insertNew_of_ne _ (Ne.symm hid)
          simp only [Database.view, Database.attemptsOf, KeyedTable.find?_erase_of_ne _ hid, hother,
            if_neg (Ne.symm hid), List.append_nil]
          exact .keep _
      · exact .keep _
    · exact .keep _

/-- An accepted redrive moves every selected row. -/
theorem view_redrive {queue : String} {sel : Selector} {now : Time}
    (hfree : ∀ d ∈ db.dlq.rows.filter (dlqSelects queue sel), db.task.find? d.id = none) :
    (∀ d ∈ db.dlq.rows.filter (dlqSelects queue sel),
      (db.redrive queue sel now).1.view d.id = ⟨some (d.redrive now), none, db.attemptsOf d.id⟩) ∧
    ∀ id ∉ (db.dlq.rows.filter (dlqSelects queue sel)).map DlqRow.id,
      (db.redrive queue sel now).1.view id = db.view id := by
  unfold Database.redrive
  generalize hmoved : db.dlq.rows.filter (dlqSelects queue sel) = moved at hfree
  dsimp only
  rw [if_pos hfree, ← List.foldl_map (f := DlqRow.redrive now) (g := KeyedTable.insertNew)]
  simp only [Database.view, Database.attemptsOf]
  constructor
  · intro d hd
    have hback : ((moved.map (DlqRow.redrive now)).foldl KeyedTable.insertNew db.task).find?
        d.id = some (d.redrive now) := by
      refine KeyedTable.find?_foldl_insertNew_of_mem (a := d.redrive now) db.task _ ?_ ?_
        (List.mem_map_of_mem hd)
      · rw [map_id_redrive, ← hmoved]
        exact (List.filter_sublist.map DlqRow.id).nodup db.dlq.keys_nodup
      · intro a ha
        obtain ⟨d', hd', rfl⟩ := List.mem_map.mp ha
        exact hfree d' hd'
    rw [hback, KeyedTable.find?_deleteWhere_of_mem (hmoved ▸ hd)]
  · intro id hid
    have hid' : id ∉ (moved.map (DlqRow.redrive now)).map TaskRow.id := by
      rw [map_id_redrive]
      exact hid
    rw [KeyedTable.find?_foldl_insertNew_of_not_mem _ _ hid',
      KeyedTable.find?_deleteWhere_of_not_mem (hmoved ▸ hid)]

/-- A redrive is refused, or moves every selected row. -/
theorem redrive_change (queue : String) (sel : Selector) (now : Time) :
    Change db ch (.redrive queue sel now) id (db.view id)
      ((db.redrive queue sel now).1.view id) := by
  by_cases hfree : ∀ d ∈ db.dlq.rows.filter (dlqSelects queue sel), db.task.find? d.id = none
  · obtain ⟨hmoved, hother⟩ := @view_redrive db queue sel now hfree
    by_cases hid : id ∈ (db.dlq.rows.filter (dlqSelects queue sel)).map DlqRow.id
    · obtain ⟨d, hd, rfl⟩ := List.mem_map.mp hid
      obtain ⟨hmem, hsel⟩ := List.mem_filter.mp hd
      rw [hmoved d hd, Database.view, hfree d hd, KeyedTable.find?_key_of_mem hmem]
      exact .redrive d _ queue sel now rfl hsel
    · rw [hother id hid]
      exact .keep _
  · rw [Database.redrive, if_neg hfree]
    exact .keep _

/-- A purge removes every selected row with its attempts. -/
theorem view_purge (queue : String) (sel : Selector) :
    (∀ d ∈ db.dlq.rows.filter (dlqSelects queue sel),
      (db.purge queue sel).1.view d.id = ⟨db.task.find? d.id, none, []⟩) ∧
    ∀ id ∉ (db.dlq.rows.filter (dlqSelects queue sel)).map DlqRow.id,
      (db.purge queue sel).1.view id = db.view id := by
  simp only [Database.purge, view_deleteAttempts]
  constructor
  · intro d hd
    rw [if_pos (List.mem_map_of_mem hd), KeyedTable.find?_deleteWhere_of_mem hd]
  · intro id hid
    rw [if_neg hid, KeyedTable.find?_deleteWhere_of_not_mem hid]
    rfl

theorem purge_change (queue : String) (sel : Selector) :
    Change db ch (.purge queue sel) id (db.view id) ((db.purge queue sel).1.view id) := by
  obtain ⟨hpurged, hother⟩ := view_purge db queue sel
  by_cases hid : id ∈ (db.dlq.rows.filter (dlqSelects queue sel)).map DlqRow.id
  · obtain ⟨d, hd, rfl⟩ := List.mem_map.mp hid
    obtain ⟨hmem, hsel⟩ := List.mem_filter.mp hd
    rw [hpurged d hd, Database.view, KeyedTable.find?_key_of_mem hmem]
    exact .purge _ d _ queue sel rfl hsel
  · rw [hother id hid]
    exact .keep _

theorem purgeSucceeded_change (queue : String) (olderThan : Time) :
    Change db ch (.purgeSucceeded queue olderThan) id (db.view id)
      ((db.purgeSucceeded queue olderThan).1.view id) := by
  simp only [Database.purgeSucceeded, view_deleteAttempts]
  by_cases hid : id ∈ (db.task.rows.filter (db.isExpired queue olderThan)).map TaskRow.id
  · rw [if_pos hid]
    obtain ⟨r, hr, rfl⟩ := List.mem_map.mp hid
    obtain ⟨hmem, hold⟩ := List.mem_filter.mp hr
    rw [KeyedTable.find?_deleteWhere_of_mem hr, Database.view, KeyedTable.find?_key_of_mem hmem]
    simp only [Database.isExpired, Bool.and_eq_true, decide_eq_true_eq] at hold
    exact .sweep r _ _ queue olderThan rfl hold.1.2
  · rw [if_neg hid, KeyedTable.find?_deleteWhere_of_not_mem hid]
    exact .keep _

/-- Every call changes every task in one of the listed ways. -/
theorem step_change (op : Op) : Change db ch op id (db.view id) ((step db ch op).1.view id) := by
  cases op with
  | enqueue task => exact enqueue_change db ch id task
  | claimDue queue limit lease now => exact claimDue_change db ch id queue limit lease now
  | extendLease i token lease now => exact extendLease_change db ch id i token lease now
  | reschedule i token att nextAt => exact reschedule_change db ch id i token att nextAt
  | complete i token att now => exact complete_change db ch id i token att now
  | deadLetter i token att now => exact deadLetter_change db ch id i token att now
  | redrive queue sel now => exact redrive_change db ch id queue sel now
  | purge queue sel => exact purge_change db ch id queue sel
  | purgeSucceeded queue olderThan => exact purgeSucceeded_change db ch id queue olderThan

end Change

/-- A task that lives in one table at most keeps doing so. -/
theorem home_step {db : Database} {id : TaskID}
    (h : (db.view id).task = none ∨ (db.view id).dlq = none) (ch : Choice) (op : Op) :
    ((step db ch op).1.view id).task = none ∨ ((step db ch op).1.view id).dlq = none := by
  have hch := step_change db ch id op
  generalize (step db ch op).1.view id = v' at hch
  generalize db.view id = v at h hch
  cases hch with
  | keep => exact h
  | admitted | redrive | purge => exact Or.inr rfl
  | deadLetter | sweep => exact Or.inl rfl
  | claim | extend | reschedule | complete =>
    exact Or.inr (h.resolve_left (fun hc => by cases hc))

/-! ## Grants and refusals -/

section Answers
variable {db : Database} {ch : Choice}

/-- A granted claim carries the new token and the task as it is stored afterwards. -/
theorem step_granted {op : Op} {c : Claimed} (hc : c ∈ (step db ch op).2.claims) :
    ∃ r lease now, db.task.find? r.id = some r ∧ c.token = ch.mint r.id ∧
      (step db ch op).1.task.find? r.id = some (r.claim now lease c.token) ∧
      c.task = envelopeFromRows (r.claim now lease c.token)
        ((step db ch op).1.loadAttempts r.id) := by
  cases op with
  | claimDue queue limit lease now =>
    by_cases hlimit : 0 < limit
    · obtain ⟨db', heq, htask, -⟩ := claimDue_spec db queue hlimit lease now ch
      simp only [step, heq, Prod.map_snd, Reply.ofClaims, Reply.claims, List.mem_map] at hc
      obtain ⟨r, hr, rfl⟩ := hc
      have hfind := (mem_dueRows hr).1
      refine ⟨r, lease, now, hfind, rfl, ?_, ?_⟩
      · simp only [step, heq, Prod.map_fst, id_eq, htask]
        exact Tables.find?_claimRows_of_mem hfind (List.mem_map_of_mem hr)
      · simp only [step, heq, Prod.map_fst, id_eq]
    · simp [step, Database.claimDue, not_lt.mp hlimit, Reply.ofClaims, Reply.claims] at hc
  | enqueue | extendLease | reschedule | complete | deadLetter =>
    simp only [step, Prod.map_snd, Reply.ofUnit] at hc
    split at hc <;> cases hc
  | redrive =>
    simp only [step, Prod.map_snd, Reply.ofCount] at hc
    split at hc <;> cases hc
  | purge | purgeSucceeded => cases hc

/-- A claim that sees no row claims none. -/
theorem step_claimDue_blind (queue : String) (limit : Int) (lease : Duration) (now : Time)
    (mint : TaskID → ClaimToken) :
    step db ⟨[], mint⟩ (.claimDue queue limit lease now) = (db, .claimed []) := by
  have hrows : db.dueRows queue limit now [] = [] := rfl
  have hsame : db.claimRows now lease mint [] = db.toTables := by
    have htask : (db.claimRows now lease mint []).task = db.task := by
      apply KeyedTable.ext
      simp [Tables.claimRows, KeyedTable.updateWhere]
    exact congrArg (fun task => { db.toTables with task := task }) htask
  by_cases hlimit : limit ≤ 0
  · simp [step, Database.claimDue, hlimit, Reply.ofClaims]
  · simp [step, Database.claimDue, hlimit, hrows, hsame, Reply.ofClaims]

theorem claimDue_accepted (queue : String) (limit : Int) (lease : Duration) (now : Time) :
    ∃ cs, (step db ch (.claimDue queue limit lease now)).2 = .claimed cs := by
  by_cases hlimit : 0 < limit
  · obtain ⟨db', heq, -⟩ := claimDue_spec db queue hlimit lease now ch
    simp [step, heq, Reply.ofClaims]
  · simp [step, Database.claimDue, not_lt.mp hlimit, Reply.ofClaims]

/-- A fenced update is refused by a constraint only when it holds the live claim
and its attempt number is taken. -/
theorem spendClaim_refused {att : Attempt} {f : TaskRow → TaskRow} {hf : ∀ r, (f r).id = r.id}
    {context : String}
    (h : (db.spendClaim i token att f hf).2 = .error (.uniqueViolation context)) :
    ∃ r, db.task.find? i = some r ∧ r.Fenced token ∧
      ∃ a ∈ db.attemptsOf i, a.attemptNo = att.attemptNo := by
  unfold Database.spendClaim at h
  split at h
  · cases h
  · rename_i r hr
    obtain ⟨hfind, -, hfenced⟩ := filter_fenced_eq_some hr
    refine ⟨r, hfind, hfenced, ?_⟩
    by_contra hfree
    push Not at hfree
    have hins := insertAttempt_of_free { db with task := db.task.modify i f hf }
      (attemptRowFromAttempt i att) hfree
    simp only [hins] at h
    cases h

/-- A dead-lettering is refused by a constraint only when it holds the live claim
and its attempt number or its place among the dead letters is taken. -/
theorem deadLetter_refused {att : Attempt} {now : Time} {context : String}
    (h : (db.deadLetter i token att now).2 = .error (.uniqueViolation context)) :
    ∃ r, db.task.find? i = some r ∧ r.Fenced token ∧
      (db.dlq.find? i ≠ none ∨ ∃ a ∈ db.attemptsOf i, a.attemptNo = att.attemptNo) := by
  unfold Database.deadLetter at h
  split at h
  · cases h
  · rename_i r hr
    obtain ⟨hfind, rfl, hfenced⟩ := filter_fenced_eq_some hr
    refine ⟨r, hfind, hfenced, ?_⟩
    by_contra hfree
    push Not at hfree
    obtain ⟨hplace, hfree⟩ := hfree
    have hins := insertAttempt_of_free
      { db with
        task := db.task.erase r.id
        dlq := db.dlq.insertNew (r.deadLetter now (errType att)) }
      (attemptRowFromAttempt r.id att) hfree
    have hplace' : db.dlq.find? (r.deadLetter now (errType att)).id = none := hplace
    simp only [hplace', if_true, hins] at h
    cases h

end Answers

end Rdq.Postgres
