import Rdq.Foundation.TableCount
import Rdq.Foundation.Trace
import Rdq.MemStore.Stats
import Rdq.Postgres.Transition

/-!
# The statistics of a queue on Postgres

`storage/postgres/stats.go`, `Stats`. The figures of a queue are the outcome of
every call that was ever made, so they can be checked against the answers of these
calls: what came in is pending, in flight or dead, unless a `Complete` or a `Purge`
was accepted for it. A retention sweep does not touch the figures.
-/

namespace Rdq.Postgres

open Rdq.Foundation

/-- The row is in the queue and has the status. -/
def TaskRow.isAt (queue : String) (status : Status) (r : TaskRow) : Bool :=
  decide (r.queue = queue) && decide (r.status = status)

def DlqRow.isIn (queue : String) (d : DlqRow) : Bool := decide (d.row.queue = queue)

/-- `Stats`: all figures and `now()` come from one statement. -/
def Tables.stats (t : Tables) (queue : String) (now : Time) : Stats where
  pending := t.task.rows.countP (TaskRow.isAt queue .pending)
  inFlight := t.task.rows.countP (TaskRow.isAt queue .inFlight)
  dlqDepth := t.dlq.rows.countP (DlqRow.isIn queue)
  oldestPendingAge :=
    pendingAge ((t.task.rows.filter (TaskRow.isAt queue .pending)).map TaskRow.createdAt).min? now

/-! ## The figures, task by task -/

/-- The row is that of a task that has not succeeded. -/
def TaskRow.isOpen (queue : String) (r : TaskRow) : Bool :=
  r.isAt queue .pending || r.isAt queue .inFlight

/-- What a task adds to the figures of a queue. -/
def View.weight (queue : String) (v : View) : Nat :=
  (if v.task.any (TaskRow.isOpen queue) then 1 else 0) +
    if v.dlq.any (DlqRow.isIn queue) then 1 else 0

theorem countP_isOpen (queue : String) (rows : List TaskRow) :
    rows.countP (TaskRow.isOpen queue) =
      rows.countP (TaskRow.isAt queue .pending) + rows.countP (TaskRow.isAt queue .inFlight) := by
  induction rows with
  | nil => rfl
  | cons r rows ih =>
    simp only [List.countP_cons, ih]
    cases hst : r.status <;> simp [TaskRow.isOpen, TaskRow.isAt, hst] <;> omega

theorem stats_total (t : Tables) (queue : String) (now : Time) :
    (t.stats queue now).total =
      t.task.rows.countP (TaskRow.isOpen queue) + t.dlq.rows.countP (DlqRow.isIn queue) := by
  rw [countP_isOpen]
  rfl

/-- The ids of the tasks in two states of the database. -/
def idsOf (db db' : Database) : Finset TaskID :=
  (db.task.rows.map TaskRow.id ++ db.dlq.rows.map DlqRow.id ++
    (db'.task.rows.map TaskRow.id ++ db'.dlq.rows.map DlqRow.id)).toFinset

theorem stats_total_eq_sum (db : Database) (queue : String) (now : Time) {S : Finset TaskID}
    (htask : ∀ r ∈ db.task.rows, r.id ∈ S) (hdlq : ∀ d ∈ db.dlq.rows, d.id ∈ S) :
    (db.stats queue now).total = ∑ id ∈ S, (db.view id).weight queue := by
  rw [stats_total, KeyedTable.countP_eq_sum db.task _ htask, KeyedTable.countP_eq_sum db.dlq _ hdlq,
    ← Finset.sum_add_distrib]
  rfl

section Sums
variable {db db' : Database} {queue : String} (now : Time)

theorem stats_total_sums :
    (db.stats queue now).total = ∑ id ∈ idsOf db db', (db.view id).weight queue ∧
      (db'.stats queue now).total = ∑ id ∈ idsOf db db', (db'.view id).weight queue := by
  constructor
  · apply stats_total_eq_sum
    · intro r hr
      simp only [idsOf, List.mem_toFinset, List.mem_append]
      exact Or.inl (Or.inl (List.mem_map_of_mem hr))
    · intro d hd
      simp only [idsOf, List.mem_toFinset, List.mem_append]
      exact Or.inl (Or.inr (List.mem_map_of_mem hd))
  · apply stats_total_eq_sum
    · intro r hr
      simp only [idsOf, List.mem_toFinset, List.mem_append]
      exact Or.inr (Or.inl (List.mem_map_of_mem hr))
    · intro d hd
      simp only [idsOf, List.mem_toFinset, List.mem_append]
      exact Or.inr (Or.inr (List.mem_map_of_mem hd))

/-- Where no task changes what it adds, the figures add up to the same. -/
theorem stats_total_congr (h : ∀ id, (db'.view id).weight queue = (db.view id).weight queue) :
    (db'.stats queue now).total = (db.stats queue now).total := by
  obtain ⟨hsum, hsum'⟩ := @stats_total_sums db db' queue now
  rw [hsum, hsum']
  exact Finset.sum_congr rfl fun id _ => h id

/-- Where one task changes, the figures change by what it adds. -/
theorem stats_total_of_one {i : TaskID}
    (h : ∀ id, id ≠ i → (db'.view id).weight queue = (db.view id).weight queue) :
    (db'.stats queue now).total + (db.view i).weight queue =
      (db.stats queue now).total + (db'.view i).weight queue := by
  obtain ⟨hsum, hsum'⟩ := @stats_total_sums db db' queue now
  by_cases hi : i ∈ idsOf db db'
  · have hrest : ∑ id ∈ (idsOf db db').erase i, (db'.view id).weight queue =
        ∑ id ∈ (idsOf db db').erase i, (db.view id).weight queue :=
      Finset.sum_congr rfl fun id hid => h id (Finset.ne_of_mem_erase hid)
    rw [hsum, hsum', ← Finset.sum_erase_add _ _ hi, ← Finset.sum_erase_add _ _ hi, hrest]
    omega
  · -- a task in neither state adds nothing
    simp only [idsOf, List.mem_toFinset, List.mem_append, not_or] at hi
    have hzero : ∀ {t : Database}, i ∉ t.task.rows.map TaskRow.id → i ∉ t.dlq.rows.map DlqRow.id →
        (t.view i).weight queue = 0 := by
      intro t ht hd
      have htask : t.task.find? i = none :=
        KeyedTable.find?_eq_none_iff.mpr fun r hr he => ht (he ▸ List.mem_map_of_mem hr)
      have hdlq : t.dlq.find? i = none :=
        KeyedTable.find?_eq_none_iff.mpr fun d hd' he => hd (he ▸ List.mem_map_of_mem hd')
      simp [View.weight, Database.view, htask, hdlq]
    rw [hzero hi.1.1 hi.1.2, hzero hi.2.1 hi.2.2, Nat.add_zero, Nat.add_zero]
    apply stats_total_congr
    intro id
    by_cases hid : id = i
    · rw [hid, hzero hi.1.1 hi.1.2, hzero hi.2.1 hi.2.2]
    · exact h id hid

end Sums

/-! ## What the calls say -/

/-- One call on the database, with what Postgres chooses in it. -/
def perform (db : Database) (x : Choice × Op) : Database × Reply := step db x.1 x.2

abbrev Performed := Entry Database (Choice × Op) Reply

/-- The call stored a new task in the queue. -/
def Performed.admitted (queue : String) (e : Performed) : Nat :=
  match e.input.2 with
  | .enqueue task =>
    if task.queue = queue ∧ e.pre.lookupQueue task.id = none ∧ e.output = .done then 1 else 0
  | _ => 0

/-- The call completed a task of the queue. -/
def Performed.completed (queue : String) (e : Performed) : Nat :=
  match e.input.2 with
  | .complete id _ _ _ =>
    if (e.pre.task.find? id).any (fun r => decide (r.queue = queue)) ∧ e.output = .done then 1
    else 0
  | _ => 0

/-- How many dead letters of the queue the call says it purged. -/
def Performed.purged (queue : String) (e : Performed) : Nat :=
  match e.input.2, e.output with
  | .purge q _, .count n => if q = queue then n else 0
  | _, _ => 0

/-- Tasks come in that have not succeeded yet. -/
def ComesOpen (op : Op) : Prop :=
  ∀ task, op = .enqueue task → task.status = .pending ∨ task.status = .inFlight

section Account
variable {db : Database} {ch : Choice} {queue : String}

/-- Of a row that is pending or in flight only the queue matters. -/
theorem isOpen_eq {r : TaskRow} (h : r.status = .pending ∨ r.status = .inFlight) :
    r.isOpen queue = decide (r.queue = queue) := by
  rcases h with h | h <;> simp [TaskRow.isOpen, TaskRow.isAt, h]

theorem open_of_isDue {r : TaskRow} {now : Time} (h : r.isDue now = true) :
    r.status = .pending ∨ r.status = .inFlight := by
  cases hst : r.status <;> simp_all [TaskRow.isDue]

/-- Calls that neither bring in, complete nor purge a task leave what it adds. -/
theorem weight_of_change {op : Op} {id : TaskID} {v v' : View} (h : Change db ch op id v v')
    (henqueue : ∀ task, op = .enqueue task → task.id ≠ id)
    (hcomplete : ∀ token att now, op ≠ .complete id token att now)
    (hpurge : ∀ queue sel, op ≠ .purge queue sel) (hid : ∀ r, v.task = some r → r.id = id) :
    v'.weight queue = v.weight queue := by
  cases h with
  | keep | extend => rfl
  | admitted task atts hop htask => exact absurd htask (henqueue task hop)
  | claim r d q limit lease now hop hdue =>
    have hnew : (r.claim now lease (ch.mint r.id)).isOpen queue = decide (r.queue = queue) :=
      isOpen_eq (Or.inr rfl)
    simp only [View.weight, Option.any_some, isOpen_eq (open_of_isDue hdue), hnew]
  | reschedule r d atts token att nextAt hop hf =>
    have hnew : (r.reschedule nextAt).isOpen queue = decide (r.queue = queue) :=
      isOpen_eq (Or.inl rfl)
    simp only [View.weight, Option.any_some, isOpen_eq (Or.inr hf.1), hnew]
  | complete r d atts token att now hop =>
    rw [hid r rfl] at hop
    exact absurd hop (hcomplete token att now)
  | deadLetter r atts token att now hop hf =>
    have hnew : (r.deadLetter now (errType att)).isIn queue = decide (r.queue = queue) := rfl
    simp only [View.weight, Option.any_some, Option.any_none, isOpen_eq (Or.inr hf.1), hnew,
      Nat.add_comm]
  | redrive d atts q sel now =>
    have hnew : (d.redrive now).isOpen queue = d.isIn queue := isOpen_eq (Or.inl rfl)
    simp only [View.weight, Option.any_some, Option.any_none, hnew, Nat.add_comm]
  | purge r d atts q sel hop => exact absurd hop (hpurge q sel)
  | sweep r d atts q olderThan hop hdone =>
    simp [View.weight, TaskRow.isOpen, TaskRow.isAt, hdone]

/-- The same for all tasks at once. -/
theorem weight_step (op : Op) {id : TaskID} (henqueue : ∀ task, op = .enqueue task → task.id ≠ id)
    (hcomplete : ∀ token att now, op ≠ .complete id token att now)
    (hpurge : ∀ queue sel, op ≠ .purge queue sel) :
    ((step db ch op).1.view id).weight queue = (db.view id).weight queue :=
  weight_of_change (step_change db ch id op) henqueue hcomplete hpurge
    fun _ hr => KeyedTable.key_of_find? hr

/-- An enqueue finds the task, stores it, or is refused. -/
theorem enqueue_cases (db : Database) (task : Envelope) :
    (db.lookupQueue task.id ≠ none ∧ (db.enqueue task).1 = db) ∨
      (db.lookupQueue task.id = none ∧ (db.enqueue task).2 = .ok () ∧
        (db.enqueue task).1.task.find? task.id = some (taskRowFromEnvelope task) ∧
        (db.enqueue task).1.dlq.find? task.id = none) ∨
      ∃ e, (db.enqueue task).2 = .error e ∧ (db.enqueue task).1 = db := by
  unfold Database.enqueue
  cases hlook : db.lookupQueue task.id with
  | some q => exact Or.inl ⟨Option.some_ne_none q, rfl⟩
  | none =>
    obtain ⟨htask, hdlq⟩ := Tables.lookupQueue_eq_none_iff.mp hlook
    dsimp only
    split
    · split
      · rename_i db' hfold
        obtain ⟨ht, hd, -⟩ := foldlM_insertAttempt hfold
        refine Or.inr (Or.inl ⟨rfl, rfl, ?_, ?_⟩)
        · rw [ht]
          exact KeyedTable.find?_insertNew_self htask
        · rw [hd]
          exact hdlq
      · exact Or.inr (Or.inr ⟨_, rfl, rfl⟩)
    · exact Or.inr (Or.inr ⟨_, rfl, rfl⟩)

theorem enqueue_account (now : Time) {task : Envelope} (hopen : ComesOpen (.enqueue task)) :
    ((step db ch (.enqueue task)).1.stats queue now).total =
      (db.stats queue now).total +
        Performed.admitted queue (entry perform db (ch, .enqueue task)) := by
  have hone := @stats_total_of_one db (step db ch (.enqueue task)).1 queue now task.id
    fun id hid => weight_step _ (fun t ht => by cases ht; exact Ne.symm hid)
      (fun _ _ _ hc => by cases hc) (fun _ _ hc => by cases hc)
  have hadmitted : Performed.admitted queue (entry perform db (ch, .enqueue task)) =
      if task.queue = queue ∧ db.lookupQueue task.id = none ∧
        Reply.ofUnit (db.enqueue task).2 = .done then 1 else 0 := rfl
  rw [hadmitted]
  rcases enqueue_cases db task with ⟨hlook, hsame⟩ | ⟨hlook, hok, htask, hdlq⟩ | ⟨e, herr, hsame⟩
  · have hdb : (step db ch (.enqueue task)).1 = db := hsame
    rw [hdb, if_neg (fun hc => hlook hc.2.1), Nat.add_zero]
  · obtain ⟨hnone, hnone'⟩ := Tables.lookupQueue_eq_none_iff.mp hlook
    have hbefore : (db.view task.id).weight queue = 0 := by
      simp [View.weight, Database.view, hnone, hnone']
    have hrow : (taskRowFromEnvelope task).isOpen queue = decide (task.queue = queue) :=
      isOpen_eq (hopen task rfl)
    have hafter : ((step db ch (.enqueue task)).1.view task.id).weight queue =
        if task.queue = queue then 1 else 0 := by
      change View.weight queue ⟨(db.enqueue task).1.task.find? task.id,
        (db.enqueue task).1.dlq.find? task.id, _⟩ = _
      rw [htask, hdlq]
      simp only [View.weight, Option.any_some, Option.any_none, hrow, decide_eq_true_eq,
        Bool.false_eq_true, if_false, Nat.add_zero]
    rw [hbefore, hafter, Nat.add_zero] at hone
    rw [hone, hok]
    by_cases hq : task.queue = queue
    · rw [if_pos hq, if_pos ⟨hq, hlook, rfl⟩]
    · rw [if_neg hq, if_neg (fun hc => hq hc.1)]
  · have hdb : (step db ch (.enqueue task)).1 = db := hsame
    rw [hdb, herr, if_neg (fun hc => by cases hc.2.2), Nat.add_zero]

/-- A completion succeeds with a live claim and completes the row, or changes nothing. -/
theorem complete_cases (db : Database) (i : TaskID) (token : ClaimToken) (att : Attempt) :
    (∃ r, db.task.find? i = some r ∧ r.Fenced token ∧ (db.complete i token att).2 = .ok () ∧
        (db.complete i token att).1.task.find? i = some r.complete ∧
        (db.complete i token att).1.dlq = db.dlq) ∨
      ∃ e, (db.complete i token att).2 = .error e ∧ (db.complete i token att).1 = db := by
  unfold Database.complete Database.spendClaim
  split
  · exact Or.inr ⟨_, rfl, rfl⟩
  · rename_i r hf
    obtain ⟨hr, -, hfenced⟩ := filter_fenced_eq_some hf
    dsimp only
    split
    · rename_i db' hins
      obtain ⟨-, rfl⟩ := insertAttempt_eq_some_iff.mp hins
      refine Or.inl ⟨r, hr, hfenced, rfl, ?_, rfl⟩
      rw [KeyedTable.find?_modify_self, hr, Option.map_some]
    · exact Or.inr ⟨_, rfl, rfl⟩

theorem complete_account (now : Time) {i : TaskID} {token : ClaimToken} {att : Attempt}
    {finished : Time} :
    ((step db ch (.complete i token att finished)).1.stats queue now).total +
        Performed.completed queue (entry perform db (ch, .complete i token att finished)) =
      (db.stats queue now).total := by
  have hcompleted : Performed.completed queue
        (entry perform db (ch, .complete i token att finished)) =
      if (db.task.find? i).any (fun r => decide (r.queue = queue)) ∧
        Reply.ofUnit (db.complete i token att).2 = .done then 1 else 0 := rfl
  rw [hcompleted]
  rcases complete_cases db i token att with ⟨r, hr, hfenced, hok, hrow, hdlq⟩ | ⟨e, herr, hsame⟩
  · have hone := @stats_total_of_one db (step db ch (.complete i token att finished)).1 queue now i
      fun id hid => weight_step _ (fun t ht => by cases ht)
        (fun _ _ _ hc => by cases hc; exact hid rfl) (fun _ _ hc => by cases hc)
    have hbefore : (db.view i).weight queue = (if r.queue = queue then 1 else 0) +
        if (db.dlq.find? i).any (DlqRow.isIn queue) then 1 else 0 := by
      simp only [View.weight, Database.view, hr, Option.any_some, isOpen_eq (Or.inr hfenced.1),
        decide_eq_true_eq]
    have hafter : ((step db ch (.complete i token att finished)).1.view i).weight queue =
        if (db.dlq.find? i).any (DlqRow.isIn queue) then 1 else 0 := by
      change View.weight queue ⟨(db.complete i token att).1.task.find? i,
        (db.complete i token att).1.dlq.find? i, _⟩ = _
      have hdone : r.complete.isOpen queue = false := by
        simp [TaskRow.isOpen, TaskRow.isAt, TaskRow.complete]
      simp only [View.weight, hrow, hdlq, Option.any_some, hdone, Bool.false_eq_true, if_false,
        Nat.zero_add]
    rw [hr, Option.any_some, hok]
    by_cases hq : r.queue = queue
    · rw [hbefore, hafter, if_pos hq] at hone
      rw [if_pos ⟨decide_eq_true hq, rfl⟩]
      omega
    · rw [hbefore, hafter, if_neg hq] at hone
      rw [if_neg (fun hc => hq (of_decide_eq_true hc.1))]
      omega
  · have hdb : (step db ch (.complete i token att finished)).1 = db := hsame
    rw [hdb, herr, if_neg (fun hc => by cases hc.2), Nat.add_zero]

/-- The dead letters of a queue are the selected ones and the others; a selector
does not leave its queue. -/
theorem countP_isIn_deleteWhere (rows : List DlqRow) (q : String) (sel : Selector) :
    (rows.filter fun d => !dlqSelects q sel d).countP (DlqRow.isIn queue) +
        (if q = queue then (rows.filter (dlqSelects q sel)).length else 0) =
      rows.countP (DlqRow.isIn queue) := by
  have hqueue : ∀ d ∈ rows.filter (dlqSelects q sel), d.row.queue = q := by
    intro d hd
    have hsel := (List.mem_filter.mp hd).2
    simp only [dlqSelects, Bool.and_eq_true, decide_eq_true_eq] at hsel
    exact hsel.1
  have hselected : (rows.filter (dlqSelects q sel)).countP (DlqRow.isIn queue) =
      if q = queue then (rows.filter (dlqSelects q sel)).length else 0 := by
    by_cases hq : q = queue
    · rw [if_pos hq, List.countP_eq_length]
      intro d hd
      exact decide_eq_true ((hqueue d hd).trans hq)
    · rw [if_neg hq, List.countP_eq_zero]
      intro d hd hin
      exact hq ((hqueue d hd).symm.trans (of_decide_eq_true hin))
  rw [← hselected, List.countP_eq_countP_filter_add rows (DlqRow.isIn queue) (dlqSelects q sel),
    Nat.add_comm]

theorem purge_account (now : Time) {q : String} {sel : Selector} :
    ((step db ch (.purge q sel)).1.stats queue now).total +
        Performed.purged queue (entry perform db (ch, .purge q sel)) =
      (db.stats queue now).total := by
  have hpurged : Performed.purged queue (entry perform db (ch, .purge q sel)) =
      if q = queue then (db.dlq.rows.filter (dlqSelects q sel)).length else 0 := rfl
  have hafter : ((step db ch (.purge q sel)).1.stats queue now).total =
      db.task.rows.countP (TaskRow.isOpen queue) +
        (db.dlq.rows.filter fun d => !dlqSelects q sel d).countP (DlqRow.isIn queue) :=
    stats_total _ queue now
  rw [hpurged, hafter, stats_total, Nat.add_assoc, countP_isIn_deleteWhere]

/-- What one call leaves, completes and purges is what was there and what came in. -/
theorem perform_account (now : Time) (x : Choice × Op) (hopen : ComesOpen x.2) :
    ((perform db x).1.stats queue now).total + Performed.completed queue (entry perform db x) +
        Performed.purged queue (entry perform db x) =
      (db.stats queue now).total + Performed.admitted queue (entry perform db x) := by
  obtain ⟨ch, op⟩ := x
  have hsame : (∀ task, op ≠ .enqueue task) →
      (∀ id token att now, op ≠ .complete id token att now) →
      (∀ queue sel, op ≠ .purge queue sel) →
      ((step db ch op).1.stats queue now).total = (db.stats queue now).total :=
    fun henqueue hcomplete hpurge => stats_total_congr now fun id =>
      weight_step op (fun task ht => absurd ht (henqueue task)) (hcomplete id) hpurge
  cases op with
  | enqueue task => exact enqueue_account now hopen
  | complete i token att finished => exact complete_account now
  | purge q sel => exact purge_account now
  | claimDue | extendLease | reschedule | deadLetter | redrive | purgeSucceeded =>
    exact hsame (fun _ h => by cases h) (fun _ _ _ _ h => by cases h) (fun _ _ h => by cases h)

end Account

/-- The figures of a queue account for every call: the tasks that came in are pending,
in flight or dead, or they were completed, or they were purged. -/
theorem stats_account (calls : List (Choice × Op)) (hopen : ∀ x ∈ calls, ComesOpen x.2)
    (queue : String) (now : Time) :
    ((run perform Database.new calls).stats queue now).total +
        ((trace perform Database.new calls).map (Performed.completed queue)).sum +
        ((trace perform Database.new calls).map (Performed.purged queue)).sum =
      ((trace perform Database.new calls).map (Performed.admitted queue)).sum := by
  refine trace_invariant (P := fun tr db =>
    (db.stats queue now).total + (tr.map (Performed.completed queue)).sum +
      (tr.map (Performed.purged queue)).sum = (tr.map (Performed.admitted queue)).sum)
    rfl ?_ (allSteps_of_forall hopen Database.new)
  intro tr db x ih hx
  have hstep := @perform_account db queue now x hx
  simp only [List.map_append, List.sum_append, List.map_singleton, List.sum_singleton]
  omega

/-- Three tasks come in; one is completed, one dies and is purged, one waits. -/
def accountedCalls : List (Choice × Op) :=
  let ch : Choice := ⟨["a", "b"], fun id => id⟩
  let att : Attempt :=
    { attemptNo := 1, startedAt := 1000, finishedAt := some 2000, outcome := .success }
  [(ch, .enqueue (.submitted "a" "q" "h" 0)), (ch, .enqueue (.submitted "b" "q" "h" 0)),
    (ch, .enqueue (.submitted "c" "q" "h" 0)), (ch, .enqueue (.submitted "a" "q" "h" 7)),
    (ch, .claimDue "q" 2 5000 1000), (ch, .complete "a" "a" att 2000),
    (ch, .complete "a" "a" att 2000), (ch, .deadLetter "b" "b" att 2000),
    (ch, .purge "q" ⟨["b", "c"], none⟩)]

/-- The repeated submission and the late completion are not counted. -/
theorem stats_account_threeTasks :
    ((trace perform Database.new accountedCalls).map (Performed.admitted "q")).sum = 3 ∧
      ((run perform Database.new accountedCalls).stats "q" 3000).total + 1 + 1 = 3 := by
  have hadmitted : ((trace perform Database.new accountedCalls).map
      (Performed.admitted "q")).sum = 3 := by decide +kernel
  have hcompleted : ((trace perform Database.new accountedCalls).map
      (Performed.completed "q")).sum = 1 := by decide +kernel
  have hpurged : ((trace perform Database.new accountedCalls).map
      (Performed.purged "q")).sum = 1 := by decide +kernel
  have hopen : ∀ x ∈ accountedCalls, ComesOpen x.2 := by
    intro x hx task htask
    simp only [accountedCalls, List.mem_cons, List.not_mem_nil, or_false] at hx
    rcases hx with rfl | rfl | rfl | rfl | rfl | rfl | rfl | rfl | rfl <;> cases htask <;>
      exact Or.inl rfl
  refine ⟨hadmitted, ?_⟩
  have haccount := stats_account accountedCalls hopen "q" 3000
  rw [hcompleted, hpurged, hadmitted] at haccount
  exact haccount

end Rdq.Postgres
