import Rdq.Postgres.Locks

/-!
# Interleaved statements and whole transactions

Everywhere else a transaction of the store is one step on the committed tables. Here
this is derived from the statements: whatever the interleaving, the committed database
and all answers are those of whole calls made one after another, in the order in which
the answers are given. A transaction that is aborted leaves no trace.

A Redrive or a Purge that has to wait is no whole call any more, since it misses the
dead letters that came meanwhile. It is one by ids, and takes at least the chosen dead
letters that were there all the time it was open.

Only an Enqueue works on tasks it does not hold, before its INSERT and after an INSERT
that did nothing. The results hold as long as nobody gets between these statements.
-/

namespace Rdq.Postgres.Statements

open Rdq.Foundation
open ReadCommitted (OneHome)

/-! ## One statement -/

/-- The transaction belongs to the call `op`. -/
def Session.Of (op : Op) : Session → Prop
  | begun op' => op' = op
  | insert task | relookup task => op = .enqueue task
  | redriving queue sel now _ => op = .redrive queue sel now
  | purging queue sel _ => op = .purge queue sel
  | opened tx => tx.op = op
  | ended _ | aborted => True

/-- The ways in which the next statement of a transaction of the call `op` can go: the committed
database and the transaction after it. -/
inductive Progress (db : Database) (lockedTask lockedDlq : List TaskID) (op : Op) (x : Session) :
    Database → Session → Prop
  /-- It waits, or has only looked so far, or is over. -/
  | quiet {x' : Session} (hx : x.tx? = none) (hx' : x'.tx? = none) (hof : x'.Of op)
      (hreply : x'.reply? = x.reply?) : Progress db lockedTask lockedDlq op x db x'
  | takes {tx : Tx} (hx : x.reply? = none) (hop : tx.op = op) (hready : Ready db tx)
      (htask : ∀ id ∈ tx.write.taskIds, id ∉ lockedTask)
      (hdlq : ∀ id ∈ tx.write.dlqIds, id ∉ lockedDlq) :
      Progress db lockedTask lockedDlq op x db (.opened tx)
  | goes {tx tx' : Tx} (hx : x = .opened tx) (hop : tx'.op = op) (hwrite : tx'.write = tx.write)
      (hready : Ready db tx') : Progress db lockedTask lockedDlq op x db (.opened tx')
  | commits {tx : Tx} {reply : Reply} (hx : x = .opened tx)
      (hreply : tx.rest.reply? = some reply) :
      Progress db lockedTask lockedDlq op x (tx.apply db) (.ended reply)
  | answers {db' : Database} {reply : Reply} (ch : Choice) (hx : x.reply? = none)
      (hstep : Postgres.step db ch op = (db', reply))
      (hframe : ∀ id, id ∈ lockedTask ∨ db.task.find? id = none → db'.view id = db.view id) :
      Progress db lockedTask lockedDlq op x db' (.ended reply)

variable {tx : Tx} {x : Session} {i : Nat}

section Session
variable (db : Database) (lockedTask lockedDlq : List TaskID) (ch : Choice) (op : Op) (x : Session)

/-- The next statement goes in one of the listed ways. -/
def Progresses : Prop :=
  Progress db lockedTask lockedDlq op x (x.commit db lockedTask) (x.next db lockedTask lockedDlq ch)

/-- So does the first statement of a call. -/
def Begins : Prop := Progresses db lockedTask lockedDlq ch op (.begun op)

variable {db lockedTask lockedDlq ch op x}

/-- A call that is refused, or changes nothing, may be answered at any time. -/
theorem Progress.of_unchanged (ch : Choice) {reply : Reply} (hx : x.reply? = none)
    (hstep : Postgres.step db ch op = (db, reply)) :
    Progress db lockedTask lockedDlq op x db (.ended reply) :=
  .answers ch hx hstep fun _ _ => rfl

/-- A call takes the row of one task that is free. -/
theorem Progress.takes_one {id : TaskID} (hx : x.reply? = none) (hop : tx.op = op)
    (hready : Ready db tx) (hfree : id ∉ lockedTask) (htask : tx.write.taskIds = [id])
    (hdlq : tx.write.dlqIds = []) :
    Progress db lockedTask lockedDlq op x db (.opened tx) := by
  refine .takes hx hop hready ?_ ?_
  · intro i hi
    rw [htask] at hi
    rw [List.mem_singleton.mp hi]
    exact hfree
  · intro i hi
    rw [hdlq] at hi
    cases hi

/-- A fenced call is stale, waits, or takes its row. -/
theorem fenced_progress (ch : Choice) {id : TaskID} {token : ClaimToken} {write : TaskRow → Session}
    (hstale : ((db.task.find? id).filter fun r => r.Fenced token) = none →
      Postgres.step db ch op = (db, .failed .staleClaim))
    (hwrite : ∀ r, db.task.find? id = some r → r.Fenced token → id ∉ lockedTask →
      Progress db lockedTask lockedDlq op (.begun op) db (write r)) :
    Progress db lockedTask lockedDlq op (.begun op) db
      (Session.fenced db lockedTask op id token write) := by
  unfold Session.fenced
  split
  · rename_i hnone
    exact .of_unchanged ch rfl (hstale hnone)
  · rename_i r hr
    obtain ⟨hfind, -, hfenced⟩ := filter_fenced_eq_some hr
    split
    · exact .quiet rfl rfl rfl rfl
    · rename_i hfree
      exact hwrite r hfind hfenced hfree

theorem length_dueRows_le (queue : String) (limit : Int) (now : Time) (scan : List TaskID) :
    (db.dueRows queue limit now scan).length ≤ limit.toNat := by
  obtain ⟨picked, hlen, hsub⟩ : ∃ picked : List TaskRow, picked.length ≤ limit.toNat ∧
      ∀ r ∈ db.dueRows queue limit now scan, r ∈ picked :=
    ⟨_, List.length_take_le limit.toNat _, fun r hr => of_decide_eq_true (List.mem_filter.mp hr).2⟩
  have hnd : (db.dueRows queue limit now scan).Nodup := dueRows_ids_nodup.of_map TaskRow.id
  exact (List.subperm_of_subset hnd hsub).length_le.trans hlen

/-- The rows a claim finds can all be taken. -/
theorem takes_dueRows (queue : String) {limit : Int} (hlimit : ¬ limit ≤ 0) (now : Time)
    (scan : List TaskID) : Takes db queue limit now (db.dueRows queue limit now scan) where
  nodup := dueRows_ids_nodup
  found := fun _ hr => (mem_dueRows hr).1
  due := fun _ hr => (mem_dueRows hr).2
  limit_pos := not_le.mp hlimit
  length_le := length_dueRows_le queue limit now scan

/-- A claim finds only rows it gets to see. -/
theorem mem_scan_of_mem_dueRows {queue : String} {limit : Int} {now : Time} {scan : List TaskID}
    {r : TaskRow} (h : r ∈ db.dueRows queue limit now scan) : r.id ∈ scan := by
  have hdue := List.mem_of_mem_filter (List.mem_of_mem_filter h)
  obtain ⟨id, hid, hr⟩ := List.mem_filterMap.mp hdue
  rw [KeyedTable.key_of_find? hr]
  exact List.mem_dedup.mp hid

theorem claimDue_progress (queue : String) (limit : Int) (lease : Duration) (now : Time) :
    Begins db lockedTask lockedDlq ch (.claimDue queue limit lease now) := by
  simp only [Begins, Progresses, Session.next]
  split
  · rename_i hlimit
    refine .of_unchanged ch rfl ?_
    simp only [Postgres.step, Database.claimDue, if_pos hlimit]
    rfl
  · rename_i hlimit
    have hready := @Ready.recording db queue limit ⟨db.dueRows queue limit now
      (ch.scan.filter fun id => decide (id ∉ lockedTask)), now, lease, ch.mint⟩ [] _
      (takes_dueRows queue hlimit now _) rfl
    refine .takes rfl rfl hready ?_ ?_
    · intro id hid
      obtain ⟨r, hr, rfl⟩ := List.mem_map.mp hid
      exact of_decide_eq_true (List.mem_filter.mp (mem_scan_of_mem_dueRows hr)).2
    · intro id hid
      cases hid

theorem selected_left (db : Database) (queue : String) (sel : Selector) (found : List DlqRow) :
    (Session.left db queue sel found).Nodup ∧
      Selected db queue sel (Session.left db queue sel found) := by
  refine ⟨(List.filter_sublist.map DlqRow.id).nodup db.dlq.keys_nodup, fun id hid => ?_⟩
  obtain ⟨d, hd, rfl⟩ := List.mem_map.mp hid
  obtain ⟨hmem, hsel⟩ := List.mem_filter.mp hd
  rw [Bool.and_eq_true] at hsel
  exact ⟨d, KeyedTable.find?_key_of_mem hmem, hsel.1⟩

theorem redriving_progress (home : OneHome db.toTables) (queue : String) (sel : Selector)
    (now : Time) (found : List DlqRow) :
    Progresses db lockedTask lockedDlq ch (.redrive queue sel now)
      (.redriving queue sel now found) := by
  obtain ⟨hnd, hsel⟩ := selected_left db queue sel found
  -- a dead letter has no row in `rdq_task`, so the INSERT is not refused
  have hfree : ∀ id ∈ Session.left db queue sel found, db.task.find? id = none := by
    intro id hid
    obtain ⟨d, hd, -⟩ := hsel id hid
    exact (home id).resolve_right fun hnone => Option.some_ne_none d (hd.symm.trans hnone)
  simp only [Progresses, Session.next, if_pos hfree]
  split
  · exact .quiet rfl rfl rfl rfl
  · rename_i hlocked
    refine .takes rfl rfl (.redrive hnd hfree hsel) ?_ ?_
    · exact fun id hid hl => hlocked ⟨id, hid, Or.inl hl⟩
    · exact fun id hid hl => hlocked ⟨id, hid, Or.inr hl⟩

theorem purging_progress (queue : String) (sel : Selector) (found : List DlqRow) :
    Progresses db lockedTask lockedDlq ch (.purge queue sel) (.purging queue sel found) := by
  obtain ⟨hnd, hsel⟩ := selected_left db queue sel found
  simp only [Progresses, Session.next]
  split
  · exact .quiet rfl rfl rfl rfl
  · rename_i hlocked
    refine .takes rfl rfl (.purge hnd hsel) ?_ ?_
    · intro id hid
      cases hid
    · exact fun id hid hl => hlocked ⟨id, hid, hl⟩

/-- The sweep changes no locked row, and no task outside `rdq_task`. -/
theorem purgeSucceeded_progress (queue : String) (olderThan : Time) :
    Begins db lockedTask lockedDlq ch (.purgeSucceeded queue olderThan) := by
  simp only [Begins, Progresses, Session.next, Session.commit]
  split
  · exact .quiet rfl rfl rfl rfl
  · rename_i hlocked
    refine .answers ch rfl rfl ?_
    intro id hid
    have hkeep : id ∉ (db.task.rows.filter (db.isExpired queue olderThan)).map TaskRow.id := by
      intro hm
      obtain ⟨r, hr, rfl⟩ := List.mem_map.mp hm
      rcases hid with hid | hid
      · exact hlocked ⟨r, hr, hid⟩
      · have hfind := KeyedTable.find?_key_of_mem (List.mem_of_mem_filter hr)
        exact Option.some_ne_none r (hfind.symm.trans hid)
    simp only [Database.purgeSucceeded, view_deleteAttempts, if_neg hkeep,
      KeyedTable.find?_deleteWhere_of_not_mem hkeep]
    rfl

theorem spendClaim_stale {id : TaskID} {token : ClaimToken} {att : Attempt}
    {f : TaskRow → TaskRow} {hf : ∀ r, (f r).id = r.id}
    (hstale : ((db.task.find? id).filter fun r => r.Fenced token) = none) :
    db.spendClaim id token att f hf = (db, .error .staleClaim) := by
  rw [Database.spendClaim, hstale]

theorem extendLease_progress (id : TaskID) (token : ClaimToken) (lease : Duration) (now : Time) :
    Begins db lockedTask lockedDlq ch (.extendLease id token lease now) := by
  refine fenced_progress ch ?_ ?_
  · intro hstale
    rw [Postgres.step, Database.extendLease, hstale]
    rfl
  · intro r hr hfenced hfree
    exact .takes_one rfl rfl (.extend hr hfenced) hfree rfl rfl

theorem reschedule_progress (id : TaskID) (token : ClaimToken) (att : Attempt) (nextAt : Time) :
    Begins db lockedTask lockedDlq ch (.reschedule id token att nextAt) := by
  refine fenced_progress ch ?_ ?_
  · intro hstale
    rw [Postgres.step, Database.reschedule, spendClaim_stale hstale]
    rfl
  · intro r hr hfenced hfree
    exact .takes_one rfl rfl (.reschedule hr hfenced rfl (insertable_nil db)) hfree rfl rfl

theorem complete_progress (id : TaskID) (token : ClaimToken) (att : Attempt) (now : Time) :
    Begins db lockedTask lockedDlq ch (.complete id token att now) := by
  refine fenced_progress ch ?_ ?_
  · intro hstale
    rw [Postgres.step, Database.complete, spendClaim_stale hstale]
    rfl
  · intro r hr hfenced hfree
    exact .takes_one rfl rfl (.complete hr hfenced rfl (insertable_nil db)) hfree rfl rfl

theorem deadLetter_progress (id : TaskID) (token : ClaimToken) (att : Attempt) (now : Time) :
    Begins db lockedTask lockedDlq ch (.deadLetter id token att now) := by
  refine fenced_progress ch ?_ ?_
  · intro hstale
    rw [Postgres.step, Database.deadLetter, hstale]
    rfl
  · intro r hr hfenced hfree
    have hkey : r.id = id := KeyedTable.key_of_find? hr
    have hid : (r.deadLetter now (errType att)).id = id := hkey
    dsimp only
    rw [hid]
    split
    · exact .quiet rfl rfl rfl rfl
    · rename_i hfreeDlq
      split
      · rename_i hnone
        refine .takes rfl rfl (.deadLetter hr hfenced hnone rfl (insertable_nil db)) ?_ ?_
        · intro i hi
          rw [List.mem_singleton.mp hi, hid]
          exact hfree
        · intro i hi
          rw [List.mem_singleton.mp hi, hid]
          exact hfreeDlq
      · rename_i hdead
        refine .of_unchanged ch rfl ?_
        simp only [Postgres.step, Database.deadLetter, fenced_eq_some hr hfenced, hid,
          if_neg hdead]
        rfl

/-- Enqueuing a stored id changes nothing. -/
theorem enqueue_of_found {task : Envelope} {queue : String}
    (hlook : db.lookupQueue task.id = some queue) :
    Postgres.step db ch (.enqueue task) = (db, resubmitted task queue) := by
  simp only [Postgres.step, Database.enqueue, hlook, resubmitted]
  split <;> rfl

theorem enqueue_progress (task : Envelope) :
    Begins db lockedTask lockedDlq ch (.enqueue task) := by
  simp only [Begins, Progresses, Session.next]
  split
  · rename_i queue hlook
    exact .of_unchanged ch rfl (enqueue_of_found hlook)
  · exact .quiet rfl rfl rfl rfl

theorem insert_progress (task : Envelope) (hclear : Session.Clear db lockedTask (.insert task)) :
    Progresses db lockedTask lockedDlq ch (.enqueue task) (.insert task) := by
  have hid : (taskRowFromEnvelope task).id = task.id := rfl
  simp only [Progresses, Session.next, hid]
  split
  · rename_i hrefused
    refine .of_unchanged ch rfl ?_
    have hlook := hclear (Or.inl hrefused)
    simp only [Postgres.step, Database.enqueue, hlook, if_neg hrefused]
    rfl
  · rename_i hstorable
    split
    · exact .quiet rfl rfl rfl rfl
    · rename_i hfree
      split
      · rename_i hnone
        have hlook := hclear (Or.inr ⟨hfree, hnone⟩)
        exact .takes_one rfl rfl (.enqueue (not_not.mp hstorable) hlook rfl (insertable_nil db))
          hfree rfl rfl
      · exact .quiet rfl rfl rfl rfl

theorem relookup_progress (task : Envelope)
    (hclear : Session.Clear db lockedTask (.relookup task)) :
    Progresses db lockedTask lockedDlq ch (.enqueue task) (.relookup task) := by
  obtain ⟨queue, hlook⟩ := Option.ne_none_iff_exists'.mp hclear
  refine .of_unchanged ch rfl ?_
  rw [hlook]
  exact enqueue_of_found hlook

theorem Tx.next_of_reply {reply : Reply} (h : tx.rest.reply? = some reply) :
    tx.next db = .ended reply := by
  obtain ⟨op, w, added, rest⟩ := tx
  cases rest with
  | attempts todo =>
    cases todo with
    | nil => cases h; rfl
    | cons a todo => cases h
  | reclaims c todo => cases h
  | loads c todo claimed =>
    cases todo with
    | nil => cases h; rfl
    | cons r todo => cases h
  | answer reply => cases h; rfl

theorem opened_progress (hready : Ready db tx) :
    Progresses db lockedTask lockedDlq ch tx.op (.opened tx) := by
  simp only [Progresses, Session.commit, Session.next]
  cases hreply : tx.rest.reply? with
  | some reply =>
    rw [Tx.next_of_reply hreply]
    exact .commits rfl hreply
  | none =>
    rcases hready.next_spec hreply ch with ⟨tx', hnext, hop, hwrite, hready'⟩ | ⟨e, hnext, hstep⟩
    · rw [hnext]
      exact .goes rfl hop hwrite hready'
    · rw [hnext]
      exact .of_unchanged ch rfl hstep

/-- Every statement goes in one of the listed ways. -/
theorem next_progress (home : OneHome db.toTables) (hof : x.Of op)
    (hready : ∀ tx, x = .opened tx → Ready db tx) (hclear : x.Clear db lockedTask) :
    Progresses db lockedTask lockedDlq ch op x := by
  cases x with
  | begun op' =>
    obtain rfl : op' = op := hof
    cases op' with
    | enqueue task => exact enqueue_progress task
    | claimDue queue limit lease now => exact claimDue_progress queue limit lease now
    | extendLease id token lease now => exact extendLease_progress id token lease now
    | reschedule id token att nextAt => exact reschedule_progress id token att nextAt
    | complete id token att now => exact complete_progress id token att now
    | deadLetter id token att now => exact deadLetter_progress id token att now
    | redrive | purge => exact .quiet rfl rfl rfl rfl
    | purgeSucceeded queue olderThan => exact purgeSucceeded_progress queue olderThan
  | insert task =>
    obtain rfl : op = .enqueue task := hof
    exact insert_progress task hclear
  | relookup task =>
    obtain rfl : op = .enqueue task := hof
    exact relookup_progress task hclear
  | redriving queue sel now found =>
    obtain rfl : op = .redrive queue sel now := hof
    exact redriving_progress home queue sel now found
  | purging queue sel found =>
    obtain rfl : op = .purge queue sel := hof
    exact purging_progress queue sel found
  | opened tx =>
    obtain rfl : tx.op = op := hof
    exact opened_progress (hready tx rfl)
  | ended reply => exact .quiet rfl rfl trivial rfl
  | aborted => exact .quiet rfl rfl trivial rfl

end Session

/-! ## What a DELETE has found -/

/-- The transaction has found, or taken, all chosen dead letters that last. -/
def Session.Found (lasts : DlqRow → Prop) : Session → Prop
  | redriving queue sel _ found | purging queue sel found =>
    ∀ d, dlqSelects queue sel d = true → lasts d → d ∈ found
  | opened tx => tx.Found lasts
  | _ => True

section Found
variable {lasts lasts' : DlqRow → Prop} {db : Database} {lockedTask lockedDlq : List TaskID}

theorem Tx.Found.imp (h : ∀ d, lasts' d → lasts d) (hf : tx.Found lasts) :
    tx.Found lasts' := by
  unfold Tx.Found at *
  split at hf
  · exact fun d hd hl => hf d hd (h d hl)
  · exact fun d hd hl => hf d hd (h d hl)
  · trivial

theorem Session.Found.imp (h : ∀ d, lasts' d → lasts d) (hf : x.Found lasts) :
    x.Found lasts' := by
  cases x with
  | redriving | purging => exact fun d hd hl => hf d hd (h d hl)
  | opened tx => exact Tx.Found.imp h hf
  | begun | insert | relookup | ended | aborted => trivial

theorem covers_left (hnow : ∀ d, lasts d → db.dlq.find? d.id = some d) {queue : String}
    {sel : Selector} {found : List DlqRow}
    (h : ∀ d, dlqSelects queue sel d = true → lasts d → d ∈ found) :
    Covers lasts queue sel (Session.left db queue sel found) := by
  intro d hd hl
  refine List.mem_map_of_mem (List.mem_filter.mpr ⟨KeyedTable.mem_of_find? (hnow d hl), ?_⟩)
  simp [hd, h d hd hl]

theorem Tx.found_next (h : tx.Found lasts) : (tx.next db).Found lasts := by
  unfold Tx.next
  split
  case h_2 | h_4 => split <;> first | exact h | trivial
  all_goals first | exact h | trivial

theorem found_fenced {op : Op} {id : TaskID} {token : ClaimToken} {write : TaskRow → Session}
    (h : ∀ r, (write r).Found lasts) :
    (Session.fenced db lockedTask op id token write).Found lasts := by
  unfold Session.fenced
  split
  · trivial
  · split
    · trivial
    · exact h _

/-- Every statement keeps what was found, as long as the rows that last are there. -/
theorem Session.found_next (hnow : ∀ d, lasts d → db.dlq.find? d.id = some d) (ch : Choice)
    (h : x.Found lasts) : (x.next db lockedTask lockedDlq ch).Found lasts := by
  cases x with
  | begun op =>
    cases op with
    | redrive | purge =>
      exact fun d hd hl => List.mem_filter.mpr ⟨KeyedTable.mem_of_find? (hnow d hl), hd⟩
    | extendLease | reschedule | complete => exact found_fenced fun r => trivial
    | deadLetter =>
      refine found_fenced fun r => ?_
      dsimp only
      split
      · trivial
      · split <;> trivial
    | enqueue | claimDue | purgeSucceeded =>
      simp only [Session.next]
      split <;> trivial
  | insert task =>
    simp only [Session.next]
    split
    · trivial
    · split
      · trivial
      · split <;> trivial
  | redriving queue sel now found =>
    simp only [Session.next]
    split
    · exact h
    · split
      · exact covers_left hnow h
      · trivial
  | purging queue sel found =>
    simp only [Session.next]
    split
    · exact h
    · exact covers_left hnow h
  | opened tx => exact Tx.found_next h
  | relookup | ended | aborted => trivial

end Found

/-! ## All transactions -/

/-- What holds between the events of a run in which the calls `ops` have begun. -/
structure Inv (ops : List Op) (s : State) : Prop where
  home : OneHome s.committed.toTables
  held : locking.Held s.committed s.txs
  length : s.sessions.length = ops.length
  calls : ∀ (i : Nat) (x : Session) (op : Op), s.sessions[i]? = some x → ops[i]? = some op →
    x.Of op

section State
variable {s : State} {i : Nat} {x : Session}

theorem txs_set (hx : s.sessions[i]? = some x) (db : Database) (x' : Session) :
    State.txs ⟨db, s.sessions.set i x'⟩ = Function.update s.txs i x'.tx? := by
  obtain ⟨hi, -⟩ := List.getElem?_eq_some_iff.mp hx
  funext j
  by_cases hj : j = i
  · subst hj
    simp [State.txs, hi]
  · rw [Function.update_of_ne hj]
    simp [State.txs, List.getElem?_set_ne (Ne.symm hj)]

theorem mem_lockedTask (htx : s.txs i = some tx) {id : TaskID} (hid : id ∈ tx.write.taskIds) :
    id ∈ s.lockedTask := by
  obtain ⟨x, hx, htx⟩ := Option.bind_eq_some_iff.mp htx
  refine List.mem_flatMap.mpr ⟨x, List.mem_of_getElem? hx, ?_⟩
  rw [htx]
  exact hid

theorem mem_lockedDlq (htx : s.txs i = some tx) {id : TaskID} (hid : id ∈ tx.write.dlqIds) :
    id ∈ s.lockedDlq := by
  obtain ⟨x, hx, htx⟩ := Option.bind_eq_some_iff.mp htx
  refine List.mem_flatMap.mpr ⟨x, List.mem_of_getElem? hx, ?_⟩
  rw [htx]
  exact hid

/-- The committed database keeps every task in one table when a whole call runs on it. -/
theorem oneHome_step {db : Database} (h : OneHome db.toTables) (ch : Choice) (op : Op) :
    OneHome (Postgres.step db ch op).1.toTables :=
  fun id => Postgres.home_step (h id) ch op

variable {ops : List Op} {db' : Database} {x' : Session} {op : Op}

/-- The locks after one statement. -/
theorem Inv.held_progress (h : Inv ops s) (hx : s.sessions[i]? = some x)
    (hp : Progress s.committed s.lockedTask s.lockedDlq op x db' x') :
    locking.Held db' (Function.update s.txs i x'.tx?) := by
  have hnone : ∀ {db}, locking.Held db s.txs → locking.Held db (Function.update s.txs i none) := by
    intro db hheld
    apply hheld.release
    intro j t ht
    by_cases hj : j = i
    · rw [hj, Function.update_self] at ht
      cases ht
    · rwa [Function.update_of_ne hj] at ht
  cases hp with
  | quiet _ hx' =>
    rw [hx']
    exact hnone h.held
  | @takes tx _ hop hready htask hdlq =>
    refine h.held.take i hready fun j u hj hu => ?_
    apply Ready.disjoint h.home hready (h.held.ready hu)
    · exact fun id hid hid' => htask id hid (mem_lockedTask hu hid')
    · exact fun id hid hid' => hdlq id hid (mem_lockedDlq hu hid')
  | @goes tx tx' hxo hop hwrite hready =>
    have htx : s.txs i = some tx := by
      rw [State.txs, hx, hxo]
      rfl
    refine h.held.take i hready fun j u hj hu => ?_
    have hsame : locking.held tx' = locking.held tx := by
      simp only [locking, Tx.held, hwrite]
    rw [hsame]
    exact h.held.apart (Ne.symm hj) htx hu
  | @commits tx reply hxo hreply =>
    have htx : s.txs i = some tx := by
      rw [State.txs, hx, hxo]
      rfl
    exact h.held.commit htx
  | @answers _ reply ch hxr hstep hframe =>
    apply hnone
    apply h.held.congr
    intro j u hu id hid
    apply hframe
    by_cases htask : id ∈ u.write.taskIds
    · exact Or.inl (mem_lockedTask hu htask)
    · have hdlq := (h.held.ready hu).dlq_ne_none htask (hid.resolve_left htask)
      exact Or.inr ((h.home id).resolve_right hdlq)

/-- A statement changes nothing that is committed, or answers as a whole call does now. -/
theorem Inv.served (h : Inv ops s) (hx : s.sessions[i]? = some x)
    (hof : x.Of op) {lasts : DlqRow → Prop} (hfound : x.Found lasts) (ch : Choice)
    (hp : Progress s.committed s.lockedTask s.lockedDlq op x db' x') :
    db' = s.committed ∧ x'.reply? = x.reply? ∨
      ∃ reply ch op', x.reply? = none ∧ x' = .ended reply ∧ Serves lasts s.committed op op' ∧
        Postgres.step s.committed ch op' = (db', reply) := by
  cases hp with
  | quiet _ _ _ hreply => exact Or.inl ⟨rfl, hreply⟩
  | takes hxr => exact Or.inl ⟨rfl, hxr.symm⟩
  | goes hxo =>
    rw [hxo]
    exact Or.inl ⟨rfl, rfl⟩
  | @commits tx reply hxo hreply =>
    subst hxo
    have htx : s.txs i = some tx := by
      rw [State.txs, hx]
      rfl
    obtain ⟨ch, op', hserves, hstep⟩ := (h.held.ready htx).commit_eq hreply hfound ch
    have hop : tx.op = op := hof
    exact Or.inr ⟨reply, ch, op', rfl, rfl, hop ▸ hserves, hstep⟩
  | answers ch hxr hstep => exact Or.inr ⟨_, ch, op, hxr, rfl, .same op, hstep⟩

theorem Progress.of {db : Database} {lockedTask lockedDlq : List TaskID}
    (hp : Progress db lockedTask lockedDlq op x db' x') : x'.Of op := by
  cases hp with
  | quiet _ _ hof => exact hof
  | takes _ hop => exact hop
  | goes _ hop => exact hop
  | commits | answers => trivial

/-- One statement keeps the invariant. -/
theorem Inv.advance (h : Inv ops s) (hx : s.sessions[i]? = some x) (hop : ops[i]? = some op)
    {lasts : DlqRow → Prop} (hfound : x.Found lasts) (ch : Choice)
    (hp : Progress s.committed s.lockedTask s.lockedDlq op x db' x') :
    Inv ops ⟨db', s.sessions.set i x'⟩ where
  home := by
    rcases h.served hx (h.calls i x op hx hop) hfound ch hp with
      ⟨rfl, -⟩ | ⟨_, ch, op', -, -, -, hstep⟩
    · exact h.home
    · have hhome := oneHome_step h.home ch op'
      rw [hstep] at hhome
      exact hhome
  held := by
    rw [txs_set hx]
    exact h.held_progress hx hp
  length := by
    rw [List.length_set]
    exact h.length
  calls := by
    intro j y op' hy hop'
    by_cases hj : j = i
    · subst hj
      obtain ⟨hi, -⟩ := List.getElem?_eq_some_iff.mp hx
      rw [List.getElem?_set_self hi] at hy
      obtain rfl := Option.some.inj hy
      obtain rfl := Option.some.inj (hop.symm.trans hop')
      exact hp.of
    · rw [List.getElem?_set_ne (Ne.symm hj)] at hy
      exact h.calls j y op' hy hop'

/-- A new transaction keeps the invariant. -/
theorem Inv.begin (h : Inv ops s) (op : Op) :
    Inv (ops ++ [op]) { s with sessions := s.sessions ++ [.begun op] } where
  home := h.home
  held := by
    apply h.held.release
    intro j tx htx
    obtain ⟨y, hy, hytx⟩ := Option.bind_eq_some_iff.mp htx
    rw [List.getElem?_append] at hy
    split at hy
    · exact Option.bind_eq_some_iff.mpr ⟨y, hy, hytx⟩
    · -- the new transaction holds nothing
      rw [List.mem_singleton.mp (List.mem_of_getElem? hy)] at hytx
      cases hytx
  length := by simp [h.length]
  calls := by
    intro j y op' hy hop
    rw [List.getElem?_append] at hy hop
    rw [h.length] at hy
    split at hy
    · rename_i hj
      rw [if_pos hj] at hop
      exact h.calls j y op' hy hop
    · rename_i hj
      rw [if_neg hj] at hop
      rw [List.mem_singleton.mp (List.mem_of_getElem? hy),
        List.mem_singleton.mp (List.mem_of_getElem? hop)]
      rfl

/-- A lost connection keeps the invariant. -/
theorem Inv.abort (h : Inv ops s) (i : Nat) :
    Inv ops { s with sessions := s.sessions.modify i Session.abort } where
  home := h.home
  held := by
    apply h.held.release
    intro j tx htx
    obtain ⟨y, hy, hytx⟩ := Option.bind_eq_some_iff.mp htx
    rw [List.getElem?_modify] at hy
    obtain ⟨x, hx, rfl⟩ := Option.map_eq_some_iff.mp hy
    split at hytx
    · cases x <;> cases hytx
    · exact Option.bind_eq_some_iff.mpr ⟨x, hx, hytx⟩
  length := by simp [h.length]
  calls := by
    intro j y op hy hop
    rw [List.getElem?_modify] at hy
    obtain ⟨x, hx, rfl⟩ := Option.map_eq_some_iff.mp hy
    split
    · cases x <;> trivial
    · exact h.calls j x op hx hop

end State

/-! ## Whole runs -/

/-- One whole call, with the number of the transaction it stands for. -/
def serve (db : Database) (call : Nat × Choice × Op) : Database × Reply :=
  Postgres.step db call.2.1 call.2.2

/-- The dead letter is there all the time while transaction `i` has begun and has no answer. -/
def Lasts (evs : List Event) (i : Nat) (d : DlqRow) : Prop :=
  ∀ evs₁ x, evs₁ <+: evs → (State.after evs₁).sessions[i]? = some x → x.reply? = none →
    (State.after evs₁).committed.dlq.find? d.id = some d

/-- Whole calls made one after another that stand for an interleaving of statements. -/
structure SerialRun (evs : List Event) (log : List (Nat × Choice × Op)) : Prop where
  committed : run serve Database.new log = (State.after evs).committed
  /-- The same answers to the same transactions in the same order. -/
  replies : (trace serve Database.new log).map (fun e => (e.input.1, e.output)) = answers evs
  /-- Every call serves the one its transaction began with. -/
  served : ∀ e ∈ trace serve Database.new log,
    ∃ op, (calls evs)[e.input.1]? = some op ∧
      Serves (Lasts evs e.input.1) e.pre op e.input.2.2
  once : (log.map Prod.fst).Nodup
  /-- Exactly the transactions that have ended with an answer occur. -/
  ended : ∀ i : Nat, i ∈ log.map Prod.fst ↔
    ((State.after evs).sessions[i]?.bind Session.reply?).isSome

section Run
variable {evs : List Event} {ev : Event} {log : List (Nat × Choice × Op)}

theorem after_concat (evs : List Event) (ev : Event) :
    State.after (evs ++ [ev]) = (State.step (State.after evs) ev).1 :=
  run_concat State.step State.new evs ev

theorem answers_concat (evs : List Event) (ev : Event) :
    answers (evs ++ [ev]) =
      answers evs ++ (State.answer? (entry State.step (State.after evs) ev)).toList := by
  rw [answers, trace_concat, List.filterMap_append]
  rfl

theorem calls_concat (evs : List Event) (ev : Event) :
    calls (evs ++ [ev]) = calls evs ++ ev.call?.toList := by
  rw [calls, List.filterMap_append]
  rfl

theorem calls_concat_of_some {op : Op} (h : (calls evs)[i]? = some op) (ev : Event) :
    (calls (evs ++ [ev]))[i]? = some op := by
  obtain ⟨hi, -⟩ := List.getElem?_eq_some_iff.mp h
  rw [calls_concat, List.getElem?_append_left hi]
  exact h

theorem Lasts.of_concat {d : DlqRow} (h : Lasts (evs ++ [ev]) i d) : Lasts evs i d :=
  fun evs₁ x hpre => h evs₁ x (hpre.trans (List.prefix_append evs [ev]))

/-- An event that answers nobody commits nothing. -/
theorem SerialRun.keep (h : SerialRun evs log)
    (hcommitted : (State.step (State.after evs) ev).1.committed = (State.after evs).committed)
    (hanswer : State.answer? (entry State.step (State.after evs) ev) = none)
    (hended : ∀ i : Nat, ((State.step (State.after evs) ev).1.sessions[i]?.bind Session.reply?) =
      (State.after evs).sessions[i]?.bind Session.reply?) : SerialRun (evs ++ [ev]) log where
  committed := by
    rw [after_concat, hcommitted]
    exact h.committed
  replies := by
    rw [answers_concat, hanswer]
    exact h.replies.trans (List.append_nil _).symm
  served := by
    intro e he
    obtain ⟨op, hop, hserves⟩ := h.served e he
    exact ⟨op, calls_concat_of_some hop ev, hserves.imp fun _ => Lasts.of_concat⟩
  once := h.once
  ended := by
    intro i
    rw [after_concat, hended]
    exact h.ended i

/-- An event that answers a transaction is a whole call. -/
theorem SerialRun.concat (h : SerialRun evs log) {ch : Choice} {op op' : Op} {reply : Reply}
    (hopen : (State.after evs).sessions[i]?.bind Session.reply? = none)
    (hanswer : State.answer? (entry State.step (State.after evs) ev) = some (i, reply))
    (hop : (calls evs)[i]? = some op)
    (hserves : Serves (Lasts evs i) (State.after evs).committed op op')
    (hstep : Postgres.step (State.after evs).committed ch op' =
      ((State.step (State.after evs) ev).1.committed, reply))
    (hended : ∀ j : Nat, ((State.step (State.after evs) ev).1.sessions[j]?.bind Session.reply?) =
      if j = i then some reply else (State.after evs).sessions[j]?.bind Session.reply?) :
    SerialRun (evs ++ [ev]) (log ++ [(i, ch, op')]) where
  committed := by
    rw [run_concat, h.committed, after_concat, serve, hstep]
  replies := by
    rw [trace_concat, List.map_append, h.replies, answers_concat, hanswer, h.committed]
    simp only [List.map_cons, List.map_nil, entry, serve, hstep, Option.toList_some]
  served := by
    intro e he
    rw [trace_concat, List.mem_append, List.mem_singleton] at he
    rcases he with he | rfl
    · obtain ⟨op₀, hop₀, hserves₀⟩ := h.served e he
      exact ⟨op₀, calls_concat_of_some hop₀ ev, hserves₀.imp fun _ => Lasts.of_concat⟩
    · refine ⟨op, calls_concat_of_some hop ev, ?_⟩
      rw [h.committed]
      exact hserves.imp fun _ => Lasts.of_concat
  once := by
    rw [List.map_append, List.map_singleton, List.nodup_append]
    refine ⟨h.once, List.nodup_singleton i, ?_⟩
    rintro j hj k hk rfl
    rw [List.mem_singleton.mp hk, h.ended, hopen] at hj
    cases hj
  ended := by
    intro j
    rw [List.map_append, List.map_singleton, List.mem_append, List.mem_singleton, after_concat,
      hended, h.ended]
    by_cases hj : j = i
    · simp [hj]
    · simp [hj]

theorem SerialRun.begin (h : SerialRun evs log) (op : Op) :
    SerialRun (evs ++ [.begin op]) log := by
  refine h.keep rfl rfl fun i => ?_
  change ((State.after evs).sessions ++ [.begun op])[i]?.bind Session.reply? = _
  rw [List.getElem?_append]
  split
  · rfl
  · rename_i hi
    rw [List.getElem?_eq_none (not_lt.mp hi)]
    cases hx : [Session.begun op][i - (State.after evs).sessions.length]? with
    | none => rfl
    | some x =>
      rw [List.mem_singleton.mp (List.mem_of_getElem? hx)]
      rfl

theorem SerialRun.abort (h : SerialRun evs log) (i : Nat) :
    SerialRun (evs ++ [.abort i]) log := by
  refine h.keep rfl rfl fun j => ?_
  change ((State.after evs).sessions.modify i Session.abort)[j]?.bind Session.reply? = _
  rw [List.getElem?_modify]
  cases (State.after evs).sessions[j]? with
  | none => rfl
  | some x =>
    change (if i = j then x.abort else x).reply? = x.reply?
    split
    · cases x <;> rfl
    · rfl

theorem step_advance {s : State} (hx : s.sessions[i]? = some x) (ch : Choice) :
    (State.step s (.advance i ch)).1 =
      ⟨x.commit s.committed s.lockedTask,
        s.sessions.set i (x.next s.committed s.lockedTask s.lockedDlq ch)⟩ := by
  simp only [State.step, hx]

theorem reply?_set {l : List Session} (hx : l[i]? = some x) (x' : Session) (j : Nat) :
    (l.set i x')[j]?.bind Session.reply? =
      if j = i then x'.reply? else l[j]?.bind Session.reply? := by
  obtain ⟨hi, -⟩ := List.getElem?_eq_some_iff.mp hx
  by_cases hj : j = i
  · rw [if_pos hj, hj, List.getElem?_set_self hi]
    rfl
  · rw [if_neg hj, List.getElem?_set_ne (Ne.symm hj)]

theorem answer?_advance {s : State} (hx : s.sessions[i]? = some x) (ch : Choice) :
    State.answer? (entry State.step s (.advance i ch)) =
      if x.reply?.isSome then none
      else (x.next s.committed s.lockedTask s.lockedDlq ch).reply?.map fun reply => (i, reply) := by
  simp only [State.answer?, entry, step_advance hx, reply?_set hx, hx, Option.bind_some, if_true]

/-- What the transactions have found covers the dead letters that have lasted. -/
def AllFound (evs : List Event) : Prop :=
  ∀ (i : Nat) (x : Session), (State.after evs).sessions[i]? = some x → x.Found (Lasts evs i)

theorem AllFound.advance (h : AllFound evs) (i : Nat) (ch : Choice) :
    AllFound (evs ++ [.advance i ch]) := by
  intro j y hy
  have hold : ∀ z, (State.after evs).sessions[j]? = some z →
      z.Found (Lasts (evs ++ [.advance i ch]) j) :=
    fun z hz => (h j z hz).imp fun _ => Lasts.of_concat
  rw [after_concat] at hy
  cases hx : (State.after evs).sessions[i]? with
  | none =>
    simp only [State.step, hx] at hy
    exact hold y hy
  | some x =>
    rw [step_advance hx] at hy
    by_cases hj : j = i
    · subst hj
      obtain ⟨hi, -⟩ := List.getElem?_eq_some_iff.mp hx
      rw [List.getElem?_set_self hi] at hy
      obtain rfl := Option.some.inj hy
      cases hopen : x.reply? with
      | none =>
        -- the transaction is open now, so what lasts is there now
        refine Session.found_next (fun d hl => ?_) ch (hold x hx)
        exact hl.of_concat evs x List.prefix_rfl hx hopen
      | some reply =>
        cases x with
        | ended => trivial
        | begun | insert | relookup | redriving | purging | opened | aborted => cases hopen
    · rw [List.getElem?_set_ne (Ne.symm hj)] at hy
      exact hold y hy

theorem AllFound.begin (h : AllFound evs) (op : Op) : AllFound (evs ++ [.begin op]) := by
  intro j y hy
  rw [after_concat] at hy
  change ((State.after evs).sessions ++ [.begun op])[j]? = some y at hy
  rw [List.getElem?_append] at hy
  split at hy
  · exact (h j y hy).imp fun _ => Lasts.of_concat
  · rw [List.mem_singleton.mp (List.mem_of_getElem? hy)]
    trivial

theorem AllFound.abort (h : AllFound evs) (i : Nat) : AllFound (evs ++ [.abort i]) := by
  intro j y hy
  rw [after_concat] at hy
  change ((State.after evs).sessions.modify i Session.abort)[j]? = some y at hy
  rw [List.getElem?_modify] at hy
  obtain ⟨x, hx, rfl⟩ := Option.map_eq_some_iff.mp hy
  split
  · cases x <;> trivial
  · exact (h j x hx).imp fun _ => Lasts.of_concat

/-- One statement of a transaction is a whole call if it answers, and nothing otherwise. -/
theorem SerialRun.advance (h : SerialRun evs log) (hinv : Inv (calls evs) (State.after evs))
    (hfound : AllFound evs) (i : Nat) (ch : Choice)
    (hc : EnqueueClear (State.after evs) (.advance i ch)) :
    (∃ log', SerialRun (evs ++ [.advance i ch]) log') ∧
      Inv (calls evs) (State.step (State.after evs) (.advance i ch)).1 := by
  cases hx : (State.after evs).sessions[i]? with
  | none =>
    have hstay : (State.step (State.after evs) (.advance i ch)).1 = State.after evs := by
      simp only [State.step, hx]
    rw [hstay]
    refine ⟨⟨log, h.keep (congrArg State.committed hstay) ?_ fun j => by rw [hstay]⟩, hinv⟩
    simp only [State.answer?, entry, hstay, hx]
    rfl
  | some x =>
    obtain ⟨op, hop⟩ : ∃ op, (calls evs)[i]? = some op := by
      obtain ⟨hi, -⟩ := List.getElem?_eq_some_iff.mp hx
      exact ⟨_, List.getElem?_eq_getElem (hinv.length ▸ hi)⟩
    have hof := hinv.calls i x op hx hop
    have hready : ∀ tx, x = .opened tx → Ready (State.after evs).committed tx := by
      rintro tx rfl
      apply hinv.held.ready (i := i)
      rw [State.txs, hx]
      rfl
    have hp : Progress _ _ _ op x _ (x.next (State.after evs).committed
        (State.after evs).lockedTask (State.after evs).lockedDlq ch) :=
      next_progress hinv.home hof hready (hc x hx)
    have hended := reply?_set hx
      (x.next (State.after evs).committed (State.after evs).lockedTask
        (State.after evs).lockedDlq ch)
    refine ⟨?_, step_advance hx ch ▸ hinv.advance hx hop (hfound i x hx) ch hp⟩
    rcases hinv.served hx hof (hfound i x hx) ch hp with
      ⟨hdb, hreply⟩ | ⟨reply, ch', op', hopen, hx', hs, hstep⟩
    · refine ⟨log, h.keep ?_ ?_ ?_⟩
      · rw [step_advance hx]
        exact hdb
      · rw [answer?_advance hx, hreply]
        cases x.reply? <;> rfl
      · intro j
        rw [step_advance hx, hended]
        split
        · rename_i hj
          rw [hreply, hj, hx]
          rfl
        · rfl
    · have hanswer : State.answer? (entry State.step (State.after evs) (.advance i ch)) =
          some (i, reply) := by
        rw [answer?_advance hx, hopen, hx']
        rfl
      refine ⟨log ++ [(i, ch', op')], h.concat ?_ hanswer hop hs ?_ ?_⟩
      · rw [hx]
        exact hopen
      · rw [step_advance hx]
        exact hstep
      · intro j
        rw [step_advance hx, hended, hx']
        rfl

end Run

end Rdq.Postgres.Statements
