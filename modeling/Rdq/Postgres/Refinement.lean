import Rdq.MemStore.ClaimDue
import Rdq.Postgres.DeadLetters
import Rdq.Postgres.Simulation

/-!
# Postgres refines the reference store

The memstore and Postgres run side by side on one sequence of calls. A call reaches
both with the same arguments and clock reading, its token renamed for Postgres. Every
call then gets the same answer from both, and leaves both with the same tasks.

## Implementation notes

The claims the memstore handed out are kept next to the stores, since a worker numbers
an attempt by the history it saw in its claim. The calls are serial, so no row is
locked and a claim of Postgres sees all rows; the order of the scan stays open. A lease
is added to the clock exactly; Postgres gets it as a floating-point number of seconds,
which tells whole microseconds apart up to leases of 142 years. The columns hold every
text and every integer.
-/

namespace Rdq.Refinement

open Rdq.Foundation Rdq.Postgres
open Rdq.MemStore (Record Store LifecycleInv status_of_isDue dueBefore_eq_false_iff dueInOrder
  mem_dueInOrder dueInOrder_ids_nodup)

/-! ## Two stores, one sequence of calls -/

inductive Call
  | op (op : Op)
  | get (id : TaskID)

inductive Answer
  | reply (r : Reply)
  | task (t : Except StorageError Envelope)

/-- Both stores, and the claims the memstore handed out so far. -/
structure Both where
  mem : Store
  pg : Database
  seen : List Claimed

def Both.new : Both := ⟨Store.new, Database.new, []⟩

section
variable (ρ : ClaimToken → ClaimToken)

/-- The call with its token renamed. -/
def renameToken : Op → Op
  | .extendLease id token lease now => .extendLease id (ρ token) lease now
  | .reschedule id token att nextAt => .reschedule id (ρ token) att nextAt
  | .complete id token att now => .complete id (ρ token) att now
  | .deadLetter id token att now => .deadLetter id (ρ token) att now
  | op => op

/-- Perform a call on both stores. -/
def bothStep (b : Both) (i : Call × Choice) : Both × (Answer × Answer) :=
  match i.1 with
  | .op op =>
    let m := MemStore.step b.mem op
    let p := Postgres.step b.pg i.2 (renameToken ρ op)
    (⟨m.1, p.1, b.seen ++ m.2.claims⟩, .reply m.2, .reply p.2)
  | .get id => (b, .task (b.mem.get id), .task (Postgres.get b.pg b.pg id))

/-- The attempt is numbered one past the history seen in the claim. -/
def NumberedPast (b : Both) (id : TaskID) (token : ClaimToken) (att : Attempt) : Prop :=
  ∀ c ∈ b.seen, c.task.id = id → c.token = token → att.attemptNo = c.task.attempts.length + 1

instance (b : Both) (id : TaskID) (token : ClaimToken) (att : Attempt) :
    Decidable (NumberedPast b id token att) :=
  inferInstanceAs (Decidable (∀ c ∈ _, _))

/-- No two due tasks of a queue have the same `next_attempt_at`. -/
def NoTies (s : Store) (queue : String) (now : Time) : Prop :=
  ∀ id id' r r', s.tasks.find? id = some r → s.tasks.find? id' = some r' →
    r.env.queue = queue → r'.env.queue = queue → MemStore.isDue r now = true →
    MemStore.isDue r' now = true → r.env.nextAttemptAt = r'.env.nextAttemptAt → id = id'

/-- The calls of a comparable run: tasks as `Submit` builds them, with a payload; claims
without ties, which see all rows of Postgres and mint the renamed tokens; attempts
numbered one past the history seen; selectors without repeated ids. -/
def Admissible (b : Both) (i : Call × Choice) : Prop :=
  match i.1 with
  | .get _ => True
  | .op (.enqueue task) => task.SubmitShaped ∧ task.payload ≠ none
  | .op (.claimDue queue limit lease now) =>
    NoTies b.mem queue now ∧ (∀ row ∈ b.pg.task.rows, row.id ∈ i.2.scan) ∧
      ∀ c ∈ (MemStore.step b.mem (.claimDue queue limit lease now)).2.claims,
        i.2.mint c.task.id = ρ c.token
  | .op (.extendLease ..) => True
  | .op (.reschedule id token att _) => NumberedPast b id token att
  | .op (.complete id token att _) => NumberedPast b id token att
  | .op (.deadLetter id token att _) => NumberedPast b id token att
  | .op (.redrive _ sel _) => sel.ids.Nodup
  | .op (.purge _ sel) => sel.ids.Nodup
  | .op (.purgeSucceeded ..) => False

/-- The same task, as far as both stores tell of it. -/
structure SameTask (e e' : Envelope) : Prop where
  id : e.id = e'.id
  queue : e.queue = e'.queue
  status : e.status = e'.status
  attemptCount : e.attemptCount = e'.attemptCount
  redriveCount : e.redriveCount = e'.redriveCount
  nextAttemptAt : e.nextAttemptAt = e'.nextAttemptAt
  leaseExpiresAt : e.leaseExpiresAt = e'.leaseExpiresAt
  attempts : e.attempts.map attemptKind = e'.attempts.map attemptKind

/-- Both lookups find the same task, or fail alike. -/
def SameGet : Except StorageError Envelope → Except StorageError Envelope → Prop
  | .ok e, .ok e' => SameTask e e'
  | .error err, .error err' => err = err'
  | _, _ => False

/-- Both stores hold the same tasks, and Postgres each of them once. -/
def SameTasks (s : Store) (db : Database) : Prop :=
  ∀ id, SameGet (s.get id) (Postgres.get db db id) ∧ (db.view id).AtHome

/-- The ids of the claims with their tokens. -/
def grantsOf (cs : List Claimed) : List (TaskID × ClaimToken) :=
  cs.map fun c => (c.task.id, c.token)

/-- Both answers say the same. -/
def SameAnswer : Answer → Answer → Prop
  | .reply .done, .reply .done => True
  | .reply (.count n), .reply (.count n') => n = n'
  | .reply (.failed e), .reply (.failed e') => e = e'
  | .reply (.claimed cs), .reply (.claimed cs') =>
    ((grantsOf cs).map fun g => (g.1, ρ g.2)).Perm (grantsOf cs')
  | .task t, .task t' => SameGet t t'
  | _, _ => False

end

/-! ## Reading both stores -/

variable {ρ : ClaimToken → ClaimToken}

variable {s : Store} {db : Database} {b : Both} {ch : Choice} {i : TaskID} {token : ClaimToken}
  {att : Attempt} {now : Time} {r : Record} {row : TaskRow} {queue : String} {sel : Selector}

/-- Both stores are related, and every claim in force was handed out with the history
the task still has. -/
structure Related (ρ : ClaimToken → ClaimToken) (b : Both) : Prop where
  lifecycle : LifecycleInv b.mem
  tasks : ∀ id, Sim ρ (b.mem.tasks.find? id) (b.pg.view id)
  held : ∀ id r, b.mem.tasks.find? id = some r → r.env.status = .inFlight →
    ∃ c ∈ b.seen, c.task.id = id ∧ c.token = r.token ∧ c.task.attempts = r.env.attempts

theorem kind_attemptFromRow (a : AttemptRow) : attemptKind (attemptFromRow a) = rowKind a := by
  simp [attemptKind, rowKind, attemptFromRow, Option.map_map, Function.comp_def]

/-- The attempts come back in the order in which they were written. -/
theorem kinds_loadAttempts {id : TaskID} {atts : List Attempt}
    (h : SimAttempts atts (db.attemptsOf id)) :
    ((db.loadAttempts id).map attemptFromRow).map attemptKind = atts.map attemptKind := by
  rw [Database.loadAttempts, h.sorted.insertionSort_eq, List.map_map, ← h.kinds]
  exact List.map_congr_left fun a _ => kind_attemptFromRow a

theorem sameTask_of_row {id : TaskID} (hid : r.id = id) (hid' : row.id = id) (hrow : SimRow ρ r row)
    (hatts : SimAttempts r.env.attempts (db.attemptsOf id)) :
    SameTask r.env (envelopeFromRows row (db.loadAttempts id)) where
  id := hid.trans hid'.symm
  queue := hrow.queue.symm
  status := hrow.status.symm
  attemptCount := hrow.attemptCount.symm
  redriveCount := hrow.redriveCount.symm
  nextAttemptAt := hrow.nextAttemptAt.symm
  leaseExpiresAt := hrow.leaseExpiresAt.symm
  attempts := (kinds_loadAttempts hatts).symm

theorem sameTasks (h : ∀ id, Sim ρ (s.tasks.find? id) (db.view id)) : SameTasks s db := by
  intro id
  have hsim := h id
  have hkey : ∀ r, s.tasks.find? id = some r → r.id = id := fun r => KeyedTable.key_of_find?
  have hrowkey : ∀ row, db.task.find? id = some row → row.id = id :=
    fun row => KeyedTable.key_of_find?
  have hdlqkey : ∀ d, db.dlq.find? id = some d → d.id = id := fun d => KeyedTable.key_of_find?
  unfold Store.get Postgres.get Tables.taskRow?
  generalize s.tasks.find? id = found at hsim hkey
  generalize hview : db.view id = v at hsim
  have htask : db.task.find? id = v.task := congrArg View.task hview
  have hdlq : db.dlq.find? id = v.dlq := congrArg View.dlq hview
  have hatts : db.attemptsOf id = v.attempts := congrArg View.attempts hview
  cases hsim with
  | absent =>
    simp only [htask, hdlq, Option.map_none]
    exact ⟨rfl, Or.inl rfl⟩
  | live r row atts hrow _ hatts' =>
    simp only [htask]
    exact ⟨sameTask_of_row (hkey r rfl) (hrowkey row htask) hrow (hatts ▸ hatts'), Or.inr rfl⟩
  | dead r d atts hrow _ hatts' =>
    simp only [htask, hdlq, Option.map_some]
    exact ⟨sameTask_of_row (hkey r rfl) (hdlqkey d hdlq) hrow (hatts ▸ hatts'), Or.inl rfl⟩

/-! ## Calls under a token -/

theorem resolveClaim_of_live {id : TaskID} (hr : s.tasks.find? id = some r)
    (hst : r.env.status = .inFlight) (hne : r.token ≠ "") (ht : r.token = token) :
    s.resolveClaim id token = .ok r := by
  rw [Store.resolveClaim, hr]
  exact if_neg (by simp [hst, ht, ht ▸ hne])

/-- The memstore accepts a token exactly when Postgres accepts the renamed one. -/
theorem live_iff_fenced {id : TaskID} (hρ : Function.Injective ρ)
    (h : Sim ρ (s.tasks.find? id) (db.view id)) (token : ClaimToken) :
    MemStore.Live s id token ↔
      ∃ row, db.task.find? id = some row ∧ row.Fenced (ρ token) := by
  generalize hfound : s.tasks.find? id = found at h
  generalize hview : db.view id = v at h
  have htask : db.task.find? id = v.task := congrArg View.task hview
  constructor
  · rintro ⟨r, hr, hst, hne, rfl⟩
    obtain rfl : found = some r := hfound.symm.trans hr
    obtain ⟨row, hv, hrow⟩ := h.live_row (by simp [hst])
    refine ⟨row, by rw [htask, hv], hrow.status.trans hst, ?_⟩
    rw [hrow.claimToken, tokenColumn_of_ne hne]
  · rintro ⟨row, hrow, hst, htoken⟩
    rw [htask] at hrow
    cases h with
    | absent => cases hrow
    | dead => cases hrow
    | live r _ _ hsim =>
      cases hrow
      rw [hsim.claimToken] at htoken
      have hne : r.token ≠ "" := by
        intro he
        rw [he, tokenColumn_empty] at htoken
        cases htoken
      rw [tokenColumn_of_ne hne, Option.some.injEq] at htoken
      exact ⟨r, hfound, hsim.status ▸ hst, hne, hρ htoken⟩

/-- A fenced update of a free attempt number is accepted. -/
theorem spendClaim_of_fenced (hrow : db.task.find? i = some row) (hfenced : row.Fenced token)
    (hfree : ∀ a ∈ db.attemptsOf i, a.attemptNo ≠ att.attemptNo) (f : TaskRow → TaskRow)
    (hf : ∀ r, (f r).id = r.id) :
    ∃ db', db.spendClaim i token att f hf = (db', .ok ()) ∧
      db'.view i = ⟨some (f row), db.dlq.find? i,
        db.attemptsOf i ++ [attemptRowFromAttempt i att]⟩ ∧
      ∀ id, id ≠ i → db'.view id = db.view id := by
  obtain ⟨db', hins⟩ : ∃ db', { db with task := db.task.modify i f hf }.insertAttempt
      (attemptRowFromAttempt i att) = some db' := ⟨_, insertAttempt_of_free _ _ hfree⟩
  have hfilter : ((db.task.find? i).filter fun r => r.Fenced token) = some row := by
    rw [hrow, Option.filter_some, if_pos (decide_eq_true hfenced)]
  refine ⟨db', ?_, ?_, ?_⟩
  · unfold Database.spendClaim
    rw [hfilter]
    simp only [hins]
  · rw [view_insertAttempt hins]
    simp only [KeyedTable.find?_modify_self, hrow, Option.map_some, if_true, Database.attemptsOf]
  · intro id hid
    rw [view_insertAttempt hins]
    simp only [Database.view, Database.attemptsOf, KeyedTable.find?_modify_of_ne _ _ _ hid,
      if_neg (Ne.symm hid), List.append_nil]

/-- Dead-lettering a live task under a free attempt number is accepted. -/
theorem deadLetter_of_fenced (hrow : db.task.find? i = some row) (hfenced : row.Fenced token)
    (hfree : ∀ a ∈ db.attemptsOf i, a.attemptNo ≠ att.attemptNo) (hhome : db.dlq.find? i = none) :
    ∃ db', db.deadLetter i token att now = (db', .ok ()) ∧
      db'.view i = ⟨none, some (row.deadLetter now (errType att)),
        db.attemptsOf i ++ [attemptRowFromAttempt i att]⟩ ∧
      ∀ id, id ≠ i → db'.view id = db.view id := by
  obtain rfl : row.id = i := KeyedTable.key_of_find? hrow
  have hplace : db.dlq.find? (row.deadLetter now (errType att)).id = none := hhome
  obtain ⟨db', hins⟩ : ∃ db',
      { db with
        task := db.task.erase row.id
        dlq := db.dlq.insertNew (row.deadLetter now (errType att)) }.insertAttempt
      (attemptRowFromAttempt row.id att) = some db' := ⟨_, insertAttempt_of_free _ _ hfree⟩
  have hfilter : ((db.task.find? row.id).filter fun r => r.Fenced token) = some row := by
    rw [hrow, Option.filter_some, if_pos (decide_eq_true hfenced)]
  have hdead : (db.dlq.insertNew (row.deadLetter now (errType att))).find? row.id =
      some (row.deadLetter now (errType att)) := KeyedTable.find?_insertNew_self hplace
  refine ⟨db', ?_, ?_, ?_⟩
  · unfold Database.deadLetter
    rw [hfilter]
    simp only [hplace, if_true, hins]
  · rw [view_insertAttempt hins]
    simp only [KeyedTable.find?_erase_self, hdead, if_true, Database.attemptsOf]
  · intro id hid
    have hother : (db.dlq.insertNew (row.deadLetter now (errType att))).find? id =
        db.dlq.find? id := KeyedTable.find?_insertNew_of_ne _ (Ne.symm hid)
    rw [view_insertAttempt hins]
    simp only [Database.view, Database.attemptsOf, KeyedTable.find?_erase_of_ne _ hid, hother,
      if_neg (Ne.symm hid), List.append_nil]

/-- A fenced call under any other token is refused and changes nothing. -/
theorem step_of_not_fenced {op : Op} (hop : op.fenced? = some (i, token))
    (h : ¬ ∃ row, db.task.find? i = some row ∧ row.Fenced token) :
    Postgres.step db ch op = (db, .failed .staleClaim) := by
  have hfilter : ((db.task.find? i).filter fun r => r.Fenced token) = none := by
    rw [Option.filter_eq_none_iff]
    intro row hrow hf
    exact h ⟨row, hrow, of_decide_eq_true hf⟩
  cases op with
  | extendLease | reschedule | complete | deadLetter =>
    cases hop
    simp [Postgres.step, Database.extendLease, Database.reschedule, Database.complete,
      Database.deadLetter, Database.spendClaim, hfilter, Reply.ofUnit]
  | enqueue | claimDue | redrive | purge | purgeSucceeded => cases hop

/-- The call leaves both stores with the same tasks, and answers alike. -/
structure StepOk (ρ : ClaimToken → ClaimToken) (b : Both) (ch : Choice) (op : Op) : Prop where
  tasks : ∀ id, Sim ρ ((MemStore.step b.mem op).1.tasks.find? id)
    ((Postgres.step b.pg ch (renameToken ρ op)).1.view id)
  answers : SameAnswer ρ (.reply (MemStore.step b.mem op).2)
    (.reply (Postgres.step b.pg ch (renameToken ρ op)).2)

theorem fenced?_renameToken {op : Op} (h : op.fenced? = some (i, token)) :
    (renameToken ρ op).fenced? = some (i, ρ token) := by
  cases op with
  | extendLease | reschedule | complete | deadLetter =>
    cases h
    rfl
  | enqueue | claimDue | redrive | purge | purgeSucceeded => cases h

/-- A number past all others is free. -/
theorem free_number (hsim : Sim ρ (some r) ⟨some row, none, db.attemptsOf i⟩)
    (hno : att.attemptNo = (db.attemptsOf i).length + 1) :
    ∀ a ∈ db.attemptsOf i, a.attemptNo ≠ att.attemptNo := by
  intro a ha
  have hle := (hsim.attempts.mem_numbers ha).2
  simp only at hle
  omega

/-- A call that both stores accept, and that changes one task in each. -/
theorem stepOk_of_change (hb : Related ρ b) {op : Op} {v : View}
    (hmem : MemStore.step b.mem op = (s, .done)) (hfind : s.tasks.find? i = some r)
    (hother : ∀ id, id ≠ i → s.tasks.find? id = b.mem.tasks.find? id)
    (hpg : Postgres.step b.pg ch (renameToken ρ op) = (db, .done)) (hview : db.view i = v)
    (hsame : ∀ id, id ≠ i → db.view id = b.pg.view id) (hsim : Sim ρ (some r) v) :
    StepOk ρ b ch op := by
  refine ⟨fun id => ?_, ?_⟩
  · rw [hmem, hpg]
    by_cases hid : id = i
    · rw [hid, hfind, hview]
      exact hsim
    · rw [hother id hid, hsame id hid]
      exact hb.tasks id
  · rw [hmem, hpg]
    trivial

section Fenced
variable {b : Both} (hb : Related ρ b) (hρ : Function.Injective ρ) (ch : Choice)
include hb hρ

theorem stepOk_of_not_live {op : Op} (hop : op.fenced? = some (i, token))
    (h : ¬ MemStore.Live b.mem i token) :
    StepOk ρ b ch op := by
  have hpg := @step_of_not_fenced b.pg ch i (ρ token) _ (fenced?_renameToken hop)
    (mt (live_iff_fenced hρ (hb.tasks i) token).mpr h)
  have hmem := MemStore.step_of_not_live hop h
  refine ⟨fun id => ?_, ?_⟩
  · rw [hmem, hpg]
    exact hb.tasks id
  · rw [hmem, hpg]
    rfl

/-- What both stores hold about a claimed task. -/
theorem rows_of_live (h : MemStore.Live b.mem i token) :
    ∃ r row, b.mem.tasks.find? i = some r ∧ b.mem.resolveClaim i token = .ok r ∧
      b.pg.task.find? i = some row ∧ row.Fenced (ρ token) ∧ b.pg.dlq.find? i = none ∧
      Sim ρ (some r) ⟨some row, none, b.pg.attemptsOf i⟩ ∧
      ∀ att, NumberedPast b i token att → att.attemptNo = (b.pg.attemptsOf i).length + 1 := by
  obtain ⟨row, hrow, hfenced⟩ := (live_iff_fenced hρ (hb.tasks i) token).mp h
  obtain ⟨r, hr, hst, hne, rfl⟩ := h
  have hsim := hb.tasks i
  rw [hr] at hsim
  obtain ⟨row', hv, -⟩ := hsim.live_row (by simp [hst])
  have hdlq : b.pg.dlq.find? i = none := congrArg View.dlq hv
  have htask : some row = some row' := hrow.symm.trans (congrArg View.task hv)
  obtain rfl := Option.some.inj htask
  refine ⟨r, row, hr, resolveClaim_of_live hr hst hne rfl, hrow, hfenced, hdlq, ?_, ?_⟩
  · exact hv ▸ hsim
  · intro att hatt
    obtain ⟨c, hc, hid, htoken, hatts⟩ := hb.held i r hr hst
    have hlen : (b.pg.attemptsOf i).length = r.env.attempts.length := hsim.attempts.length
    rw [hatt c hc hid htoken, hatts, hlen]

theorem extendLease_stepOk (i : TaskID) (token : ClaimToken) (lease : Duration) (now : Time) :
    StepOk ρ b ch (.extendLease i token lease now) := by
  by_cases hlive : MemStore.Live b.mem i token
  · obtain ⟨r, row, hr, hres, hrow, hfenced, hdlq, hsim, -⟩ := rows_of_live hb hρ hlive
    have hfilter : ((b.pg.task.find? i).filter fun x => x.Fenced (ρ token)) = some row := by
      rw [hrow, Option.filter_some, if_pos (decide_eq_true hfenced)]
    refine stepOk_of_change hb (i := i) (r := r.extendLease now lease)
      (by simp only [MemStore.step, Store.extendLease, hres, Prod.map_apply, id_eq]; rfl) ?_ ?_
      (by simp only [Postgres.step, renameToken, Database.extendLease, hfilter,
        Prod.map_apply, id_eq]; rfl) rfl ?_ ?_
    · simp only [KeyedTable.find?_modify_self, hr, Option.map_some]
    · intro id hid
      rw [KeyedTable.find?_modify_of_ne _ _ _ hid]
    · intro id hid
      simp only [Database.view, Database.attemptsOf, KeyedTable.find?_modify_of_ne _ _ _ hid]
    · simp only [Database.view, KeyedTable.find?_modify_self, hrow, hdlq, Option.map_some]
      exact hsim.extendLease now lease
  · exact stepOk_of_not_live hb hρ ch rfl hlive

theorem reschedule_stepOk (nextAt : Time) (hatt : NumberedPast b i token att) :
    StepOk ρ b ch (.reschedule i token att nextAt) := by
  by_cases hlive : MemStore.Live b.mem i token
  · obtain ⟨r, row, hr, hres, hrow, hfenced, hdlq, hsim, hno⟩ := rows_of_live hb hρ hlive
    obtain ⟨db, hdb, hview, hsame⟩ := spendClaim_of_fenced hrow hfenced
      (free_number hsim (hno att hatt)) _ (TaskRow.id_reschedule nextAt)
    rw [hdlq] at hview
    refine stepOk_of_change hb (i := i) (r := r.reschedule att nextAt)
      (by simp only [MemStore.step, Store.reschedule, hres, Prod.map_apply, id_eq]; rfl) ?_ ?_
      (by
        simp only [Postgres.step, renameToken, Database.reschedule, hdb, Prod.map_apply, id_eq]
        rfl)
      hview hsame
      (hsim.reschedule (kind_of_attempt i att) (hno att hatt) nextAt)
    · simp only [KeyedTable.find?_modify_self, hr, Option.map_some]
    · intro id hid
      rw [KeyedTable.find?_modify_of_ne _ _ _ hid]
  · exact stepOk_of_not_live hb hρ ch rfl hlive

theorem complete_stepOk (now : Time) (hatt : NumberedPast b i token att) :
    StepOk ρ b ch (.complete i token att now) := by
  by_cases hlive : MemStore.Live b.mem i token
  · obtain ⟨r, row, hr, hres, hrow, hfenced, hdlq, hsim, hno⟩ := rows_of_live hb hρ hlive
    obtain ⟨db, hdb, hview, hsame⟩ := spendClaim_of_fenced hrow hfenced
      (free_number hsim (hno att hatt)) _ TaskRow.id_complete
    rw [hdlq] at hview
    refine stepOk_of_change hb (i := i) (r := r.complete att now)
      (by simp only [MemStore.step, Store.complete, hres, Prod.map_apply, id_eq]; rfl) ?_ ?_
      (by
        simp only [Postgres.step, renameToken, Database.complete, hdb, Prod.map_apply, id_eq]
        rfl)
      hview hsame
      (hsim.complete (kind_of_attempt i att) (hno att hatt) now)
    · simp only [KeyedTable.find?_modify_self, hr, Option.map_some]
    · intro id hid
      rw [KeyedTable.find?_modify_of_ne _ _ _ hid]
  · exact stepOk_of_not_live hb hρ ch rfl hlive

theorem deadLetter_stepOk (now : Time) (hatt : NumberedPast b i token att) :
    StepOk ρ b ch (.deadLetter i token att now) := by
  by_cases hlive : MemStore.Live b.mem i token
  · obtain ⟨r, row, hr, hres, hrow, hfenced, hdlq, hsim, hno⟩ := rows_of_live hb hρ hlive
    obtain ⟨db, hdb, hview, hsame⟩ := @deadLetter_of_fenced b.pg i (ρ token) att now row hrow
      hfenced (free_number hsim (hno att hatt)) hdlq
    refine stepOk_of_change hb (i := i) (r := r.deadLetter att now (b.mem.dlqSeq + 1))
      (by simp only [MemStore.step, Store.deadLetter, hres, Prod.map_apply, id_eq]; rfl) ?_ ?_
      (by simp only [Postgres.step, renameToken, hdb, Prod.map_apply, id_eq]; rfl) hview hsame
      (hsim.deadLetter (kind_of_attempt i att) (hno att hatt) now _)
    · simp only [KeyedTable.find?_modify_self, hr, Option.map_some]
    · intro id hid
      rw [KeyedTable.find?_modify_of_ne _ _ _ hid]
  · exact stepOk_of_not_live hb hρ ch rfl hlive

end Fenced

/-! ## Submitting -/

theorem lookupQueue_of_sim {id : TaskID} (h : Sim ρ (s.tasks.find? id) (db.view id)) :
    db.lookupQueue id = (s.tasks.find? id).map fun r => r.env.queue := by
  generalize hview : db.view id = v at h
  have htask : db.task.find? id = v.task := congrArg View.task hview
  have hdlq : db.dlq.find? id = v.dlq := congrArg View.dlq hview
  unfold Tables.lookupQueue Tables.taskRow?
  generalize s.tasks.find? id = found at h
  cases h with
  | absent => simp [htask, hdlq]
  | live r row atts hrow => simp [htask, hrow.queue]
  | dead r d atts hrow => simp [htask, hdlq, hrow.queue]

theorem enqueue_stepOk (hb : Related ρ b) (ch : Choice) {task : Envelope}
    (hshape : task.SubmitShaped) (hpayload : task.payload ≠ none) :
    StepOk ρ b ch (.enqueue task) := by
  have hlook := lookupQueue_of_sim (hb.tasks task.id)
  cases hfind : b.mem.tasks.find? task.id with
  | some r =>
    rw [hfind, Option.map_some] at hlook
    refine ⟨fun id => ?_, ?_⟩
    · simp only [MemStore.step, Store.enqueue, hfind, Postgres.step, renameToken,
        Database.enqueue, hlook, Prod.map_fst, id_eq]
      split <;> exact hb.tasks id
    · simp only [MemStore.step, Store.enqueue, hfind, Postgres.step, renameToken,
        Database.enqueue, hlook, Prod.map_snd]
      split
      · exact rfl
      · trivial
  | none =>
    rw [hfind, Option.map_none] at hlook
    obtain ⟨htask, hdlq⟩ := Tables.lookupQueue_eq_none_iff.mp hlook
    have hsim := hb.tasks task.id
    have hatts : b.pg.attemptsOf task.id = [] := by
      generalize hview : b.pg.view task.id = v at hsim
      rw [hfind] at hsim
      cases hsim
      exact congrArg View.attempts hview
    have hstorable : (taskRowFromEnvelope task).Storable :=
      ⟨hpayload, by simp [taskRowFromEnvelope, hshape.pending]⟩
    have hnew : (b.pg.task.insertNew (taskRowFromEnvelope task)).find? task.id =
        some (taskRowFromEnvelope task) := KeyedTable.find?_insertNew_self htask
    have hrec : (b.mem.tasks.insertNew { env := task }).find? task.id =
        some { env := task } := KeyedTable.find?_insertNew_self hfind
    have hpg : Postgres.step b.pg ch (renameToken ρ (.enqueue task)) =
        ({ b.pg with task := b.pg.task.insertNew (taskRowFromEnvelope task) }, .done) := by
      simp only [Postgres.step, renameToken, Database.enqueue, hlook, if_pos hstorable,
        attemptRowsFromEnvelope, hshape.no_attempts, List.map_nil, List.foldlM_nil]
      rfl
    refine stepOk_of_change hb (i := task.id) (r := { env := task })
      (by simp only [MemStore.step, Store.enqueue, hfind, Prod.map_apply, id_eq]; rfl) hrec
      ?_ hpg rfl ?_ ?_
    · intro id hid
      exact KeyedTable.find?_insertNew_of_ne _ (Ne.symm hid)
    · intro id hid
      have hother : (b.pg.task.insertNew (taskRowFromEnvelope task)).find? id =
          b.pg.task.find? id := KeyedTable.find?_insertNew_of_ne _ (Ne.symm hid)
      simp only [Database.view, Database.attemptsOf, hother]
    · have hview : ({ b.pg with task := b.pg.task.insertNew (taskRowFromEnvelope task) } :
          Database).view task.id = ⟨some (taskRowFromEnvelope task), none, []⟩ := by
        rw [Database.view, View.mk.injEq]
        exact ⟨hnew, hdlq, hatts⟩
      rw [hview]
      exact Sim.admitted hshape

/-! ## Redriving and purging -/

theorem selectDead_ids_nodup (hsel : sel.ids.Nodup) :
    ((s.selectDead queue sel).map Record.id).Nodup :=
  MemStore.ids_selectDead_nodup_iff.mpr fun id _ _ _ _ =>
    List.nodup_iff_count_le_one.mp hsel id

/-- Postgres keeps no empty error type. -/
theorem finalType_eq (r : Record) :
    finalType r.env.attempts = r.letter.errorType.filter fun t => t ≠ "" := by
  unfold finalType errType Record.letter
  cases r.env.attempts.getLast? <;> rfl

/-- Postgres chooses the dead letters that the memstore chooses. -/
theorem chooses_iff {d : DlqRow} (hid : d.id = r.id) (hrow : SimRow ρ r d.row)
    (hat : d.deadLetteredAt = r.terminalAt) (htype : d.errorType = finalType r.env.attempts)
    (sel : Selector) : sel.Chooses r.letter ↔ sel.Chooses d.letter := by
  have herr : ∀ type : String, (type = "" ∨ r.letter.errorType = some type) ↔
      (type = "" ∨ d.letter.errorType = some type) := by
    intro type
    rw [DlqRow.letter, htype, finalType_eq, Option.filter_eq_some_iff]
    by_cases he : type = "" <;> simp [he]
  unfold Selector.Chooses DLQFilter.Matches
  simp only [herr]
  simp only [Record.letter, DlqRow.letter, hid, hat, hrow.handlerRef]

/-- The selected ids are the same in both stores. -/
theorem mem_selected_iff (h : ∀ id, Sim ρ (s.tasks.find? id) (db.view id)) (id : TaskID) :
    id ∈ (s.selectDead queue sel).map Record.id ↔
      id ∈ (db.dlq.rows.filter (dlqSelects queue sel)).map DlqRow.id := by
  rw [MemStore.mem_ids_selectDead, mem_ids_selected]
  have hsim := h id
  generalize hfound : s.tasks.find? id = found at hsim
  generalize hview : db.view id = v at hsim
  have hdlq : db.dlq.find? id = v.dlq := congrArg View.dlq hview
  constructor
  · rintro ⟨r, hr, hqueue, hdead, hchosen⟩
    obtain rfl := hfound.symm.trans hr
    cases hsim with
    | live _ _ _ _ halive => exact absurd hdead halive
    | dead _ d _ hrow _ _ hat htype =>
      have hid := (KeyedTable.key_of_find? hdlq).trans (KeyedTable.key_of_find? hr).symm
      exact ⟨d, hdlq, hrow.queue.trans hqueue, (chooses_iff hid hrow hat htype sel).mp hchosen⟩
  · rintro ⟨d, hd, hqueue, hchosen⟩
    rw [hd] at hdlq
    cases hsim with
    | absent => cases hdlq
    | live => cases hdlq
    | dead r _ _ hrow hdead _ hat htype =>
      cases hdlq
      have hid := (KeyedTable.key_of_find? hd).trans (KeyedTable.key_of_find? hfound).symm
      exact ⟨r, hfound, hrow.queue.symm.trans hqueue, hdead,
        (chooses_iff hid hrow hat htype sel).mpr hchosen⟩

/-- Both stores select the same number of tasks. -/
theorem length_selected (h : ∀ id, Sim ρ (s.tasks.find? id) (db.view id)) (hsel : sel.ids.Nodup) :
    (s.selectDead queue sel).length = (db.dlq.rows.filter (dlqSelects queue sel)).length := by
  have hperm : ((s.selectDead queue sel).map Record.id).Perm
      ((db.dlq.rows.filter (dlqSelects queue sel)).map DlqRow.id) := by
    refine (List.perm_ext_iff_of_nodup (selectDead_ids_nodup hsel) ?_).mpr (mem_selected_iff h)
    exact (List.filter_sublist.map DlqRow.id).nodup db.dlq.keys_nodup
  simpa using hperm.length_eq

/-- A selected task is DEAD in both stores. -/
theorem dead_of_selected (hb : Related ρ b) {id : TaskID}
    (hid : id ∈ (b.mem.selectDead queue sel).map Record.id) :
    ∃ r d, b.mem.tasks.find? id = some r ∧ r.token = "" ∧
      b.pg.view id = ⟨none, some d, b.pg.attemptsOf id⟩ ∧
      Sim ρ (some r) ⟨none, some d, b.pg.attemptsOf id⟩ := by
  obtain ⟨r, hfind, -, hdead, -⟩ := MemStore.mem_ids_selectDead.mp hid
  have htoken := ((hb.lifecycle.records id r hfind).terminal (Or.inr hdead)).2.2
  have hsim := hb.tasks id
  rw [hfind] at hsim
  generalize hview : b.pg.view id = v at hsim
  have hatts : b.pg.attemptsOf id = v.attempts := congrArg View.attempts hview
  have hkeep := hsim
  cases hsim with
  | live _ _ _ _ halive => exact absurd hdead halive
  | dead _ d atts =>
    refine ⟨r, d, hfind, htoken, ?_, ?_⟩
    · rw [hatts]
    · rw [hatts]
      exact hkeep

theorem redrive_stepOk (hb : Related ρ b) (ch : Choice) (queue : String) (hsel : sel.ids.Nodup)
    (now : Time) :
    StepOk ρ b ch (.redrive queue sel now) := by
  have hnodup := @selectDead_ids_nodup b.mem queue sel hsel
  have hiff := @mem_selected_iff ρ b.mem b.pg queue sel hb.tasks
  have hfree : ∀ d ∈ b.pg.dlq.rows.filter (dlqSelects queue sel),
      b.pg.task.find? d.id = none := by
    intro d hd
    obtain ⟨r, d', -, -, hview, -⟩ :=
      dead_of_selected hb ((hiff d.id).mpr (List.mem_map_of_mem hd))
    exact congrArg View.task hview
  obtain ⟨hmoved, hother⟩ := @view_redrive b.pg queue sel now hfree
  refine ⟨fun id => ?_, ?_⟩
  · simp only [MemStore.step, Store.redrive, Postgres.step, renameToken, Prod.map_fst, id_eq,
      MemStore.find?_foldl_redrive]
    by_cases hid : id ∈ (b.mem.selectDead queue sel).map Record.id
    · obtain ⟨d, hd, rfl⟩ := List.mem_map.mp ((hiff id).mp hid)
      obtain ⟨r, d', hr, htoken, hview, hsim⟩ := dead_of_selected hb hid
      have hdlq : some d = some d' :=
        (KeyedTable.find?_key_of_mem (List.mem_filter.mp hd).1).symm.trans
          (congrArg View.dlq hview)
      obtain rfl := Option.some.inj hdlq
      rw [hmoved d hd, hr, List.count_eq_one_of_mem hnodup hid, Option.map_some,
        Function.iterate_one]
      exact hsim.redrive htoken now
    · rw [hother id (mt (hiff id).mpr hid), List.count_eq_zero_of_not_mem hid,
        Function.iterate_zero, Option.map_id]
      exact hb.tasks id
  · simp only [MemStore.step, Store.redrive, Postgres.step, renameToken, Database.redrive,
      if_pos hfree, Prod.map_snd]
    exact length_selected hb.tasks hsel

theorem purge_stepOk (hb : Related ρ b) (ch : Choice) (queue : String) (hsel : sel.ids.Nodup) :
    StepOk ρ b ch (.purge queue sel) := by
  have hiff := @mem_selected_iff ρ b.mem b.pg queue sel hb.tasks
  obtain ⟨hpurged, hother⟩ := view_purge b.pg queue sel
  refine ⟨fun id => ?_, ?_⟩
  · simp only [MemStore.step, Store.purge, Postgres.step, renameToken, Prod.map_fst, id_eq,
      MemStore.find?_foldl_erase]
    by_cases hid : id ∈ (b.mem.selectDead queue sel).map Record.id
    · obtain ⟨d, hd, rfl⟩ := List.mem_map.mp ((hiff id).mp hid)
      obtain ⟨r, d', -, -, hview, -⟩ := dead_of_selected hb hid
      have htask : b.pg.task.find? d.id = none := congrArg View.task hview
      rw [hpurged d hd, if_pos hid, htask]
      exact .absent
    · rw [hother id (mt (hiff id).mpr hid), if_neg hid]
      exact hb.tasks id
  · exact length_selected hb.tasks hsel

/-! ## Claiming -/

theorem isDue_eq (h : SimRow ρ r row) (now : Time) :
    row.isDue now = MemStore.isDue r now := by
  cases hstatus : r.env.status <;>
    simp only [TaskRow.isDue, MemStore.isDue, h.status, hstatus, h.nextAttemptAt, h.leaseExpiresAt]

instance : Std.Total TaskRow.dueLe where
  total a b := by
    unfold TaskRow.dueLe
    cases a.nextAttemptAt <;> cases b.nextAttemptAt <;> simp [le_total]

instance : IsTrans TaskRow TaskRow.dueLe where
  trans a b c := by
    unfold TaskRow.dueLe
    cases a.nextAttemptAt <;> cases b.nextAttemptAt <;> cases c.nextAttemptAt <;> simp
    exact le_trans

section Due
variable {b : Both} {queue : String} {now : Time} {scan : List TaskID}

/-- The due rows of Postgres in the order of the scan. -/
def dueInScan (db : Database) (queue : String) (now : Time) (scan : List TaskID) : List TaskRow :=
  (scan.dedup.filterMap db.task.find?).filter fun r => decide (r.queue = queue) && r.isDue now

theorem mem_dueInScan (hscan : ∀ row ∈ db.task.rows, row.id ∈ scan) :
    row ∈ dueInScan db queue now scan ↔
      db.task.find? row.id = some row ∧ row.queue = queue ∧ row.isDue now = true := by
  rw [dueInScan, List.mem_filter, Bool.and_eq_true, decide_eq_true_eq, List.mem_filterMap]
  refine and_congr ?_ Iff.rfl
  constructor
  · rintro ⟨id, -, hfind⟩
    rwa [KeyedTable.key_of_find? hfind]
  · intro hfind
    exact ⟨row.id, List.mem_dedup.mpr (hscan row (KeyedTable.mem_of_find? hfind)), hfind⟩

theorem dueInScan_ids_nodup (db : Database) (queue : String) (now : Time) (scan : List TaskID) :
    ((dueInScan db queue now scan).map TaskRow.id).Nodup := by
  refine (List.filter_sublist.map TaskRow.id).nodup ?_
  rw [List.map_filterMap]
  refine (List.nodup_dedup scan).filterMap ?_
  intro id id' x hx hx'
  obtain ⟨r, hr, rfl⟩ := Option.map_eq_some_iff.mp hx
  obtain ⟨r', hr', heq⟩ := Option.map_eq_some_iff.mp hx'
  rw [← KeyedTable.key_of_find? hr, ← KeyedTable.key_of_find? hr', heq]

/-- A task that is due in one store is due in the other, at the same time. -/
theorem due_related (hb : Related ρ b) {id : TaskID} :
    (∀ r, b.mem.tasks.find? id = some r → MemStore.isDue r now = true →
      ∃ row, b.pg.task.find? id = some row ∧ SimRow ρ r row ∧
        r.env.nextAttemptAt.isSome = true) ∧
    ∀ row, b.pg.task.find? id = some row →
      ∃ r, b.mem.tasks.find? id = some r ∧ SimRow ρ r row := by
  have hsim := hb.tasks id
  generalize b.mem.tasks.find? id = found at hsim
  generalize hview : b.pg.view id = v at hsim
  have htask : b.pg.task.find? id = v.task := congrArg View.task hview
  cases hsim with
  | absent =>
    rw [htask]
    exact ⟨fun r hr => (by cases hr), fun row hrow => (by cases hrow)⟩
  | live r row atts hrow _ _ hnext =>
    rw [htask]
    refine ⟨?_, ?_⟩
    · rintro _ ⟨⟩ hdue
      exact ⟨row, rfl, hrow, hnext (status_of_isDue hdue)⟩
    · rintro _ ⟨⟩
      exact ⟨r, rfl, hrow⟩
  | dead r d atts _ hdead =>
    rw [htask]
    refine ⟨?_, fun row hrow => by cases hrow⟩
    rintro _ ⟨⟩ hdue
    rcases status_of_isDue hdue with hst | hst <;> rw [hdead] at hst <;> cases hst

/-- The due tasks are the same in both stores. -/
theorem due_ids_perm (hb : Related ρ b) (hscan : ∀ row ∈ b.pg.task.rows, row.id ∈ scan) :
    ((dueInOrder b.mem queue now).map Record.id).Perm
      (((dueInScan b.pg queue now scan).insertionSort TaskRow.dueLe).map TaskRow.id) := by
  refine List.Perm.trans ?_ ((List.perm_insertionSort _ _).map TaskRow.id).symm
  refine (List.perm_ext_iff_of_nodup (dueInOrder_ids_nodup _ _ _)
    (dueInScan_ids_nodup _ _ _ _)).mpr ?_
  intro id
  constructor
  · intro hid
    obtain ⟨r, hr, rfl⟩ := List.mem_map.mp hid
    obtain ⟨hfind, hqueue, hdue⟩ := mem_dueInOrder.mp hr
    obtain ⟨row, hrow, hsim, -⟩ := (due_related hb).1 r hfind hdue
    have hkey := KeyedTable.key_of_find? hrow
    refine List.mem_map.mpr ⟨row, (mem_dueInScan hscan).mpr ⟨hkey ▸ hrow, ?_, ?_⟩, hkey⟩
    · rw [hsim.queue, hqueue]
    · rw [isDue_eq hsim, hdue]
  · intro hid
    obtain ⟨row, hrow, rfl⟩ := List.mem_map.mp hid
    obtain ⟨hfind, hqueue, hdue⟩ := (mem_dueInScan hscan).mp hrow
    obtain ⟨r, hr, hsim⟩ := (@due_related ρ b now hb _).2 row hfind
    have hkey := KeyedTable.key_of_find? hr
    refine List.mem_map.mpr ⟨r, mem_dueInOrder.mpr ⟨hkey ▸ hr, ?_, ?_⟩, hkey⟩
    · rw [← hsim.queue, hqueue]
    · rw [← isDue_eq hsim, hdue]

/-- One due time is not after another, for tasks the memstore holds. -/
def NotAfter (s : Store) (id id' : TaskID) : Prop :=
  ∀ r r', s.tasks.find? id = some r → s.tasks.find? id' = some r' →
    MemStore.dueKey r ≤ MemStore.dueKey r'

/-- Without ties both stores put the due tasks into the same order. -/
theorem due_ids_eq (hb : Related ρ b) (hscan : ∀ row ∈ b.pg.task.rows, row.id ∈ scan)
    (hties : NoTies b.mem queue now) :
    (dueInOrder b.mem queue now).map Record.id =
      ((dueInScan b.pg queue now scan).insertionSort TaskRow.dueLe).map TaskRow.id := by
  have hperm := @due_ids_perm ρ b queue now scan hb hscan
  refine @List.Perm.eq_of_pairwise _ (NotAfter b.mem) _ _ ?_ ?_ ?_ hperm
  · intro id id' hid hid' hle hle'
    obtain ⟨r, hr, rfl⟩ := List.mem_map.mp hid
    obtain ⟨r', hr', rfl⟩ := List.mem_map.mp (hperm.mem_iff.mpr hid')
    obtain ⟨hfind, hqueue, hdue⟩ := mem_dueInOrder.mp hr
    obtain ⟨hfind', hqueue', hdue'⟩ := mem_dueInOrder.mp hr'
    obtain ⟨-, -, -, hsome⟩ := (due_related hb).1 r hfind hdue
    obtain ⟨-, -, -, hsome'⟩ := (due_related hb).1 r' hfind' hdue'
    refine hties r.id r'.id r r' hfind hfind' hqueue hqueue' hdue hdue' ?_
    have heq := le_antisymm (hle r r' hfind hfind') (hle' r' r hfind' hfind)
    obtain ⟨t, ht⟩ := Option.isSome_iff_exists.mp hsome
    obtain ⟨t', ht'⟩ := Option.isSome_iff_exists.mp hsome'
    simp only [MemStore.dueKey, ht, ht', Option.getD_some] at heq ⊢
    rw [heq]
  · rw [List.pairwise_map]
    refine (List.pairwise_insertionSort (fun a b : Record => MemStore.dueBefore b a = false)
      _).imp_of_mem ?_
    intro r r' hr hr' hle x x' hx hx'
    obtain rfl := Option.some.inj ((mem_dueInOrder.mp hr).1.symm.trans hx)
    obtain rfl := Option.some.inj ((mem_dueInOrder.mp hr').1.symm.trans hx')
    rcases (dueBefore_eq_false_iff r r').mp hle with hlt | ⟨heq, -⟩
    · exact hlt.le
    · exact heq.le
  · rw [List.pairwise_map]
    refine (List.pairwise_insertionSort TaskRow.dueLe _).imp_of_mem ?_
    intro row row' hrow hrow' hle x x' hx hx'
    rw [List.mem_insertionSort] at hrow hrow'
    obtain ⟨hfind, -, hdue⟩ := (mem_dueInScan hscan).mp hrow
    obtain ⟨hfind', -, hdue'⟩ := (mem_dueInScan hscan).mp hrow'
    obtain ⟨r, hr, hsim⟩ := (@due_related ρ b now hb _).2 row hfind
    obtain ⟨r', hr', hsim'⟩ := (@due_related ρ b now hb _).2 row' hfind'
    obtain rfl := Option.some.inj (hr.symm.trans hx)
    obtain rfl := Option.some.inj (hr'.symm.trans hx')
    obtain ⟨-, -, -, hsome⟩ := (due_related hb).1 r hr (isDue_eq hsim now ▸ hdue)
    obtain ⟨-, -, -, hsome'⟩ := (due_related hb).1 r' hr' (isDue_eq hsim' now ▸ hdue')
    obtain ⟨t, ht⟩ := Option.isSome_iff_exists.mp hsome
    obtain ⟨t', ht'⟩ := Option.isSome_iff_exists.mp hsome'
    simpa only [TaskRow.dueLe, MemStore.dueKey, hsim.nextAttemptAt, hsim'.nextAttemptAt, ht, ht',
      Option.getD_some] using hle

/-- Without ties both stores claim the same tasks. -/
theorem claimed_ids_perm (hb : Related ρ b) (hscan : ∀ row ∈ b.pg.task.rows, row.id ∈ scan)
    (hties : NoTies b.mem queue now) (limit : Int) :
    ((b.mem.dueRecords queue limit now).map Record.id).Perm
      ((b.pg.dueRows queue limit now scan).map TaskRow.id) := by
  have hids := @due_ids_eq ρ b queue now scan hb hscan hties
  have hmem : (b.mem.dueRecords queue limit now).map Record.id =
      (((dueInScan b.pg queue now scan).insertionSort TaskRow.dueLe).take limit.toNat).map
        TaskRow.id := by
    rw [Store.dueRecords, List.map_take, List.map_take, ← hids]
    rfl
  rw [hmem]
  -- the picked rows return in the order of the scan
  refine ((List.perm_ext_iff_of_nodup ?_ ?_).mpr ?_).map TaskRow.id
  · refine (List.take_sublist _ _).nodup ?_
    rw [(List.perm_insertionSort _ _).nodup_iff]
    exact (dueInScan_ids_nodup b.pg queue now scan).of_map
  · exact dueRows_ids_nodup.of_map
  · intro row
    change _ ↔ row ∈ (dueInScan b.pg queue now scan).filter _
    rw [List.mem_filter, decide_eq_true_eq]
    refine ⟨fun h => ⟨?_, h⟩, fun h => h.2⟩
    exact (List.mem_insertionSort _).mp (List.mem_of_mem_take h)

end Due

/-- A claim of one task in both stores. -/
theorem sim_claim (hb : Related ρ b) (hr : b.mem.tasks.find? row.id = some r)
    (hrow : b.pg.task.find? row.id = some row) (hdue : MemStore.isDue r now = true)
    (lease : Duration) (htoken : token ≠ "") :
    b.pg.dlq.find? row.id = none ∧
      Sim ρ (some (r.claim now lease token))
        ⟨some (row.claim now lease (ρ token)), none,
          b.pg.attemptsOf row.id ++ reclaimed b.pg row now⟩ := by
  have hsim := hb.tasks row.id
  rw [hr] at hsim
  have hst : r.env.status ≠ .dead := by
    rcases status_of_isDue hdue with hst | hst <;> simp [hst]
  obtain ⟨row', hview, -⟩ := hsim.live_row hst
  have htask : some row = some row' := hrow.symm.trans (congrArg View.task hview)
  obtain rfl := Option.some.inj htask
  have hmax : b.pg.maxAttemptNo row.id = (b.pg.attemptsOf row.id).length :=
    hsim.attempts.max_eq
  refine ⟨congrArg View.dlq hview, ?_⟩
  rw [hview] at hsim
  refine hsim.claim lease htoken hdue ?_ rfl
  exact congrArg (· + 1) hmax

theorem claimDue_stepOk (hb : Related ρ b) {limit : Int} {lease : Duration}
    (hties : NoTies b.mem queue now) (hscan : ∀ row ∈ b.pg.task.rows, row.id ∈ ch.scan)
    (hmint : ∀ c ∈ (MemStore.step b.mem (.claimDue queue limit lease now)).2.claims,
      ch.mint c.task.id = ρ c.token) : StepOk ρ b ch (.claimDue queue limit lease now) := by
  by_cases hlimit : 0 < limit
  · have hperm := claimed_ids_perm hb hscan hties limit
    obtain ⟨db', heq, htask, hdlq, hother, hown⟩ := claimDue_spec b.pg queue hlimit lease now ch
    have hmem : MemStore.step b.mem (.claimDue queue limit lease now) =
        ((Store.claimAll now lease b.mem (b.mem.dueRecords queue limit now)).1,
          .claimed (Store.claimAll now lease b.mem (b.mem.dueRecords queue limit now)).2) := by
      simp only [MemStore.step, Store.claimDue, if_neg (not_le.mpr hlimit)]
      rfl
    have hpg : Postgres.step b.pg ch (renameToken ρ (.claimDue queue limit lease now)) =
        (db', .claimed ((b.pg.dueRows queue limit now ch.scan).map fun row =>
          { task := envelopeFromRows (row.claim now lease (ch.mint row.id))
              (db'.loadAttempts row.id)
            token := ch.mint row.id })) := by
      simp only [Postgres.step, renameToken, heq]
      rfl
    rw [hmem] at hmint
    have hids := MemStore.claimAll_ids now lease b.mem (b.mem.dueRecords queue limit now)
    have hfound : ∀ r ∈ b.mem.dueRecords queue limit now, b.mem.tasks.find? r.id = some r :=
      fun r hr => KeyedTable.find?_key_of_mem (MemStore.mem_dueRecords hr).1
    refine ⟨fun id => ?_, ?_⟩
    · rw [hmem, hpg]
      by_cases hid : id ∈ (b.mem.dueRecords queue limit now).map Record.id
      · obtain ⟨row, hrow, hrowid⟩ := List.mem_map.mp (hperm.mem_iff.mp hid)
        obtain ⟨r, hr, hrid⟩ := List.mem_map.mp hid
        obtain ⟨c, hc, seq, hseq, -, -, hctask, hclaimed⟩ := MemStore.find?_claimAll_of_mem now
          lease b.mem _ (MemStore.dueRecords_ids_nodup _ _ _ _) hfound hr
        have hsame : r.id = row.id := hrid.trans hrowid.symm
        obtain ⟨hnone, hsim⟩ := sim_claim hb (hsame ▸ hfound r hr) (mem_dueRows hrow).1
          (MemStore.mem_dueRecords hr).2.2 lease (hseq ▸ MemStore.mintToken_ne_empty seq)
        have hcid : c.task.id = row.id := by
          rw [hctask]
          exact (Record.id_claim now lease c.token r).trans hsame
        have htoken : ρ c.token = ch.mint row.id := by rw [← hmint c hc, hcid]
        rw [htoken] at hsim
        rw [← hrowid, ← hsame, hclaimed, hsame]
        simp only [Database.view, htask, hdlq, hnone, hown row hrow,
          Tables.find?_claimRows_of_mem (mem_dueRows hrow).1 (List.mem_map_of_mem hrow)]
        exact hsim
      · have hid' := mt hperm.mem_iff.mpr hid
        rw [MemStore.find?_claimAll_of_not_mem now lease b.mem _ hid]
        simp only [Database.view, htask, hdlq, hother id hid',
          Tables.find?_claimRows_of_not_mem hid']
        exact hb.tasks id
    · rw [hmem, hpg]
      -- the tokens are those Postgres mints for the same ids
      have hgrants : (grantsOf (Store.claimAll now lease b.mem
          (b.mem.dueRecords queue limit now)).2).map (fun g => (g.1, ρ g.2)) =
          ((b.mem.dueRecords queue limit now).map Record.id).map fun id => (id, ch.mint id) := by
        rw [← hids, grantsOf, List.map_map, List.map_map]
        exact List.map_congr_left fun c hc => congrArg (Prod.mk c.task.id) (hmint c hc).symm
      have hgrants' := hperm.map fun id => (id, ch.mint id)
      simp only [SameAnswer]
      rw [hgrants]
      refine hgrants'.trans (List.Perm.of_eq ?_)
      rw [grantsOf, List.map_map, List.map_map]
      rfl
  · have hle := not_lt.mp hlimit
    refine ⟨fun id => ?_, ?_⟩
    · simp only [MemStore.step, Store.claimDue, Postgres.step, renameToken, Database.claimDue,
        if_pos hle, Prod.map_fst, id_eq]
      exact hb.tasks id
    · simp only [MemStore.step, Store.claimDue, Postgres.step, renameToken, Database.claimDue,
        if_pos hle, Prod.map_snd]
      exact List.Perm.refl []

/-! ## Whole runs -/

theorem Related.new : Related ρ Both.new where
  lifecycle := LifecycleInv.new
  tasks := fun _ => .absent
  held := by
    intro id r hr
    cases hr

/-- An admissible call finds both stores related and answers alike. -/
theorem stepOk_of_admissible (hb : Related ρ b) (hρ : Function.Injective ρ) {op : Op}
    (h : Admissible ρ b (.op op, ch)) : StepOk ρ b ch op := by
  cases op with
  | enqueue task => exact enqueue_stepOk hb ch h.1 h.2
  | claimDue queue limit lease now => exact claimDue_stepOk hb h.1 h.2.1 h.2.2
  | extendLease i token lease now => exact extendLease_stepOk hb hρ ch i token lease now
  | reschedule i token att nextAt => exact reschedule_stepOk hb hρ ch nextAt h
  | complete i token att now => exact complete_stepOk hb hρ ch now h
  | deadLetter i token att now => exact deadLetter_stepOk hb hρ ch now h
  | redrive queue sel now => exact redrive_stepOk hb ch queue h now
  | purge queue sel => exact purge_stepOk hb ch queue h
  | purgeSucceeded queue olderThan => exact h.elim

/-- The claim in force is the one handed out last, or the one in force before. -/
theorem held_step (hb : Related ρ b) {op : Op}
    (hop : ∀ task, op = .enqueue task → task.SubmitShaped) {id : TaskID}
    (hr : (MemStore.step b.mem op).1.tasks.find? id = some r) (hst : r.env.status = .inFlight) :
    ∃ c ∈ b.seen ++ (MemStore.step b.mem op).2.claims,
      c.task.id = id ∧ c.token = r.token ∧ c.task.attempts = r.env.attempts := by
  have hch := MemStore.step_change b.mem id op
  rw [hr] at hch
  have hold : ∀ r₀, b.mem.tasks.find? id = some r₀ → r₀.env.status = .inFlight →
      ∃ c ∈ b.seen ++ (MemStore.step b.mem op).2.claims,
        c.task.id = id ∧ c.token = r₀.token ∧ c.task.attempts = r₀.env.attempts := by
    intro r₀ hr₀ hst₀
    obtain ⟨c, hc, hcs⟩ := hb.held id r₀ hr₀ hst₀
    exact ⟨c, List.mem_append_left _ hc, hcs⟩
  have hkey : ∀ r₀, b.mem.tasks.find? id = some r₀ → r₀.id = id :=
    fun r₀ => KeyedTable.key_of_find?
  generalize b.mem.tasks.find? id = found at hch hold hkey
  cases hch with
  | keep => exact hold r rfl hst
  | admitted task htask =>
    rw [show ({ env := task } : Record).env.status = .pending from (hop task htask).pending]
      at hst
    cases hst
  | claim r₀ c seq queue limit lease now _ _ _ hc hid _ _ _ htask =>
    refine ⟨c, List.mem_append_right _ hc, hid.trans (hkey r₀ rfl), rfl, ?_⟩
    rw [htask]
  | extend r₀ token lease now _ hlive => exact hold r₀ rfl hlive
  | reschedule | complete | deadLetter => cases hst
  | redrive r₀ n queue sel now =>
    rw [Function.iterate_succ_apply'] at hst
    cases hst

theorem related_step (hb : Related ρ b) (hρ : Function.Injective ρ) {i : Call × Choice}
    (h : Admissible ρ b i) : Related ρ (bothStep ρ b i).1 := by
  obtain ⟨call, ch⟩ := i
  cases call with
  | get id => exact hb
  | op op =>
    have hop : ∀ task, op = .enqueue task → task.SubmitShaped := by
      rintro task rfl
      exact h.1
    exact ⟨hb.lifecycle.step hop, (stepOk_of_admissible hb hρ h).tasks,
      fun id r hr hst => held_step hb hop hr hst⟩

theorem sameAnswer_step (hb : Related ρ b) (hρ : Function.Injective ρ) {i : Call × Choice}
    (h : Admissible ρ b i) :
    SameAnswer ρ (bothStep ρ b i).2.1 (bothStep ρ b i).2.2 := by
  obtain ⟨call, ch⟩ := i
  cases call with
  | get id => exact (sameTasks hb.tasks id).1
  | op op => exact (stepOk_of_admissible hb hρ h).answers

/-- Postgres refines the reference store. In every run of admissible calls, side by side
on both stores from their empty states, each call gets the same answer from both, with
the tokens renamed, and leaves both with the same tasks. -/
theorem postgres_refines_memstore (ρ : ClaimToken → ClaimToken) (hρ : Function.Injective ρ)
    (calls : List (Call × Choice))
    (h : AllSteps (bothStep ρ) (Admissible ρ) Both.new calls) :
    ∀ e ∈ trace (bothStep ρ) Both.new calls,
      SameAnswer ρ e.output.1 e.output.2 ∧ SameTasks e.post.mem e.post.pg := by
  have hinv := trace_invariant
    (P := fun tr b => Related ρ b ∧ ∀ e ∈ tr,
      SameAnswer ρ e.output.1 e.output.2 ∧ SameTasks e.post.mem e.post.pg)
    ⟨Related.new, by simp⟩ ?_ h
  · exact hinv.2
  · rintro tr b i ⟨hb, htr⟩ hi
    have hb' := related_step hb hρ hi
    refine ⟨hb', ?_⟩
    intro e he
    rcases List.mem_append.mp he with he | he
    · exact htr e he
    · rw [List.mem_singleton.mp he]
      exact ⟨sameAnswer_step hb hρ hi, sameTasks hb'.tasks⟩

/-- A task fails for good, is redriven, and completed in its second attempt. -/
def redrivenRun : List (Call × Choice) :=
  let ch (n : Nat) : Choice := ⟨["t"], fun _ => MemStore.mintToken n⟩
  let failed : Attempt :=
    { attemptNo := 1, startedAt := 1000, finishedAt := some 2000, outcome := .permanentFailure
      error := some { type := "denied", message := "no" } }
  let done : Attempt :=
    { attemptNo := 2, startedAt := 4000, finishedAt := some 5000, outcome := .success }
  [(.op (.enqueue (.submitted "t" "q" "h" 0)), ch 0),
    (.op (.claimDue "q" 1 5000 1000), ch 1),
    (.op (.deadLetter "t" (MemStore.mintToken 1) failed 2000), ch 0),
    (.op (.redrive "q" { filter := some { errorType := "denied" } } 3000), ch 0),
    (.op (.claimDue "q" 1 5000 4000), ch 2),
    (.op (.complete "t" (MemStore.mintToken 2) done 5000), ch 0),
    (.get "t", ch 0)]

/-- One task alone is not tied. -/
theorem noTies_of_single {rec : Record} (h : s.tasks.rows = [rec]) (queue : String) (now : Time) :
    NoTies s queue now := by
  intro i i' r r' hr hr' _ _ _ _ _
  have hone : ∀ {k : TaskID} {x : Record}, s.tasks.find? k = some x → rec.id = k := by
    intro k x hx
    have hmem := KeyedTable.mem_of_find? hx
    rw [h, List.mem_singleton] at hmem
    exact hmem ▸ KeyedTable.key_of_find? hx
  exact (hone hr).symm.trans (hone hr')

/-- Both stores move the task to the dead letters and back, and end with it completed. -/
theorem redrivenRun_refines :
    (trace (bothStep id) Both.new redrivenRun).length = 7 ∧
      ∀ e ∈ trace (bothStep id) Both.new redrivenRun,
        SameAnswer id e.output.1 e.output.2 ∧ SameTasks e.post.mem e.post.pg := by
  refine ⟨rfl, postgres_refines_memstore id Function.injective_id redrivenRun ?_⟩
  refine ⟨⟨⟨rfl, rfl, rfl, rfl, rfl, rfl⟩, by decide⟩,
    ⟨noTies_of_single rfl _ _, by decide +kernel, by decide +kernel⟩, ?_, List.nodup_nil,
    ⟨noTies_of_single rfl _ _, by decide +kernel, by decide +kernel⟩, ?_, trivial, trivial⟩
  all_goals
    change NumberedPast _ _ _ _
    decide +kernel

end Rdq.Refinement
