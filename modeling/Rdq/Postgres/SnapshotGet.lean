import Mathlib.Data.List.Infix
import Rdq.Foundation.Trace
import Rdq.Postgres.Transition

/-!
# Get on Postgres

`Get` reads the row of a task and its attempts in two statements outside a
transaction, and every transaction may commit in between. The row carries two
counters, and a transaction that adds an attempt moves them forward for good, so
the row of one moment never fits the history of another. What `Get` returns is
therefore the task of a single moment exactly when both statements meet the same
history.
-/

namespace Rdq.Postgres

open Rdq.Foundation

/-- A call and what Postgres chooses in its transaction. -/
abbrev Transaction := Op × Choice

namespace Database

/-- Perform one transaction. -/
def perform (db : Database) (x : Transaction) : Database × Reply := step db x.2 x.1

/-- The database after a list of transactions. -/
def after (db : Database) (xs : List Transaction) : Database := run perform db xs

/-- Every state the database goes through, first and last included. -/
def moments (db : Database) (xs : List Transaction) : List Database := xs.inits.map db.after

/-- The attempt history as `Get` returns it. -/
def history (db : Database) (id : TaskID) : List Attempt :=
  (db.loadAttempts id).map attemptFromRow

end Database

/-- `Get`: the row as the first statement finds it, with the attempts as the second one does. -/
def get (first second : Database) (id : TaskID) : Except StorageError Envelope :=
  match first.taskRow? id with
  | none => .error .notFound
  | some row => .ok (envelopeFromRows row (second.loadAttempts id))

/-! ## The counters of a row move forward -/

/-- The row of a task in either table. -/
def View.row (v : View) : Option TaskRow :=
  match v.task with
  | some r => some r
  | none => v.dlq.map DlqRow.row

/-- The counters of `r` come before those of `r'`. -/
def TaskRow.Precedes (r r' : TaskRow) : Prop :=
  r.redriveCount < r'.redriveCount ∨
    r.redriveCount = r'.redriveCount ∧ r.attemptCount < r'.attemptCount

def TaskRow.SameCounts (r r' : TaskRow) : Prop :=
  r.redriveCount = r'.redriveCount ∧ r.attemptCount = r'.attemptCount

/-- A task of `v'` is one of `v` with the same counters and attempts, or with later counters. -/
def View.Later (v v' : View) : Prop :=
  ∀ r', v'.row = some r' → ∃ r, v.row = some r ∧
    (r.Precedes r' ∨ r.SameCounts r' ∧ v'.attempts = v.attempts)

namespace View.Later
variable {u v w : View}

theorem refl (v : View) : v.Later v := fun r hr => ⟨r, hr, Or.inr ⟨⟨rfl, rfl⟩, rfl⟩⟩

theorem trans (h : u.Later v) (h' : v.Later w) : u.Later w := by
  intro r'' hr''
  obtain ⟨r', hr', hvw⟩ := h' r'' hr''
  obtain ⟨r, hr, huv⟩ := h r' hr'
  refine ⟨r, hr, ?_⟩
  unfold TaskRow.Precedes TaskRow.SameCounts at *
  rcases huv with huv | ⟨huv, hatt⟩
  · left
    rcases hvw with hvw | ⟨hvw, _⟩ <;> omega
  · rcases hvw with hvw | ⟨hvw, hatt'⟩
    · left
      omega
    · exact Or.inr ⟨by omega, hatt'.trans hatt⟩

/-- Equal counters mean equal attempts. -/
theorem attempts_eq (h : v.Later w) {r r' : TaskRow} (hr : v.row = some r)
    (hr' : w.row = some r') (hsame : r.SameCounts r') : w.attempts = v.attempts := by
  obtain ⟨r₀, hr₀, hlater⟩ := h r' hr'
  obtain rfl := Option.some.inj (hr₀.symm.trans hr)
  rcases hlater with hlt | ⟨_, hatt⟩
  · unfold TaskRow.Precedes TaskRow.SameCounts at *
    omega
  · exact hatt

end View.Later

/-- The task lives in one table at most. -/
def View.AtHome (v : View) : Prop := v.task = none ∨ v.dlq = none

instance (v : View) : Decidable v.AtHome := inferInstanceAs (Decidable (_ ∨ _))

/-- The transaction enqueues no task of the id. -/
def Transaction.Leaves (id : TaskID) (x : Transaction) : Prop :=
  ∀ task, x.1 = .enqueue task → task.id ≠ id

variable {db : Database}

theorem later_step {id : TaskID} {x : Transaction} (hhome : (db.view id).AtHome)
    (hx : x.Leaves id) :
    (db.view id).Later ((db.perform x).1.view id) := by
  have hch := step_change db x.2 id x.1
  change (db.view id).Later ((step db x.2 x.1).1.view id)
  generalize (step db x.2 x.1).1.view id = v' at hch
  generalize db.view id = v at hhome hch
  cases hch with
  | keep => exact View.Later.refl _
  | admitted task atts hop hid => exact absurd hid (hx task hop)
  | claim r d queue limit lease now =>
    rintro r' ⟨⟩
    refine ⟨r, rfl, ?_⟩
    by_cases hst : r.status = .inFlight
    · left
      right
      simp only [TaskRow.claim, hst, if_true, true_and]
      exact Int.lt_succ _
    · right
      simp [TaskRow.SameCounts, TaskRow.claim, reclaimed, hst]
  | extend r d atts =>
    rintro r' ⟨⟩
    exact ⟨r, rfl, Or.inr ⟨⟨rfl, rfl⟩, rfl⟩⟩
  | reschedule r | complete r | deadLetter r =>
    rintro r' ⟨⟩
    exact ⟨r, rfl, Or.inl (Or.inr ⟨rfl, Int.lt_succ _⟩)⟩
  | redrive d =>
    rintro r' ⟨⟩
    exact ⟨d.row, rfl, Or.inl (Or.inl (Int.lt_succ _))⟩
  | purge r d | sweep r d =>
    -- the row is gone, and there is none in the other table
    rcases hhome with hnone | hnone <;> cases hnone
    rintro r' ⟨⟩

theorem atHome_after {id : TaskID} (hhome : (db.view id).AtHome) (xs : List Transaction) :
    ((db.after xs).view id).AtHome := by
  induction xs generalizing db with
  | nil => exact hhome
  | cons x xs ih => exact ih (home_step hhome x.2 x.1)

/-- What a run of transactions does to a task. -/
theorem later_after {id : TaskID} (hhome : (db.view id).AtHome) {xs : List Transaction}
    (hxs : ∀ x ∈ xs, x.Leaves id) :
    (db.view id).Later ((db.after xs).view id) := by
  induction xs generalizing db with
  | nil => exact View.Later.refl _
  | cons x xs ih =>
    exact (later_step hhome (hxs x (by simp))).trans
      (ih (home_step hhome x.2 x.1) fun y hy => hxs y (List.mem_cons_of_mem x hy))

theorem after_append (db : Database) (xs ys : List Transaction) :
    db.after (xs ++ ys) = (db.after xs).after ys :=
  run_append Database.perform db xs ys

/-- Two moments of one run with equal counters have equal histories. -/
theorem history_eq_of_sameCounts {id : TaskID} (hhome : (db.view id).AtHome)
    {xs ys zs : List Transaction} (hzs : ∀ z ∈ zs, z.Leaves id) (hx : xs <+: zs) (hy : ys <+: zs)
    {r r' : TaskRow} (hr : (db.after xs).taskRow? id = some r)
    (hr' : (db.after ys).taskRow? id = some r') (hsame : r.SameCounts r') :
    (db.after ys).history id = (db.after xs).history id := by
  have key : ∀ {xs ys : List Transaction} {r r' : TaskRow}, ys <+: zs → xs <+: ys →
      (db.after xs).taskRow? id = some r → (db.after ys).taskRow? id = some r' →
      r.SameCounts r' → (db.after ys).history id = (db.after xs).history id := by
    rintro xs _ r r' hy ⟨ws, rfl⟩ hr hr' hsame
    rw [after_append] at hr' ⊢
    have hws : ∀ w ∈ ws, w.Leaves id := fun w hw =>
      hzs w (hy.subset (List.mem_append_right xs hw))
    have hatt : ((db.after xs).after ws).attemptsOf id = (db.after xs).attemptsOf id :=
      (later_after (atHome_after hhome xs) hws).attempts_eq hr hr' hsame
    simp only [Database.history, Database.loadAttempts, hatt]
  rcases List.prefix_or_prefix_of_prefix hx hy with h | h
  · exact key hy h hr hr' hsame
  · exact (key hx h hr' hr ⟨hsame.1.symm, hsame.2.symm⟩).symm

/-! ## The counters and the history -/

/-- A task that was never redriven has as many attempts as its row counts. -/
def View.Counted (v : View) : Prop :=
  ∀ r, v.row = some r → 0 ≤ r.redriveCount ∧
    (r.redriveCount = 0 → r.attemptCount = v.attempts.length)

theorem counted_step {id : TaskID} {x : Transaction} (hhome : (db.view id).AtHome)
    (hx : x.Leaves id) (h : (db.view id).Counted) :
    ((db.perform x).1.view id).Counted := by
  have hch := step_change db x.2 id x.1
  change ((step db x.2 x.1).1.view id).Counted
  generalize (step db x.2 x.1).1.view id = v' at hch
  generalize db.view id = v at hhome hch h
  cases hch with
  | keep => exact h
  | admitted task atts hop hid => exact absurd hid (hx task hop)
  | claim r d queue limit lease now =>
    rintro r' ⟨⟩
    obtain ⟨hpos, hcount⟩ := h r rfl
    refine ⟨hpos, fun hzero => ?_⟩
    have hlen := hcount hzero
    by_cases hst : r.status = .inFlight <;> simp [TaskRow.claim, reclaimed, hst, hlen]
  | extend r d atts =>
    rintro r' ⟨⟩
    exact h r rfl
  | reschedule r | complete r | deadLetter r =>
    rintro r' ⟨⟩
    obtain ⟨hpos, hcount⟩ := h r rfl
    refine ⟨hpos, fun hzero => ?_⟩
    have hlen := hcount hzero
    simp [TaskRow.reschedule, TaskRow.complete, TaskRow.deadLetter, hlen]
  | redrive d =>
    rintro r' ⟨⟩
    have hpos := (h d.row rfl).1
    refine ⟨?_, ?_⟩
    · simp only [DlqRow.redrive]
      omega
    · simp only [DlqRow.redrive]
      omega
  | purge r d | sweep r d =>
    rcases hhome with hnone | hnone <;> cases hnone
    rintro r' ⟨⟩

theorem counted_after {id : TaskID} (hhome : (db.view id).AtHome) {xs : List Transaction}
    (hxs : ∀ x ∈ xs, x.Leaves id) (h : (db.view id).Counted) :
    ((db.after xs).view id).Counted := by
  induction xs generalizing db with
  | nil => exact h
  | cons x xs ih =>
    exact ih (home_step hhome x.2 x.1) (fun y hy => hxs y (List.mem_cons_of_mem x hy))
      (counted_step hhome (hxs x (by simp)) h)

theorem get_of_row {first second : Database} {id : TaskID} {row : TaskRow}
    (h : first.taskRow? id = some row) :
    get first second id = .ok (envelopeFromRows row (second.loadAttempts id)) := by
  simp only [get, h]

/-! ## What Get returns -/

/-- The transactions `before`, `between` and `later` commit while a `Get` runs, around its two
statements. It returns the task of some moment of the run if and only if it finds no row, or both
statements meet the same attempt history; and then a task that was never redriven has as many
attempts as its row counts. -/
theorem get_reads_one_state (db : Database) (id : TaskID) (hhome : (db.view id).AtHome)
    (before between later : List Transaction)
    (hleaves : ∀ x ∈ before ++ between ++ later, x.Leaves id) :
    ((∃ m ∈ db.moments (before ++ between ++ later),
        get (db.after before) (db.after (before ++ between)) id = get m m id) ↔
      (db.after before).taskRow? id = none ∨
        (db.after (before ++ between)).history id = (db.after before).history id) ∧
    ((db.view id).Counted →
      (db.after (before ++ between)).history id = (db.after before).history id →
      ∀ e, get (db.after before) (db.after (before ++ between)) id = .ok e →
        e.redriveCount = 0 → e.attemptCount = e.attempts.length) := by
  have hpre : before <+: before ++ between ++ later := by
    rw [List.append_assoc]
    exact List.prefix_append _ _
  have hmoment : db.after before ∈ db.moments (before ++ between ++ later) :=
    List.mem_map_of_mem (List.mem_inits before _ |>.mpr hpre)
  refine ⟨⟨?_, ?_⟩, ?_⟩
  · rintro ⟨m, hm, hget⟩
    obtain ⟨ks, hks, rfl⟩ := List.mem_map.mp hm
    cases hrow : (db.after before).taskRow? id with
    | none => exact Or.inl rfl
    | some row =>
      right
      rw [get_of_row hrow] at hget
      cases hrow' : (db.after ks).taskRow? id with
      | none =>
        rw [get, hrow'] at hget
        cases hget
      | some row' =>
        rw [get_of_row hrow'] at hget
        have henv := Except.ok.inj hget
        -- the counters of the two rows agree, so they are of moments with one history
        have hsame : row.SameCounts row' :=
          ⟨congrArg Envelope.redriveCount henv, congrArg Envelope.attemptCount henv⟩
        have hatt : (db.after (before ++ between)).history id = (db.after ks).history id :=
          congrArg Envelope.attempts henv
        rw [hatt]
        exact history_eq_of_sameCounts hhome hleaves hpre
          ((List.mem_inits ks _).mp hks) hrow hrow' hsame
  · rintro (hnone | hhist)
    · refine ⟨_, hmoment, ?_⟩
      simp only [get, hnone]
    · refine ⟨_, hmoment, ?_⟩
      unfold Database.history at hhist
      simp only [get, envelopeFromRows, hhist]
  · intro hcounted hhist e he hzero
    unfold get at he
    split at he
    · cases he
    · rename_i row hrow
      cases he
      have hxs : ∀ x ∈ before, x.Leaves id := fun x hx => hleaves x (hpre.subset hx)
      have hcount := (counted_after hhome hxs hcounted row hrow).2 hzero
      have hlen : ((db.after (before ++ between)).history id).length =
          ((db.after before).attemptsOf id).length := by
        rw [hhist, Database.history, List.length_map, Database.length_loadAttempts]
      change row.attemptCount = ((db.after (before ++ between)).history id).length
      rw [hlen]
      exact hcount

/-- A task that a worker has claimed. -/
def claimedOnce : Database :=
  Database.new.after
    [(.enqueue (.submitted "t" "q" "h" 0), ⟨[], fun _ => ""⟩),
      (.claimDue "q" 1 10 0, ⟨["t"], fun _ => "u1"⟩)]

/-- A heartbeat between the two statements. -/
theorem get_reads_one_state_heartbeat :
    ∃ m ∈ claimedOnce.moments [(.extendLease "t" "u1" 10 5, ⟨[], fun _ => ""⟩)],
      get claimedOnce (claimedOnce.after [(.extendLease "t" "u1" 10 5, ⟨[], fun _ => ""⟩)]) "t" =
        get m m "t" := by
  refine (get_reads_one_state claimedOnce "t" (by decide) []
    [(.extendLease "t" "u1" 10 5, ⟨[], fun _ => ""⟩)] [] ?_).1.mpr (Or.inr (by decide))
  intro x hx task htask
  obtain rfl := List.mem_singleton.mp hx
  cases htask

/-- The worker completes the task between the two statements: the row counts no attempt, and the
history has one. No moment of the call had this task. -/
theorem get_torn_by_complete :
    let outcome : Transaction :=
      (.complete "t" "u1"
        { attemptNo := 1, startedAt := 0, finishedAt := some 5, outcome := .success } 5,
        ⟨[], fun _ => ""⟩)
    (∃ e, get claimedOnce (claimedOnce.after [outcome]) "t" = .ok e ∧ e.redriveCount = 0 ∧
        e.attemptCount = 0 ∧ e.attempts.length = 1) ∧
      ∀ m ∈ claimedOnce.moments [outcome],
        get claimedOnce (claimedOnce.after [outcome]) "t" ≠ get m m "t" := by
  refine ⟨⟨_, rfl, by decide, by decide, by decide⟩, ?_⟩
  decide

end Rdq.Postgres
