import Rdq.Engine.Fleet
import Rdq.Engine.JavaProcess
import Rdq.Postgres.Transition

/-!
# Attempt numbers on Postgres

Go and Java workers share one database. An outcome is numbered by the length of
the history its run was claimed with, a reclaimed lease by the largest stored
number. Both agree because of the fencing token: as long as a token is live,
the history is the one it was granted with. The numbers of a task are therefore
1, 2, 3, … in the order of writing, redriven or not, and neither an outcome nor
a claim ever meets a number that is taken.
-/

namespace Rdq.Postgres

open Rdq.Foundation Rdq.Engine

/-! ## Workers of both languages on one database -/

/-- The Postgres bindings run the same statements. They differ in the rows they read back. -/
class PgBinding (W : Type) where
  /-- The message of the error that the binding of a worker gives up on a task with, if it
  does. -/
  unreadable : W → Envelope → Option String

instance {ε : Type} : PgBinding (Worker ε) where
  unreadable _ _ := none

/-- `RowMapper.readEnvelope` has no place for a `payload_ref`. -/
instance {δ : Type} : PgBinding (JavaWorker δ) where
  unreadable _ task :=
    task.payloadRef.map fun _ => "rdq/postgres: unexpected payload_ref on row " ++ task.id

instance {W V : Type} [PgBinding W] [PgBinding V] : PgBinding (W ⊕ V) where
  unreadable := Sum.elim PgBinding.unreadable PgBinding.unreadable

/-- Workers that share one database. -/
abbrev PgFleet (W : Type) := Fleet Database W

namespace PgFleet
variable {W ρ : Type} [WorkerCode W ρ]

/-- Empty tables and no runs. -/
def new : PgFleet W := ⟨Database.new, []⟩

variable [PgBinding W]

variable {f : PgFleet W} {x : Event W ρ × Choice}

/-- The error that a claim ends with when it has flipped a row that cannot be read back. -/
def refusal? (f : PgFleet W) : Event W ρ × Choice → Option String
  | (.poll w limit now, ch) =>
    (Fleet.claims (Postgres.step f.store ch) f (.poll w limit now : Event W ρ)).findSome?
      fun c => PgBinding.unreadable w c.task
  | _ => none

/-- Perform one event, with what Postgres chooses in its transaction. A claim that cannot read
one of its rows back is rolled back as a whole. -/
def step (f : PgFleet W) (x : Event W ρ × Choice) : PgFleet W × Note :=
  match f.refusal? x with
  | some message => (f, .answered (.failed (.unreadableRow message)))
  | none => f.stepWith (Postgres.step f.store x.2) x.1

/-- The fleet after a list of events from empty tables. -/
def after (xs : List (Event W ρ × Choice)) : PgFleet W := run step new xs

/-- The choice of which the event leaves something behind: a claim that is rolled back is as
good as one that sees no row. -/
def chosen (f : PgFleet W) (x : Event W ρ × Choice) : Choice :=
  match f.refusal? x with
  | some _ => { x.2 with scan := [] }
  | none => x.2

theorem mint_chosen (f : PgFleet W) (x : Event W ρ × Choice) : (f.chosen x).mint = x.2.mint := by
  unfold chosen
  split <;> rfl

theorem chosen_of_readable (h : f.refusal? x = none) :
    f.chosen x = x.2 := by
  rw [chosen, h]

theorem step_of_readable (h : f.refusal? x = none) :
    f.step x = f.stepWith (Postgres.step f.store x.2) x.1 := by
  rw [step, h]

theorem poll_of_refusal {message : String} (h : f.refusal? x = some message) :
    ∃ w limit now, x.1 = .poll w limit now := by
  unfold refusal? at h
  split at h
  · exact ⟨_, _, _, rfl⟩
  · cases h

/-- The next state is the one of the calls alone, with the choice that counts. -/
theorem step_fst (f : PgFleet W) (x : Event W ρ × Choice) :
    (f.step x).1 = (f.stepWith (Postgres.step f.store (f.chosen x)) x.1).1 := by
  cases h : f.refusal? x with
  | none => rw [step_of_readable h, chosen_of_readable h]
  | some message =>
    obtain ⟨w, limit, now, hev⟩ := poll_of_refusal h
    simp only [step, chosen, h, hev, Fleet.stepWith, Fleet.storeCall?, step_claimDue_blind,
      Fleet.nextRuns, Reply.claims, List.map_nil, List.append_nil]

/-- The claims of a worker that reads every row are not rolled back. -/
theorem refusal?_eq_none {w : W} (hw : ∀ task, PgBinding.unreadable w task = none) (limit : Int)
    (now : Time) (ch : Choice) :
    f.refusal? ((.poll w limit now : Event W ρ), ch) = none := by
  simp [refusal?, hw]

end PgFleet

/-! ## Numbered histories -/

theorem max?_range' (n : Nat) : ((List.range' 1 n).map Int.ofNat).max?.getD 0 = n := by
  cases n with
  | zero => rfl
  | succ m =>
    have hmax : ((List.range' 1 (m + 1)).map Int.ofNat).max? = some (Int.ofNat (m + 1)) := by
      apply List.max?_eq_some_iff.mpr
      constructor
      · exact List.mem_map_of_mem (List.mem_range'_1.mpr (by omega))
      · intro b hb
        obtain ⟨k, hk, rfl⟩ := List.mem_map.mp hb
        have := List.mem_range'_1.mp hk
        simp only [Int.ofNat_eq_natCast]
        omega
    rw [hmax]
    rfl

section Numbered
variable {db : Database} {id : TaskID}

theorem attemptNos_of_numbered (h : Numbered (db.view id).history) :
    (db.attemptsOf id).map AttemptRow.attemptNo =
      (List.range' 1 (db.attemptsOf id).length).map Int.ofNat := by
  unfold Numbered View.history at h
  rw [List.map_map, List.length_map] at h
  exact h

/-- The largest number of a numbered history is its length. -/
theorem maxAttemptNo_of_numbered (h : Numbered (db.view id).history) :
    db.maxAttemptNo id = (db.attemptsOf id).length := by
  rw [Database.maxAttemptNo, attemptNos_of_numbered h, max?_range']

theorem attemptNo_le_of_numbered (h : Numbered (db.view id).history) {a : AttemptRow}
    (ha : a ∈ db.attemptsOf id) : a.attemptNo ≤ (db.attemptsOf id).length := by
  rw [← maxAttemptNo_of_numbered h]
  exact attemptNo_le_max db ha

end Numbered

/-- A row that is numbered past the history continues it. -/
theorem numbered_concat {atts : List AttemptRow} {a : AttemptRow}
    (h : Numbered (atts.map attemptFromRow)) (hno : a.attemptNo = atts.length + 1) :
    Numbered ((atts ++ [a]).map attemptFromRow) := by
  rw [List.map_append]
  refine h.concat ?_
  rw [List.length_map]
  exact hno

theorem ofUnit_eq_failed {x : Except StorageError Unit} {e : StorageError}
    (h : Reply.ofUnit x = .failed e) : x = .error e := by
  cases x with
  | error e' =>
    cases h
    rfl
  | ok => cases h

/-! ## The invariant -/

/-- A task has one home at most, no history without a home, and a history that
is numbered in order. -/
structure View.Sound (v : View) : Prop where
  home : v.task = none ∨ v.dlq = none
  absent : v.task = none → v.dlq = none → v.attempts = []
  numbered : Numbered v.history

/-- The outcome calls on `id` that hold the live claim are numbered past its history. -/
def OutcomeFits (db : Database) (op : Op) (id : TaskID) : Prop :=
  ∀ r token att, db.task.find? id = some r → r.Fenced token →
    op.outcome? = some (id, token) → OutcomeCall.recorded? op = some att →
    att.attemptNo = (db.attemptsOf id).length + 1

/-- What one transaction preserves. -/
theorem sound_step {db : Database} {ch : Choice} {op : Op} {id : TaskID}
    (h : (db.view id).Sound) (hnew : ∀ task, op = .enqueue task → task.id = id → task.attempts = [])
    (hfits : OutcomeFits db op id) : ((step db ch op).1.view id).Sound := by
  have hch := step_change db ch id op
  have hid : ∀ r, (db.view id).task = some r → r.id = id := fun r hr => KeyedTable.key_of_find? hr
  have hfits' : ∀ r token att, (db.view id).task = some r → r.Fenced token →
      op.outcome? = some (id, token) → OutcomeCall.recorded? op = some att →
      att.attemptNo = (db.view id).attempts.length + 1 := hfits
  have hmax : db.maxAttemptNo id = (db.view id).attempts.length :=
    maxAttemptNo_of_numbered h.numbered
  have hhome := home_step h.home ch op
  generalize (step db ch op).1.view id = v' at hch hhome
  generalize db.view id = v at h hch hid hfits' hmax
  cases hch with
  | keep => exact h
  | admitted task atts hop htask =>
    have hempty : atts = [] := h.absent rfl rfl
    have hnone := hnew task hop htask
    subst hempty
    refine ⟨hhome, (fun hc => by cases hc), ?_⟩
    simp only [View.history, attemptRowsFromEnvelope, hnone, List.map_nil, List.append_nil]
    exact Numbered.nil
  | claim r d queue limit lease now =>
    refine ⟨hhome, (fun hc => by cases hc), ?_⟩
    rw [View.history, reclaimed]
    split
    · refine numbered_concat h.numbered ?_
      rw [← hid r rfl] at hmax
      simp only [Database.leaseExpiredRow, hmax]
    · rw [List.append_nil]
      exact h.numbered
  | extend r d atts | redrive d atts =>
    exact ⟨hhome, (fun hc => by cases hc), h.numbered⟩
  | reschedule r d atts token att nextAt hop hfenced
  | complete r d atts token att now hop hfenced =>
    refine ⟨hhome, (fun hc => by cases hc), ?_⟩
    rw [hid r rfl] at hop
    subst hop
    exact numbered_concat h.numbered (hfits' r token att rfl hfenced rfl rfl)
  | deadLetter r atts token att now hop hfenced =>
    refine ⟨hhome, (fun _ hc => by cases hc), ?_⟩
    rw [hid r rfl] at hop
    subst hop
    exact numbered_concat h.numbered (hfits' r token att rfl hfenced rfl rfl)
  | purge r d atts | sweep r d atts => exact ⟨hhome, fun _ _ => rfl, Numbered.nil⟩

/-- A transaction that leaves a token live leaves the history alone, unless it
minted the token. -/
theorem attemptsOf_of_fenced {db : Database} {ch : Choice} {op : Op} {id : TaskID}
    (h : (db.view id).Sound) {r' : TaskRow} {token : ClaimToken}
    (hr' : (step db ch op).1.task.find? id = some r') (hfenced : r'.Fenced token)
    (hfresh : (∃ queue limit lease now, op = .claimDue queue limit lease now) →
      ch.mint id ≠ token) :
    (step db ch op).1.attemptsOf id = db.attemptsOf id ∧
      ∃ r, db.task.find? id = some r ∧ r.Fenced token := by
  have hch := step_change db ch id op
  have hid : ∀ r, (db.view id).task = some r → r.id = id := fun r hr => KeyedTable.key_of_find? hr
  change ((step db ch op).1.view id).task = some r' at hr'
  change ((step db ch op).1.view id).attempts = (db.view id).attempts ∧
    ∃ r, (db.view id).task = some r ∧ r.Fenced token
  generalize (step db ch op).1.view id = v' at hch hr'
  generalize db.view id = v at h hch hid
  cases hch with
  | keep => exact ⟨rfl, r', hr', hfenced⟩
  | extend r d atts =>
    cases hr'
    exact ⟨rfl, r, rfl, hfenced⟩
  | claim r d queue limit lease now hop =>
    cases hr'
    have hmint : some (ch.mint r.id) = some token := hfenced.2
    rw [hid r rfl] at hmint
    exact absurd (Option.some.inj hmint) (hfresh ⟨queue, limit, lease, now, hop⟩)
  | admitted | reschedule | complete | redrive =>
    -- the row holds no token
    cases hr'
    cases hfenced.2
  | purge r d atts =>
    -- a dead letter has no live row
    rcases h.home with hc | hc
    · cases hc
      cases hr'
    · cases hc
  | deadLetter | sweep => cases hr'

variable {W ρ : Type} [WorkerCode W ρ]

/-- A task comes in with an empty history, and a claim mints a token that no
earlier run of the task was given. -/
def Orderly (id : TaskID) (f : PgFleet W) : Event W ρ × Choice → Prop
  | (.enqueue task, _) => task.id = id → task.attempts = []
  | (.poll _ _ _, ch) => ∀ r ∈ f.runs, r.claim.task.id = id → ch.mint id ≠ r.claim.token
  | _ => True

instance (id : TaskID) (f : PgFleet W) : (x : Event W ρ × Choice) → Decidable (Orderly id f x)
  | (.enqueue _, _) => inferInstanceAs (Decidable (_ → _))
  | (.poll _ _ _, _) => inferInstanceAs (Decidable (∀ r ∈ _, _))
  | (.redrive _ _ _, _) | (.purge _ _, _) | (.purgeSucceeded _ _, _) | (.route _ _, _)
  | (.invoke _ _, _) | (.finish _ _ _, _) | (.heartbeat _ _, _) | (.write _ _, _)
  | (.stop _, _) => instDecidableTrue

/-- The task is sound, and a run that holds its live token has seen the whole history. -/
structure NumberInv (id : TaskID) (f : PgFleet W) : Prop where
  sound : (f.store.view id).Sound
  snapshot : ∀ (i : Nat) (run : Run W) (r : TaskRow), f.runs[i]? = some run →
    run.claim.task.id = id → f.store.task.find? id = some r → r.Fenced run.claim.token →
    (f.store.attemptsOf id).length = run.claim.task.attempts.length
  outcomes : f.OutcomesNumbered

namespace NumberInv
variable {id : TaskID} {f : PgFleet W} {ev : Event W ρ} {ch : Choice}

theorem new (id : TaskID) : NumberInv id (PgFleet.new : PgFleet W) where
  sound := ⟨Or.inl rfl, fun _ _ => rfl, Numbered.nil⟩
  snapshot := by
    intro i run r hrun
    cases hrun
  outcomes := by
    intro i run call hrun
    cases hrun

/-- An outcome call continues the history of its task when it holds the live claim. -/
theorem outcomeFits (h : NumberInv id f) {op : Op} (hop : f.storeCall? ev = some op) :
    OutcomeFits f.store op id := by
  intro r token att hr hfenced hout hatt
  obtain ⟨i, now, run, call, hrun, hphase, rfl⟩ := Fleet.storeCall?_outcome hop hout
  rw [OutcomeCall.outcome?_op] at hout
  obtain ⟨hrid, rfl⟩ := Prod.mk.inj (Option.some.inj hout)
  rw [OutcomeCall.recorded?_op] at hatt
  rw [← Option.some.inj hatt, h.outcomes i run call hrun hphase, historyNo,
    h.snapshot i run r hrun hrid hr hfenced]

/-- An outcome call on the task meets no constraint. -/
theorem outcome_accepted (h : NumberInv id f) {op : Op} {token : ClaimToken}
    (hop : f.storeCall? ev = some op) (hout : op.outcome? = some (id, token)) (context : String) :
    (Postgres.step f.store ch op).2 ≠ .failed (.uniqueViolation context) := by
  have hnever : ∀ r att, f.store.task.find? id = some r → r.Fenced token →
      OutcomeCall.recorded? op = some att →
      ¬ ∃ a ∈ f.store.attemptsOf id, a.attemptNo = att.attemptNo := by
    rintro r att hr hfenced hatt ⟨a, ha, hno⟩
    have hfits := h.outcomeFits hop r token att hr hfenced hout hatt
    have hle := attemptNo_le_of_numbered h.sound.numbered ha
    omega
  intro hfail
  cases op with
  | reschedule i t att nextAt =>
    cases hout
    obtain ⟨r, hr, hfenced, htaken⟩ := spendClaim_refused (ofUnit_eq_failed hfail)
    exact hnever r att hr hfenced rfl htaken
  | complete i t att now =>
    cases hout
    obtain ⟨r, hr, hfenced, htaken⟩ := spendClaim_refused (ofUnit_eq_failed hfail)
    exact hnever r att hr hfenced rfl htaken
  | deadLetter i t att now =>
    cases hout
    obtain ⟨r, hr, hfenced, hplace | htaken⟩ := deadLetter_refused (ofUnit_eq_failed hfail)
    · rcases h.sound.home with hnone | hnone
      · exact absurd (hr.symm.trans hnone) (fun hc => by cases hc)
      · exact hplace hnone
    · exact hnever r att hr hfenced rfl htaken
  | enqueue | claimDue | extendLease | redrive | purge | purgeSucceeded => cases hout

variable [PgBinding W]

theorem step_sound (h : NumberInv id f) (hc : Orderly id f (ev, ch)) :
    ((PgFleet.step f (ev, ch)).1.store.view id).Sound := by
  rw [PgFleet.step_fst, Fleet.stepWith_store]
  split
  · rename_i op hop
    refine sound_step h.sound ?_ (h.outcomeFits hop)
    rintro task rfl
    obtain rfl := Fleet.storeCall?_enqueue hop
    exact hc
  · exact h.sound

theorem step_snapshot (h : NumberInv id f) (hc : Orderly id f (ev, ch)) {i : Nat} {run : Run W}
    {r' : TaskRow} (hrun : (PgFleet.step f (ev, ch)).1.runs[i]? = some run)
    (hrid : run.claim.task.id = id)
    (hr' : (PgFleet.step f (ev, ch)).1.store.task.find? id = some r')
    (hfenced : r'.Fenced run.claim.token) :
    ((PgFleet.step f (ev, ch)).1.store.attemptsOf id).length =
      run.claim.task.attempts.length := by
  rw [PgFleet.step_fst] at hrun
  rw [PgFleet.step_fst, Fleet.stepWith_store] at hr' ⊢
  rcases f.run_origin _ ev hrun with ⟨run₀, hrun₀, hcont⟩ | ⟨w, limit, now, c, rfl, _, hget, rfl⟩
  · rw [hcont.claim] at hrid hfenced ⊢
    split at hr'
    · rename_i op hop
      have hfresh : (∃ queue limit lease now, op = .claimDue queue limit lease now) →
          (f.chosen (ev, ch)).mint id ≠ run₀.claim.token := by
        rintro ⟨queue, limit, lease, now, rfl⟩
        obtain ⟨w, rfl, _⟩ := Fleet.storeCall?_claimDue hop
        rw [PgFleet.mint_chosen]
        exact hc run₀ (List.mem_of_getElem? hrun₀) hrid
      obtain ⟨hsame, r, hr, hf⟩ := attemptsOf_of_fenced h.sound hr' hfenced hfresh
      rw [hsame]
      exact h.snapshot i run₀ r hrun₀ hrid hr hf
    · exact h.snapshot i run₀ r' hrun₀ hrid hr' hfenced
  · obtain ⟨r, lease, now', _, _, _, htask⟩ := step_granted (List.mem_of_getElem? hget)
    have hid : r.id = id := by
      rw [← hrid, Run.start, htask]
      rfl
    rw [Run.start, htask, envelopeFromRows, List.length_map, Database.length_loadAttempts, hid]
    rfl

theorem step (h : NumberInv id f) (hc : Orderly id f (ev, ch)) :
    NumberInv id (PgFleet.step f (ev, ch)).1 where
  sound := h.step_sound hc
  snapshot := fun _ _ _ hrun hrid hr hf => h.step_snapshot hc hrun hrid hr hf
  outcomes := by
    rw [PgFleet.step_fst]
    exact h.outcomes.stepWith _ ev

end NumberInv

/-- The event of an entry makes an outcome call on the task, or a claim. -/
def Records (id : TaskID) (e : Entry (PgFleet W) (Event W ρ × Choice) Note) : Prop :=
  ∃ op, e.pre.storeCall? e.input.1 = some op ∧
    ((∃ token, op.outcome? = some (id, token)) ∨
      ∃ queue limit lease now, op = .claimDue queue limit lease now)

/-- In a state that satisfies the invariant, no such call meets a constraint. -/
theorem NumberInv.records_accepted [PgBinding W] {id : TaskID} {f : PgFleet W} (h : NumberInv id f)
    {x : Event W ρ × Choice} (hrec : Records id (entry PgFleet.step f x)) (context : String) :
    (PgFleet.step f x).2 ≠ .answered (.failed (.uniqueViolation context)) := by
  cases href : f.refusal? x with
  | some message =>
    rw [PgFleet.step, href]
    intro hfail
    cases hfail
  | none =>
    obtain ⟨op, hop, hkind⟩ := hrec
    have hop' : f.storeCall? x.1 = some op := hop
    have hanswer : (PgFleet.step f x).2 = .answered (Postgres.step f.store x.2 op).2 := by
      rw [PgFleet.step_of_readable href]
      simp only [Fleet.stepWith, hop']
    rw [hanswer]
    intro hfail
    rcases hkind with ⟨token, hout⟩ | ⟨queue, limit, lease, now, rfl⟩
    · exact h.outcome_accepted hop hout context (Note.answered.inj hfail)
    · obtain ⟨cs, hcs⟩ := @claimDue_accepted f.store x.2 queue limit lease now
      rw [hcs] at hfail
      cases hfail

/-- The events of Go and Java workers on one database, with what Postgres chooses. -/
abbrev SharedEvent (ε δ : Type) :=
  Event (Worker ε ⊕ JavaWorker δ) ((Option ε × Nat) ⊕ (Option δ × Nat)) × Choice

/-- In every interleaving of Go and Java workers on one database in which the task comes in
without a history and tokens are not minted twice for it, the stored attempt numbers of the task
are 1, 2, 3, … in the order of writing, and no outcome call on the task and no claim is refused by
a unique constraint. -/
theorem attempt_numbers_consecutive {ε δ : Type} [HandlerError ε] [Throwable δ] (id : TaskID)
    (xs : List (SharedEvent ε δ)) (hall : AllSteps PgFleet.step (Orderly id) PgFleet.new xs) :
    ((PgFleet.after xs).store.attemptsOf id).map AttemptRow.attemptNo =
        (List.range' 1 ((PgFleet.after xs).store.attemptsOf id).length).map Int.ofNat ∧
      ∀ e ∈ trace PgFleet.step PgFleet.new xs, Records id e →
        ∀ context, e.output ≠ .answered (.failed (.uniqueViolation context)) := by
  -- the refusals need the invariant in the state before the step, so both go in one induction
  have hinv : NumberInv id (PgFleet.after xs) ∧
      ∀ e ∈ trace PgFleet.step PgFleet.new xs, Records id e →
        ∀ context, e.output ≠ .answered (.failed (.uniqueViolation context)) := by
    refine trace_invariant
      (P := fun tr f => NumberInv id f ∧ ∀ e ∈ tr, Records id e →
        ∀ context, e.output ≠ .answered (.failed (.uniqueViolation context)))
      ⟨NumberInv.new id, by simp⟩ ?_ hall
    rintro tr f ⟨ev, ch⟩ ⟨h, htr⟩ hc
    refine ⟨h.step hc, ?_⟩
    intro e he hrec
    rcases List.mem_append.mp he with he | he
    · exact htr e he hrec
    · obtain rfl := List.mem_singleton.mp he
      exact h.records_accepted hrec
  exact ⟨attemptNos_of_numbered hinv.1.sound.numbered, hinv.2⟩

/-- A Go worker fails the task for good, the task is redriven, a Java worker claims it and stalls,
and a Go worker reclaims it. The Java worker's late outcome is refused. -/
def sharedRun : List (SharedEvent ErrorString RuntimeException) :=
  let choose (token : ClaimToken) : Choice := ⟨["t"], fun _ => token⟩
  [(.enqueue (.submitted "t" "q" "h" 0), choose ""),
    (.poll (.inl oneShotWorker) 1 0, choose "u1"), (.route 0 0, choose ""),
    (.invoke 0 0, choose ""),
    (.finish 0 5 (.inl (some ⟨"timeout"⟩, 0)), choose ""), (.write 0 5, choose ""),
    (.redrive "q" { ids := ["t"] } 10, choose ""),
    (.poll (.inr oneShotJavaWorker) 1 20, choose "u2"), (.route 1 20, choose ""),
    (.invoke 1 20, choose ""),
    (.poll (.inl oneShotWorker) 1 2000000, choose "u3"), (.route 2 2000000, choose ""),
    (.finish 1 2000001 (.inr (none, 0)), choose ""), (.write 1 2000001, choose ""),
    (.write 2 2000002, choose "")]

theorem attempt_numbers_consecutive_sharedRun :
    AllSteps PgFleet.step (Orderly "t") PgFleet.new sharedRun ∧
      ((PgFleet.after sharedRun).store.attemptsOf "t").map AttemptRow.attemptNo = [1, 2, 3] := by
  have hall : AllSteps PgFleet.step (Orderly "t") PgFleet.new sharedRun := by decide
  have hlen : ((PgFleet.after sharedRun).store.attemptsOf "t").length = 3 := by decide
  refine ⟨hall, ?_⟩
  rw [(attempt_numbers_consecutive "t" sharedRun hall).1, hlen]
  rfl

end Rdq.Postgres
