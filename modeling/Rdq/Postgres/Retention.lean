import Rdq.Engine.MemFleet
import Rdq.Postgres.AttemptNumbers
import Rdq.Postgres.DlqList

/-!
# Retention of succeeded tasks

`PurgeSucceeded` removes the succeeded tasks that completed before a cut-off. The memstore
stamps a task when its `Complete` arrives. Postgres has no such column: `stats.go` takes the
newest `finished_at` of the attempts, which the workers read off their own clocks, and
before the outcome call is made.

## Implementation notes

The completions of a run are read off its trace: the calls of `Complete` that were answered
without an error, with the reading of the storage clock. A cut-off is cut to microseconds on
its way to the database.
-/

namespace Rdq

/-- The completion that an answered call is, with the reading of the storage clock. -/
def Op.completion? (op : Op) (reply : Reply) : Option (TaskID × Time) :=
  match op with
  | .complete id _ _ now => if reply = .done then some (id, now) else none
  | _ => none

end Rdq

namespace Rdq.Engine

open Rdq.Foundation

/-- When a task was completed last. -/
def lastCompletion (log : List (TaskID × Time)) (id : TaskID) : Option Time :=
  (log.reverse.find? fun c => decide (c.1 = id)).map Prod.snd

@[simp] theorem lastCompletion_nil (id : TaskID) : lastCompletion [] id = none := rfl

theorem lastCompletion_concat (log : List (TaskID × Time)) (c : TaskID × Time) (id : TaskID) :
    lastCompletion (log ++ [c]) id = if c.1 = id then some c.2 else lastCompletion log id := by
  rw [lastCompletion, List.reverse_append, List.reverse_singleton, List.singleton_append,
    List.find?_cons]
  by_cases h : c.1 = id
  · simp only [h, decide_true, if_true, Option.map_some]
  · simp only [h, decide_false, if_false]
    rfl

/-- The tasks a sweep has to remove: succeeded ones of the queue that were completed before
the cut-off. -/
def completedBefore (log : List (TaskID × Time)) (queue : String) (olderThan : Time)
    (taskQueue : String) (status : Status) (id : TaskID) : Bool :=
  decide (taskQueue = queue) && decide (status = .succeeded) &&
    (lastCompletion log id).any fun c => decide (c < olderThan)

namespace Fleet
variable {σ W ρ : Type} [WorkerCode W ρ]

/-- The completion an event has brought about. -/
def completion? (f : Fleet σ W) (ev : Event W ρ) : Note → Option (TaskID × Time)
  | .answered reply => (f.storeCall? ev).bind fun op => op.completion? reply
  | _ => none

/-- The completions of a trace, oldest first. -/
def completions {ι : Type} (event : ι → Event W ρ) (tr : List (Entry (Fleet σ W) ι Note)) :
    List (TaskID × Time) :=
  tr.filterMap fun e => e.pre.completion? (event e.input) e.output

theorem completions_concat {ι : Type} (event : ι → Event W ρ)
    (tr : List (Entry (Fleet σ W) ι Note)) (e : Entry (Fleet σ W) ι Note) :
    completions event (tr ++ [e]) =
      completions event tr ++ (e.pre.completion? (event e.input) e.output).toList := by
  rw [completions, List.filterMap_append]
  cases hc : e.pre.completion? (event e.input) e.output with
  | none => simp [completions, hc]
  | some c => simp [completions, hc]

/-- What every call keeps of a store and the completions so far, every event keeps. -/
theorem stepWith_completions {P : List (TaskID × Time) → σ → Prop} {call : Op → σ × Reply}
    {f : Fleet σ W} {ev : Event W ρ} {log : List (TaskID × Time)} (h : P log f.store)
    (hcall : ∀ op, f.storeCall? ev = some op →
      P (log ++ (op.completion? (call op).2).toList) (call op).1) :
    P (log ++ (f.completion? ev (f.stepWith call ev).2).toList) (f.stepWith call ev).1.store := by
  unfold stepWith
  cases hop : f.storeCall? ev with
  | none =>
    have hnone : ∀ note, f.completion? ev note = none := by
      intro note
      cases note <;> simp [completion?, hop]
    rw [hnone, Option.toList_none, List.append_nil]
    exact h
  | some op =>
    simp only [completion?, hop, Option.bind_some]
    exact hcall op hop

/-- What holds of every run, from what the stages of a run keep. -/
theorem forall_nextRuns {P : Run W → Prop} {f : Fleet σ W} {claims : List Claimed}
    (hstart : ∀ w c, P (Run.start w c)) (hroute : ∀ r now, P r → P (r.route now))
    (hinvoke : ∀ r started, P r → P (r.invoke started))
    (hfinish : ∀ (r : Run W) finished (result : ρ), P r → P (r.finish finished result))
    (hwrite : ∀ r, P r → P r.write) (hstop : ∀ r, P r → P r.stop)
    (h : ∀ r ∈ f.runs, P r) (ev : Event W ρ) : ∀ r ∈ f.nextRuns claims ev, P r := by
  have hmodify : ∀ (i : Nat) (g : Run W → Run W), (∀ r, P r → P (g r)) →
      ∀ r ∈ f.runs.modify i g, P r := by
    intro i g hg r hr
    obtain ⟨j, hj⟩ := List.mem_iff_getElem?.mp hr
    rw [List.getElem?_modify] at hj
    obtain ⟨r₀, hr₀, rfl⟩ := Option.map_eq_some_iff.mp hj
    have hold := h r₀ (List.mem_of_getElem? hr₀)
    split
    · exact hg r₀ hold
    · exact hold
  cases ev with
  | poll w limit now =>
    intro r hr
    rcases List.mem_append.mp hr with hr | hr
    · exact h r hr
    · obtain ⟨c, -, rfl⟩ := List.mem_map.mp hr
      exact hstart w c
  | route i now => exact hmodify i _ fun r => hroute r now
  | invoke i started => exact hmodify i _ fun r => hinvoke r started
  | finish i finished result => exact hmodify i _ fun r => hfinish r finished result
  | write i now => exact hmodify i _ hwrite
  | stop i => exact hmodify i _ hstop
  | enqueue | redrive | purge | purgeSucceeded | heartbeat => exact h

end Fleet

/-! ## The memstore -/

section Memstore
variable {W ρ : Type} [WorkerCode W ρ]

/-- A client submits no task that has succeeded already. -/
def Event.SubmitsUnfinished : Event W ρ → Prop
  | .enqueue task => task.status ≠ .succeeded
  | _ => True

namespace MemFleet

/-- The stamp of a succeeded task is the time of its last completion. -/
def Stamped (log : List (TaskID × Time)) (s : MemStore.Store) : Prop :=
  ∀ id r, s.tasks.find? id = some r → r.env.status = .succeeded →
    lastCompletion log id = some r.terminalAt

theorem stamped_complete {log : List (TaskID × Time)} {s : MemStore.Store} (h : Stamped log s)
    (i : TaskID) (token : ClaimToken) (att : Attempt) (now : Time) :
    Stamped (log ++ (Op.completion? (.complete i token att now)
        (MemStore.step s (.complete i token att now)).2).toList)
      (MemStore.step s (.complete i token att now)).1 := by
  cases hres : s.resolveClaim i token with
  | error e =>
    have hstep : MemStore.step s (.complete i token att now) = (s, .failed e) := by
      simp only [MemStore.step, MemStore.Store.complete, hres]
      rfl
    rw [hstep]
    change Stamped (log ++ []) s
    rw [List.append_nil]
    exact h
  | ok r₀ =>
    have hr₀ := (MemStore.resolveClaim_ok hres).1
    have hstep : MemStore.step s (.complete i token att now) =
        ({ s with
            tasks := s.tasks.modify i (MemStore.Record.complete att now)
              (MemStore.Record.id_complete att now) }, .done) := by
      simp only [MemStore.step, MemStore.Store.complete, hres]
      rfl
    rw [hstep]
    intro id r hr hdone
    change lastCompletion (log ++ [(i, now)]) id = _
    rw [lastCompletion_concat]
    by_cases hid : i = id
    · subst hid
      have hfind : ((s.tasks.modify i (MemStore.Record.complete att now)
          (MemStore.Record.id_complete att now)).find? i) =
          some (r₀.complete att now) := by
        rw [KeyedTable.find?_modify_self, hr₀, Option.map_some]
      obtain rfl := Option.some.inj (hfind.symm.trans hr)
      exact if_pos rfl
    · have hold : s.tasks.find? id = some r := by
        rw [← hr]
        exact (s.tasks.find?_modify_of_ne _ (MemStore.Record.id_complete att now)
          (Ne.symm hid)).symm
      rw [if_neg hid]
      exact h id r hold hdone

/-- Any other call makes no task succeed. -/
theorem stamped_other {log : List (TaskID × Time)} {s : MemStore.Store} {op : Op}
    (h : Stamped log s) (hnew : ∀ task, op = .enqueue task → task.status ≠ .succeeded)
    (hop : ∀ i token att now, op ≠ .complete i token att now) :
    Stamped log (MemStore.step s op).1 := by
  intro id r' hr' hdone
  have hch := MemStore.step_change s id op
  have hold := h id
  generalize (MemStore.step s op).1.tasks.find? id = v' at hch hr'
  generalize s.tasks.find? id = v at hch hold
  cases hch with
  | keep => exact hold r' hr' hdone
  | admitted task heq =>
    cases hr'
    exact absurd hdone (hnew task heq)
  | complete r token att now heq => exact absurd heq (hop _ _ _ _)
  | redrive r n =>
    cases hr'
    rw [Function.iterate_succ_apply'] at hdone
    cases hdone
  | claim | reschedule | deadLetter =>
    cases hr'
    cases hdone
  | extend r token lease now heq hlive =>
    cases hr'
    have hstatus : r.env.status = .succeeded := hdone
    rw [hlive] at hstatus
    cases hstatus
  | purge | sweep => cases hr'

theorem stamped_step {log : List (TaskID × Time)} {f : MemFleet W} {ev : Event W ρ}
    (h : Stamped log f.store) (hev : ev.SubmitsUnfinished) :
    Stamped (log ++ (f.completion? ev (f.step ev).2).toList) (f.step ev).1.store := by
  refine Fleet.stepWith_completions h fun op hop => ?_
  have hnew : ∀ task, op = .enqueue task → task.status ≠ .succeeded := by
    rintro task rfl
    obtain rfl := Fleet.storeCall?_enqueue hop
    exact hev
  cases op with
  | complete i token att now => exact stamped_complete h i token att now
  | enqueue | claimDue | extendLease | reschedule | deadLetter | redrive | purge
  | purgeSucceeded =>
    simp only [Op.completion?, Option.toList_none, List.append_nil]
    exact stamped_other h hnew (by simp)

/-- The completions of the run over a list of events. -/
def completions (evs : List (Event W ρ)) : List (TaskID × Time) :=
  Fleet.completions id (trace step new evs)

/-- The store without the tasks of a predicate, and how many these were. -/
def removeTasks (s : MemStore.Store) (p : MemStore.Record → Bool) : MemStore.Store × Nat :=
  ({ s with tasks := s.tasks.deleteWhere p }, (s.tasks.rows.filter p).length)

/-- The memstore removes exactly the tasks that were completed before the cut-off. -/
theorem purgeSucceeded_completed {evs : List (Event W ρ)}
    (hevs : ∀ ev ∈ evs, ev.SubmitsUnfinished) (queue : String) (olderThan : Time) :
    (after evs).store.purgeSucceeded queue olderThan =
      removeTasks (after evs).store fun r =>
        completedBefore (completions evs) queue olderThan r.env.queue
          r.env.status r.id := by
  have hstamped : Stamped (completions evs) (after evs).store := by
    refine trace_invariant
      (P := fun tr (f : MemFleet W) => Stamped (Fleet.completions id tr) f.store) ?_ ?_
      (allSteps_of_forall hevs new)
    · intro id r hr
      cases hr
    · intro tr f ev h hev
      rw [Fleet.completions_concat]
      exact stamped_step h hev
  have hrows : ∀ r ∈ (after evs).store.tasks.rows,
      MemStore.Store.isExpired queue olderThan r =
        completedBefore (completions evs) queue olderThan r.env.queue
          r.env.status r.id := by
    intro r hr
    by_cases hdone : r.env.status = .succeeded
    · have hlast := hstamped r.id r (KeyedTable.find?_key_of_mem hr) hdone
      simp [MemStore.Store.isExpired, completedBefore, hdone, hlast]
    · simp [MemStore.Store.isExpired, completedBefore, hdone]
  rw [MemStore.Store.purgeSucceeded, removeTasks, KeyedTable.deleteWhere_eq_iff.mpr hrows,
    List.filter_congr hrows]

end MemFleet

end Memstore

end Rdq.Engine

namespace Rdq.Postgres

open Rdq.Foundation Rdq.Engine

/-! ## The sweep of the database -/

section Sweep
variable {db : Database}

/-- The database without the tasks of a predicate and their attempts, and how many these
tasks were. -/
def Database.removeTasks (db : Database) (p : TaskRow → Bool) : Database × Nat :=
  ({ db with task := db.task.deleteWhere p }.deleteAttempts
    ((db.task.rows.filter p).map TaskRow.id), (db.task.rows.filter p).length)

theorem purgeSucceeded_eq_removeTasks (queue : String) (olderThan : Time) :
    db.purgeSucceeded queue olderThan = db.removeTasks (db.isExpired queue olderThan) := rfl

theorem removeTasks_eq_iff {p q : TaskRow → Bool} :
    db.removeTasks p = db.removeTasks q ↔ ∀ r ∈ db.task.rows, p r = q r := by
  constructor
  · intro h
    have htask : db.task.deleteWhere p = db.task.deleteWhere q :=
      congrArg (fun x : Database × Nat => x.1.task) h
    exact KeyedTable.deleteWhere_eq_iff.mp htask
  · intro h
    rw [Database.removeTasks, Database.removeTasks, KeyedTable.deleteWhere_eq_iff.mpr h,
      List.filter_congr h]

/-- The newest `finished_at` among the attempts of a task. -/
def Newest (db : Database) (id : TaskID) (t : Time) : Prop :=
  IsGreatest {t | ∃ a ∈ db.attemptsOf id, a.finishedAt = some t} t

theorem newest_iff_max? {id : TaskID} {t : Time} :
    Newest db id t ↔ ((db.attemptsOf id).filterMap AttemptRow.finishedAt).max? = some t := by
  rw [List.max?_eq_some_iff]
  simp only [Newest, IsGreatest, upperBounds, Set.mem_ofPred_eq, List.mem_filterMap]

theorem completedAt_of_newest {r : TaskRow} {t : Time} (h : Newest db r.id t) :
    db.completedAt r = t := by
  rw [Database.completedAt, newest_iff_max?.mp h, Option.getD_some]

theorem exists_newest {id : TaskID} (h : ∃ a ∈ db.attemptsOf id, a.finishedAt ≠ none) :
    ∃ t, Newest db id t := by
  obtain ⟨a, ha, hfinished⟩ := h
  obtain ⟨t, ht⟩ := Option.ne_none_iff_exists'.mp hfinished
  have hmem : t ∈ (db.attemptsOf id).filterMap AttemptRow.finishedAt :=
    List.mem_filterMap.mpr ⟨a, ha, ht⟩
  simp only [newest_iff_max?]
  apply Option.isSome_iff_exists.mp
  exact List.isSome_max?_of_mem hmem

end Sweep

/-! ## Succeeded tasks -/

/-- A succeeded task was completed, and has an attempt with a time at which it finished. -/
def View.Finished (log : List (TaskID × Time)) (id : TaskID) (v : View) : Prop :=
  ∀ r, v.task = some r → r.status = .succeeded →
    (∃ c, lastCompletion log id = some c) ∧ ∃ a ∈ v.attempts, a.finishedAt ≠ none

theorem finished_change {db : Database} {ch : Choice} {op : Op} {id : TaskID} {v v' : View}
    {log log' : List (TaskID × Time)} (hch : Change db ch op id v v')
    (hid : ∀ r, v.task = some r → r.id = id) (hhome : v.task = none ∨ v.dlq = none)
    (h : v.Finished log id)
    (hlog : (∃ c, lastCompletion log id = some c) → ∃ c, lastCompletion log' id = some c)
    (hnew : ∀ task, op = .enqueue task → task.status ≠ .succeeded)
    (hdone : ∀ token att now, op = .complete id token att now →
      att.finishedAt ≠ none ∧ ∃ c, lastCompletion log' id = some c) :
    v'.Finished log' id := by
  intro r' hr' hsucceeded
  cases hch with
  | keep =>
    obtain ⟨hc, ha⟩ := h r' hr' hsucceeded
    exact ⟨hlog hc, ha⟩
  | admitted task atts hop =>
    cases hr'
    exact absurd hsucceeded (hnew task hop)
  | complete r d atts token att now hop =>
    rw [hid r rfl] at hop
    obtain ⟨hfinished, hc⟩ := hdone token att now hop
    refine ⟨hc, attemptRowFromAttempt r.id att, ?_, hfinished⟩
    exact List.mem_append_right _ List.mem_cons_self
  | extend r d atts token lease now hop hfenced =>
    cases hr'
    have hstatus : r.status = .succeeded := hsucceeded
    rw [hfenced.1] at hstatus
    cases hstatus
  | claim | reschedule | redrive =>
    cases hr'
    cases hsucceeded
  | purge r d atts =>
    -- a dead letter has no live row
    rcases hhome with hc | hc
    · cases hc
      cases hr'
    · cases hc
  | deadLetter | sweep => cases hr'

/-- A refused `Complete` leaves the tables as they are. -/
theorem complete_refused {db : Database} {i : TaskID} {token : ClaimToken} {att : Attempt}
    (h : Reply.ofUnit (db.complete i token att).2 ≠ .done) : (db.complete i token att).1 = db := by
  unfold Database.complete Database.spendClaim at h ⊢
  cases hrow : (db.task.find? i).filter fun r => r.Fenced token with
  | none => rfl
  | some r =>
    simp only [hrow] at h ⊢
    split
    · rename_i db' hins
      simp only [hins] at h
      exact absurd rfl h
    · rfl

section Fleet
variable {ε : Type} [HandlerError ε]

/-- A run that reports a success says when the handler finished. -/
def Timed (run : Run (Worker ε)) : Prop :=
  ∀ att, run.phase = .writing (.complete att) → att.finishedAt ≠ none

theorem timed_route (run : Run (Worker ε)) (now : Time) (h : Timed run) :
    Timed (run.route now) := by
  intro att hatt
  unfold Run.route at hatt
  split at hatt
  · split at hatt
    · cases hatt
    · rename_i call hcall
      -- a task that is not run is dead-lettered
      simp only [WorkerCode.route] at hcall
      split at hcall
      · cases hcall
      · cases hcall
        cases hatt
  · exact h att hatt

omit [HandlerError ε] in
theorem timed_invoke (run : Run (Worker ε)) (started : Time) (h : Timed run) :
    Timed (run.invoke started) := by
  intro att hatt
  unfold Run.invoke at hatt
  split at hatt
  · cases hatt
  · exact h att hatt

theorem timed_finish (run : Run (Worker ε)) (finished : Time) (result : Option ε × Nat)
    (h : Timed run) : Timed (run.finish finished result) := by
  intro att hatt
  unfold Run.finish at hatt
  split at hatt
  · split at hatt
    · rename_i call hcall
      cases hcall
      have hatt' : (run.worker.conclude run.claim.task _ finished result.1 result.2).attempt =
          att := congrArg OutcomeCall.attempt (Phase.writing.inj hatt)
      rw [← hatt', Worker.finishedAt_conclude]
      exact Option.some_ne_none finished
    · exact h att hatt
  · exact h att hatt

/-- Go workers read every row. -/
theorem PgFleet.step_go (f : PgFleet (Worker ε)) (x : GoEvent ε × Choice) :
    f.step x = f.stepWith (Postgres.step f.store x.2) x.1 := by
  apply step_of_readable
  unfold refusal?
  split
  · exact refusal?_eq_none (fun _ => rfl) _ _ _
  · rfl

/-- What a run keeps about its succeeded tasks. -/
structure Kept (log : List (TaskID × Time)) (f : PgFleet (Worker ε)) : Prop where
  home : ∀ id, (f.store.view id).task = none ∨ (f.store.view id).dlq = none
  finished : ∀ id, (f.store.view id).Finished log id
  timed : ∀ run ∈ f.runs, Timed run

namespace Kept
variable {log : List (TaskID × Time)} {f : PgFleet (Worker ε)}
variable {ev : GoEvent ε} {ch : Choice}

/-- A `Complete` that a run makes carries a time. -/
theorem finishedAt_of_call (h : Kept log f) {id : TaskID} {token : ClaimToken} {att : Attempt}
    {now : Time} (hop : f.storeCall? ev = some (.complete id token att now)) :
    att.finishedAt ≠ none := by
  obtain ⟨i, now', run, call, hrun, hphase, heq⟩ := Fleet.storeCall?_outcome hop rfl
  cases call with
  | complete att' =>
    cases heq
    exact h.timed run (List.mem_of_getElem? hrun) att hphase
  | reschedule | deadLetter => cases heq

theorem finished_complete (h : Kept log f) {i : TaskID} {token : ClaimToken} {att : Attempt}
    {now : Time} (hop : f.storeCall? ev = some (.complete i token att now)) (id : TaskID) :
    ((Postgres.step f.store ch (.complete i token att now)).1.view id).Finished
      (log ++ (Op.completion? (.complete i token att now)
        (Postgres.step f.store ch (.complete i token att now)).2).toList) id := by
  by_cases hdone : (Postgres.step f.store ch (.complete i token att now)).2 = .done
  · rw [Op.completion?, if_pos hdone, Option.toList_some]
    refine finished_change (step_change f.store ch id _)
      (fun r hr => KeyedTable.key_of_find? hr) (h.home id) (h.finished id) ?_ (by simp) ?_
    · rintro ⟨c, hc⟩
      rw [lastCompletion_concat, hc]
      split
      · exact ⟨now, rfl⟩
      · exact ⟨c, rfl⟩
    · intro token' att' now' heq
      cases heq
      refine ⟨h.finishedAt_of_call hop, now, ?_⟩
      rw [lastCompletion_concat, if_pos rfl]
  · have hsame : (Postgres.step f.store ch (.complete i token att now)).1 = f.store :=
      complete_refused hdone
    rw [Op.completion?, if_neg hdone, hsame, Option.toList_none, List.append_nil]
    exact h.finished id

theorem step_finished (h : Kept log f) (hev : ev.SubmitsUnfinished) (id : TaskID) :
    ((PgFleet.step f (ev, ch)).1.store.view id).Finished
      (log ++ (f.completion? ev (PgFleet.step f (ev, ch)).2).toList) id := by
  rw [PgFleet.step_go]
  refine Fleet.stepWith_completions
    (P := fun log (db : Database) => (db.view id).Finished log id) (h.finished id) ?_
  intro op hop
  have hnew : ∀ task, op = .enqueue task → task.status ≠ .succeeded := by
    rintro task rfl
    obtain rfl := Fleet.storeCall?_enqueue hop
    exact hev
  cases op with
  | complete i token att now => exact h.finished_complete hop id
  | enqueue | claimDue | extendLease | reschedule | deadLetter | redrive | purge
  | purgeSucceeded =>
    simp only [Op.completion?, Option.toList_none, List.append_nil]
    exact finished_change (step_change f.store ch id _)
      (fun r hr => KeyedTable.key_of_find? hr) (h.home id) (h.finished id) (fun hc => hc) hnew
      (by simp)

theorem step (h : Kept log f) (hev : ev.SubmitsUnfinished) :
    Kept (log ++ (f.completion? ev (PgFleet.step f (ev, ch)).2).toList)
      (PgFleet.step f (ev, ch)).1 where
  home := by
    intro id
    rw [PgFleet.step_go, Fleet.stepWith_store]
    split
    · exact home_step (h.home id) ch _
    · exact h.home id
  finished := h.step_finished hev
  timed := by
    rw [PgFleet.step_go, Fleet.stepWith_runs]
    apply Fleet.forall_nextRuns
    · intro w c att hatt
      cases hatt
    · exact timed_route
    · exact timed_invoke
    · exact timed_finish
    · intro run hrun att hatt
      unfold Run.write at hatt
      split at hatt
      · cases hatt
      · exact hrun att hatt
    · intro run _ att hatt
      cases hatt
    · exact h.timed

end Kept

/-- The completions of the run over a list of events. -/
def completions (xs : List (GoEvent ε × Choice)) :
    List (TaskID × Time) :=
  Fleet.completions Prod.fst (trace PgFleet.step PgFleet.new xs)

theorem kept_after {xs : List (GoEvent ε × Choice)}
    (hxs : ∀ x ∈ xs, x.1.SubmitsUnfinished) :
    Kept (completions xs) (PgFleet.after xs) := by
  refine trace_invariant (P := fun tr f => Kept (Fleet.completions Prod.fst tr) f) ?_ ?_
    (allSteps_of_forall hxs PgFleet.new)
  · refine ⟨fun id => Or.inl rfl, ?_, ?_⟩
    · intro id r hr
      cases hr
    · intro run hrun
      cases hrun
  · rintro tr f ⟨ev, ch⟩ h hev
    rw [Fleet.completions_concat]
    exact h.step hev

/-- The cut-off, as the database has it, lies between the newest time a worker has reported for
a task and the time at which the task was completed. -/
def Parts (olderThan newest committed : Time) : Prop :=
  (newest < timestamptz olderThan ∧ olderThan ≤ committed) ∨
    (timestamptz olderThan ≤ newest ∧ committed < olderThan)

/-- Whether one row is removed rightly. -/
theorem isExpired_eq_iff {db : Database} {log : List (TaskID × Time)} {r : TaskRow}
    {queue : String} {olderThan newest committed : Time} (hqueue : r.queue = queue)
    (hdone : r.status = .succeeded) (hnewest : Newest db r.id newest)
    (hcommitted : lastCompletion log r.id = some committed) :
    db.isExpired queue (timestamptz olderThan) r =
        completedBefore log queue olderThan r.queue r.status r.id ↔
      ¬Parts olderThan newest committed := by
  simp only [Database.isExpired, completedBefore, hqueue, hdone, hcommitted, decide_true,
    Bool.and_true, Bool.true_and, Option.any_some, completedAt_of_newest hnewest, Parts]
  rw [Bool.eq_iff_iff, decide_eq_true_eq, decide_eq_true_eq]
  constructor
  · rintro h (⟨hnew, hold⟩ | ⟨hnew, hold⟩)
    · exact absurd (h.mp hnew) (not_lt.mpr hold)
    · exact absurd (h.mpr hold) (not_lt.mpr hnew)
  · intro h
    constructor
    · intro hnew
      by_contra hold
      exact h (Or.inl ⟨hnew, not_lt.mp hold⟩)
    · intro hold
      by_contra hnew
      exact h (Or.inr ⟨not_lt.mp hnew, hold⟩)

/-- After every run of Go workers, a sweep of Postgres removes exactly the tasks that were
completed before the cut-off, and their attempts, if and only if the cut-off parts no succeeded
task's newest reported time from its completion. The sweep of the memstore always does. -/
theorem retention_follows_completion_iff
    (xs : List (GoEvent ε × Choice)) (queue : String) (olderThan : Time)
    (hxs : ∀ x ∈ xs, x.1.SubmitsUnfinished) :
    ((PgFleet.after xs).store.purgeSucceeded queue (timestamptz olderThan) =
        (PgFleet.after xs).store.removeTasks (fun r =>
          completedBefore (completions xs) queue olderThan r.queue
            r.status r.id) ↔
      ∀ r ∈ (PgFleet.after xs).store.task.rows, r.queue = queue → r.status = .succeeded →
        ∀ newest committed, Newest (PgFleet.after xs).store r.id newest →
          lastCompletion (completions xs) r.id = some committed →
          ¬Parts olderThan newest committed) ∧
    ∀ evs : List (GoEvent ε), (∀ ev ∈ evs, ev.SubmitsUnfinished) →
      (MemFleet.after evs).store.purgeSucceeded queue olderThan =
        MemFleet.removeTasks (MemFleet.after evs).store fun r =>
          completedBefore (MemFleet.completions evs) queue
            olderThan r.env.queue r.env.status r.id := by
  have hkept := kept_after hxs
  refine ⟨?_, fun evs hevs => MemFleet.purgeSucceeded_completed hevs queue olderThan⟩
  rw [purgeSucceeded_eq_removeTasks, removeTasks_eq_iff]
  constructor
  · intro h r hr hqueue hdone newest committed hnewest hcommitted
    exact (isExpired_eq_iff hqueue hdone hnewest hcommitted).mp (h r hr)
  · intro h r hr
    by_cases hmine : r.queue = queue ∧ r.status = .succeeded
    · obtain ⟨hqueue, hdone⟩ := hmine
      obtain ⟨⟨committed, hcommitted⟩, ha⟩ :=
        hkept.finished r.id r (KeyedTable.find?_key_of_mem hr) hdone
      obtain ⟨newest, hnewest⟩ := exists_newest ha
      exact (isExpired_eq_iff hqueue hdone hnewest hcommitted).mpr
        (h r hr hqueue hdone newest committed hnewest hcommitted)
    · rcases not_and_or.mp hmine with hno | hno
      · simp [Database.isExpired, completedBefore, hno]
      · simp [Database.isExpired, completedBefore, hno]

end Fleet

/-- The clock of the worker is an hour behind that of the database. -/
def lateClockRun : List (GoEvent ErrorString × Choice) :=
  let choose (token : ClaimToken) : Choice := ⟨["t"], fun _ => token⟩
  [(.enqueue (.submitted "t" "q" "h" 3600000000000), choose ""),
    (.poll oneShotWorker 1 3600000000000, choose "u1"), (.route 0 0, choose ""),
    (.invoke 0 0, choose ""), (.finish 0 1000000000 (none, 0), choose ""),
    (.write 0 3601000000000, choose "")]

/-- Both clocks are before a cut-off of two hours. -/
theorem retention_follows_completion_two_hours :
    (PgFleet.after lateClockRun).store.purgeSucceeded "q" (timestamptz 7200000000000) =
      (PgFleet.after lateClockRun).store.removeTasks fun r =>
        completedBefore (completions lateClockRun) "q" 7200000000000 r.queue r.status r.id := by
  have hxs : ∀ x ∈ lateClockRun, x.1.SubmitsUnfinished := by
    simp [lateClockRun, Event.SubmitsUnfinished, Envelope.submitted]
  have hrows : ∀ r ∈ (PgFleet.after lateClockRun).store.task.rows, r.id = "t" := by decide
  have hlast : lastCompletion (completions lateClockRun) "t" = some 3601000000000 := by decide
  apply ((retention_follows_completion_iff lateClockRun "q" 7200000000000 hxs).1).mpr
  intro r hr _ _ newest committed hnewest hcommitted
  rw [hrows r hr] at hnewest hcommitted
  obtain rfl := Option.some.inj (hlast.symm.trans hcommitted)
  have hmax : ((PgFleet.after lateClockRun).store.attemptsOf "t").filterMap
      AttemptRow.finishedAt = [1000000000] := by decide
  rw [newest_iff_max?, hmax] at hnewest
  obtain rfl := Option.some.inj hnewest
  unfold Parts
  decide

/-- A task is swept although it was completed a second after the cut-off. -/
theorem swept_after_cut_off :
    lastCompletion (completions lateClockRun) "t" = some 3601000000000 ∧
      (PgFleet.after lateClockRun).store.purgeSucceeded "q" (timestamptz 3600000000000) ≠
        (PgFleet.after lateClockRun).store.removeTasks fun r =>
          completedBefore (completions lateClockRun) "q" 3600000000000 r.queue r.status r.id := by
  refine ⟨by decide, ?_⟩
  intro h
  have hone : ((PgFleet.after lateClockRun).store.purgeSucceeded "q"
      (timestamptz 3600000000000)).2 = 1 := by decide
  have hzero : ((PgFleet.after lateClockRun).store.removeTasks fun r =>
      completedBefore (completions lateClockRun) "q" 3600000000000 r.queue r.status r.id).2 =
        0 := by
    decide
  rw [h, hzero] at hone
  cases hone

end Rdq.Postgres
