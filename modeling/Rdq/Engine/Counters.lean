import Mathlib.Data.List.Count
import Rdq.Engine.MemFleet

/-!
# The event counters

`core/engine/worker.go` with `core/metrics/metrics.go`: after its outcome call a Go worker
increments one counter of its queue, whatever the store answered. `emits` says which
counter an event of the fleet increments, `accepts` which one it should increment: that of
an outcome call the store accepted.

Both lists are taken from the trace of a run. They agree on every counter exactly if every
counted call is made by the holder of its task.
-/

namespace Rdq.Engine

open Foundation MemStore

/-- The counters of `metrics.Recorder` that count outcomes. -/
inductive Counter
  | retry
  | successAfterRetry
  | dlqArrival
deriving DecidableEq, Repr

/-- The counter `Worker.process` and `Worker.deadLetter` increment after a call. -/
def OutcomeCall.counter? (task : Envelope) : OutcomeCall → Option Counter
  | .complete _ => if 0 < task.attemptCount then some .successAfterRetry else none
  | .reschedule _ _ => some .retry
  | .deadLetter _ => some .dlqArrival

/-- The call a run is about to make, if it has decided on one that counts. -/
def Run.counter? {W : Type} (r : Run W) : Option Counter :=
  match r.phase with
  | .writing call => call.counter? r.claim.task
  | _ => none

section Lists
variable {α β : Type} [BEq β] [LawfulBEq β] {f g : α → Option β}

omit [LawfulBEq β] in
theorem count_filterMap_le {l : List α} (hgf : ∀ a ∈ l, ∀ b, g a = some b → f a = some b) (b : β) :
    (l.filterMap g).count b ≤ (l.filterMap f).count b := by
  induction l with
  | nil => rfl
  | cons a l ih =>
    obtain ⟨ha, hl⟩ := List.forall_mem_cons.mp hgf
    have ih := ih hl
    cases hg : g a with
    | none =>
      rw [List.filterMap_cons_none hg]
      cases hf : f a with
      | none => rwa [List.filterMap_cons_none hf]
      | some c =>
        rw [List.filterMap_cons_some hf]
        exact ih.trans List.count_le_count_cons
    | some c =>
      rw [List.filterMap_cons_some hg, List.filterMap_cons_some (ha c hg), List.count_cons,
        List.count_cons]
      omega

/-- A part of the events has the counts of all of them only if it is all of them. -/
theorem count_filterMap_eq_iff {l : List α} (hgf : ∀ a ∈ l, ∀ b, g a = some b → f a = some b) :
    (∀ b, (l.filterMap f).count b = (l.filterMap g).count b) ↔ ∀ a ∈ l, f a = g a := by
  constructor
  · intro h
    induction l with
    | nil => simp
    | cons a l ih =>
      obtain ⟨ha, hl⟩ := List.forall_mem_cons.mp hgf
      have hhead : f a = g a := by
        cases hg : g a with
        | some b => exact ha b hg
        | none =>
          cases hf : f a with
          | none => rfl
          | some b =>
            have hb := h b
            have hle := count_filterMap_le hl b
            rw [List.filterMap_cons_none hg, List.filterMap_cons_some hf,
              List.count_cons_self] at hb
            omega
      refine List.forall_mem_cons.mpr ⟨hhead, ih hl fun b => ?_⟩
      have hb := h b
      cases hg : g a with
      | none => rwa [List.filterMap_cons_none hg, List.filterMap_cons_none (hhead.trans hg)] at hb
      | some c =>
        rw [List.filterMap_cons_some hg, List.filterMap_cons_some (hhead.trans hg),
          List.count_cons, List.count_cons] at hb
        omega
  · intro h b
    rw [List.filterMap_congr h]

end Lists

section Fleet
variable {ε σ : Type}

/-- The counter, with its queue label, that an event increments. -/
def emits (f : Fleet σ (Worker ε)) : GoEvent ε → Option (String × Counter)
  | .write i _ =>
    f.runs[i]?.bind fun r => r.counter?.map fun k => (r.worker.spec.queue, k)
  | _ => none

/-- The outcome call of an event that the store accepted, as the counter of its kind and
the queue of its task. -/
def accepts (f : Fleet σ (Worker ε)) (note : Note) :
    GoEvent ε → Option (String × Counter)
  | .write i _ =>
    if note = .answered .done then
      f.runs[i]?.bind fun r => r.counter?.map fun k => (r.claim.task.queue, k)
    else none
  | _ => none

end Fleet

namespace MemFleet
variable {ε : Type} [HandlerError ε]

/-- The counters incremented in a run of the fleet on an empty store, in order. -/
def emitted (evs : List (GoEvent ε)) : List (String × Counter) :=
  (trace step new evs).filterMap fun e => emits e.pre e.input

/-- The accepted outcome calls of a run. -/
def accepted (evs : List (GoEvent ε)) : List (String × Counter) :=
  (trace step new evs).filterMap fun e => accepts e.pre e.output e.input

/-- Every counter of every queue shows the number of accepted calls. -/
def CountersAgree (evs : List (GoEvent ε)) : Prop :=
  ∀ queue k, (emitted evs).count (queue, k) = (accepted evs).count (queue, k)

/-- A run that makes a counted call holds its task. -/
def Held (f : MemFleet (Worker ε)) (ev : GoEvent ε) : Prop :=
  ∀ i now r, ev = .write i now → f.runs[i]? = some r → r.counter?.isSome = true →
    Live f.store r.claim.task.id r.claim.token

/-- Every run works on a task of its worker's queue. -/
def OwnQueue (f : MemFleet (Worker ε)) : Prop :=
  ∀ (i : Nat) (r : Run (Worker ε)), f.runs[i]? = some r →
    r.claim.task.queue = r.worker.spec.queue

omit [HandlerError ε] in
theorem ownQueue_new : OwnQueue (new : MemFleet (Worker ε)) := by
  intro i r hr
  cases hr

theorem OwnQueue.step {f : MemFleet (Worker ε)} (h : f.OwnQueue)
    (ev : GoEvent ε) : OwnQueue (f.step ev).1 := by
  intro i r hr
  rcases f.run_origin _ ev hr with ⟨r₀, hr₀, hcont⟩ | ⟨w, limit, now, c, rfl, -, hc, rfl⟩
  · rw [hcont.claim, hcont.worker]
    exact h i r₀ hr₀
  · obtain ⟨r, queue, limit', lease, now', hop, -, hqueue, -, htask, -⟩ :=
      step_granted (List.mem_of_getElem? hc)
    cases hop
    have hclaim : (r.claim now (WorkerCode.lease w) c.token).env.queue = r.env.queue := by
      simp only [Record.claim]
      split <;> rfl
    calc c.task.queue = r.env.queue := by rw [htask, hclaim]
      _ = w.spec.queue := hqueue

/-- Every step of a run starts from a fleet in which each run works on its own queue. -/
theorem ownQueue_of_mem_trace {evs : List (GoEvent ε)}
    {e : Entry (MemFleet (Worker ε)) (GoEvent ε) Note}
    (he : e ∈ trace step new evs) : e.pre.OwnQueue := by
  have hall : AllSteps (step (W := Worker ε)) (fun _ _ => True) new evs :=
    allSteps_of_forall (fun _ _ => trivial) new
  have hinv := trace_invariant (P := fun tr f => OwnQueue f ∧ ∀ e ∈ tr, e.pre.OwnQueue)
    ⟨ownQueue_new, by simp⟩ ?_ hall
  · exact hinv.2 e he
  · rintro tr f ev ⟨hf, htr⟩ -
    refine ⟨hf.step ev, ?_⟩
    intro e he
    rcases List.mem_append.mp he with he | he
    · exact htr e he
    · rw [List.mem_singleton.mp he]
      exact hf

/-- A counted call is an outcome call of the store under the claim of its run. -/
theorem output_of_counter {f : MemFleet (Worker ε)} {i : Nat} {r : Run (Worker ε)}
    (hr : f.runs[i]? = some r) (hk : r.counter?.isSome = true) (now : Time) :
    (f.step (.write i now)).2 = .answered .done ↔ Live f.store r.claim.task.id r.claim.token := by
  obtain ⟨w, claim, phase⟩ := r
  cases phase with
  | writing call =>
    have hop : f.storeCall? (Event.write i now : GoEvent ε) =
        some (call.op claim.task.id claim.token now) := by
      simp only [Fleet.storeCall?, hr, Option.bind_some, Run.outcomeCall?]
    simp only [step, Fleet.stepWith, hop, Note.answered.injEq]
    constructor
    · exact live_of_step_done (Op.fenced?_of_outcome? (OutcomeCall.outcome?_op _ _ _ _))
    · exact step_done_of_live (OutcomeCall.outcome?_op _ _ _ _)
  | claimed | routed | running | ended => cases hk

omit [HandlerError ε] in
/-- What an accepted call counts was counted by its worker. -/
theorem emits_of_accepts {f : MemFleet (Worker ε)} (hf : f.OwnQueue) {note : Note}
    {ev : GoEvent ε} {x : String × Counter}
    (h : accepts f note ev = some x) : emits f ev = some x := by
  cases ev with
  | write i now =>
    simp only [accepts] at h
    split_ifs at h
    obtain ⟨r, hr, hx⟩ := Option.bind_eq_some_iff.mp h
    rw [hf i r hr] at hx
    simp only [emits, hr, Option.bind_some, hx]
  | enqueue | redrive | purge | purgeSucceeded | poll | route | invoke | finish | heartbeat
  | stop => cases h

/-- An event counts what the store accepted exactly if its run holds the task. -/
theorem emits_eq_accepts_iff {f : MemFleet (Worker ε)} (hf : f.OwnQueue)
    (ev : GoEvent ε) :
    emits f ev = accepts f (f.step ev).2 ev ↔ f.Held ev := by
  cases ev with
  | write i now =>
    constructor
    · rintro h _ _ r ⟨⟩ hr hk
      apply (output_of_counter hr hk now).mp
      by_contra hrefused
      obtain ⟨k, hk⟩ := Option.isSome_iff_exists.mp hk
      simp only [accepts, if_neg hrefused, emits, hr, hk, Option.bind_some,
        Option.map_some] at h
      cases h
    · intro h
      cases hr : f.runs[i]? with
      | none => simp [emits, accepts, hr]
      | some r =>
        cases hk : r.counter? with
        | none => simp [emits, accepts, hr, hk]
        | some k =>
          have hdone := (output_of_counter hr (by simp [hk]) now).mpr
            (h i now r rfl hr (by simp [hk]))
          simp only [emits, accepts, if_pos hdone, hr, hk, Option.bind_some,
            Option.map_some, hf i r hr]
  | enqueue | redrive | purge | purgeSucceeded | poll | route | invoke | finish | heartbeat
  | stop =>
    exact iff_of_true rfl fun _ _ _ h => by cases h

/-- In a run every counter shows the accepted calls exactly if each counted call was made
by the holder of its task. -/
theorem counters_agree_iff (evs : List (GoEvent ε)) :
    CountersAgree evs ↔ AllSteps step Held new evs := by
  have hsub : ∀ e ∈ trace (step (W := Worker ε)) new evs, ∀ x,
      accepts e.pre e.output e.input = some x → emits e.pre e.input = some x :=
    fun e he x hx => emits_of_accepts (ownQueue_of_mem_trace he) hx
  calc CountersAgree evs
      ↔ ∀ x, (emitted evs).count x = (accepted evs).count x :=
        ⟨fun h x => h x.1 x.2, fun h queue k => h (queue, k)⟩
    _ ↔ ∀ e ∈ trace step new evs, emits e.pre e.input = accepts e.pre e.output e.input :=
        count_filterMap_eq_iff hsub
    _ ↔ ∀ e ∈ trace step new evs, e.pre.Held e.input := by
        apply forall₂_congr
        intro e he
        rw [← emits_eq_accepts_iff (ownQueue_of_mem_trace he), entry_of_mem_trace he]
        rfl
    _ ↔ AllSteps step Held new evs := allSteps_iff_trace.symm

/-- A worker loses its lease while its handler runs, and makes its dead-letter call after
another run has claimed the task. -/
def lostLease : List (GoEvent ErrorString) :=
  [.enqueue (.submitted "t" "q" "h" 0), .poll oneShotWorker 1 0, .route 0 0,
    .invoke 0 0, .poll oneShotWorker 1 20, .finish 0 21 (some ⟨"timeout"⟩, 0), .write 0 22]

/-- The refused call is counted as an arrival. -/
theorem refused_call_counted : ¬ CountersAgree lostLease := by
  intro h
  have hcount := h "q" .dlqArrival
  have hemitted : (emitted lostLease).count ("q", .dlqArrival) = 1 := by decide
  have haccepted : (accepted lostLease).count ("q", .dlqArrival) = 0 := by decide
  omega

end MemFleet

end Rdq.Engine
