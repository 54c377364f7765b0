import Rdq.Engine.Poll
import Rdq.Engine.Registry

/-!
# The loops of a worker

`core/engine/worker.go`: `Run`, its claim loops (`runQueue`) and its sweeper
(`runSweeper`), and the drain after the context is cancelled. The goroutines of a worker
take their steps in any order; an event that is not the next one of its goroutine does
nothing. What one step of a queue can be is said once, with what it does to the wait
groups.

## Implementation notes

The clock only moves forward. The tickers and the sweep timer may fire at any time, since
no bound on their intervals is used. A `select` with two ready cases may take either. Of
what a goroutine of `process` does, only its slot and its place in the wait group count.
-/

namespace Rdq.Engine

open Foundation

/-! ## One queue -/

/-- What the loops read of a queue spec. -/
structure LoopSpec where
  queue : String
  lease : Duration
  ttlSucceeded : Duration
  poll : PollSpec

/-- Where `runQueue` stands. -/
inductive LoopPhase
  /-- In front of the check of the context. -/
  | top
  /-- In front of `pollOnce`. -/
  | entering
  | polling
  /-- In the `select`. -/
  | waiting
  | exited
deriving DecidableEq, Repr

/-- A queue of a running worker, and which of its goroutines have called `Done`. -/
structure QueueLoop (τ : Type) where
  queue : String
  lease : Duration
  ttlSucceeded : Duration
  loop : LoopPhase
  poll : PollState τ
  ended : List Nat

inductive QueueEvent (τ : Type)
  /-- `ctx.Err()` at the top of the loop. -/
  | check
  | enter
  | allow
  | claim (result : Option (List τ))
  | send
  | tick
  /-- `<-ctx.Done()` in the `select`. -/
  | done
  | begin (i : Nat) (routed : Bool)
  | handlerEnds (i : Nat) (panicked : Bool)
  | release (i : Nat)
  /-- `handlers.Done()` of a goroutine. -/
  | finish (i : Nat)

inductive LoopEffect (τ : Type)
  /-- It is not the turn of the event. -/
  | idle
  | moved
  | claimed (tasks : List τ)
  | dispatched (task : τ)
  | exited
  | ended
  | blocked

variable {τ : Type}

def PollPhase.isIdle : PollPhase τ → Bool
  | .idle => true
  | _ => false

def PollPhase.isGranting : PollPhase τ → Bool
  | .granting _ _ => true
  | _ => false

def PollPhase.isClaiming : PollPhase τ → Bool
  | .claiming _ => true
  | _ => false

def PollPhase.isSending : PollPhase τ → Bool
  | .sending _ => true
  | _ => false

def LoopEffect.ofPoll : PollEffect τ → LoopEffect τ
  | .quiet => .moved
  | .claimed tasks => .claimed tasks
  | .dispatched task => .dispatched task
  | .blocked => .blocked

namespace QueueLoop

/-- A step of `pollOnce`; when it was the last one, the loop goes on to its `select`. -/
def inPoll (q : QueueLoop τ) (e : PollEvent τ) : QueueLoop τ × LoopEffect τ :=
  let r := q.poll.step e
  ({ q with poll := r.1, loop := if r.1.phase.isIdle then .waiting else .polling },
    .ofPoll r.2)

/-- A step of a goroutine of `process`. -/
def inProcess (q : QueueLoop τ) (e : PollEvent τ) : QueueLoop τ × LoopEffect τ :=
  let r := q.poll.step e
  ({ q with poll := r.1 }, .ofPoll r.2)

def step (cancelled : Bool) (clock : Time) (q : QueueLoop τ) :
    QueueEvent τ → QueueLoop τ × LoopEffect τ
  | .check =>
    if q.loop = .top then
      if cancelled then ({ q with loop := .exited }, .exited)
      else ({ q with loop := .entering }, .moved)
    else (q, .idle)
  | .enter => if q.loop = .entering then q.inPoll (.poll cancelled) else (q, .idle)
  | .allow =>
    if q.loop = .polling ∧ q.poll.phase.isGranting then q.inPoll (.allow clock) else (q, .idle)
  | .claim result =>
    if q.loop = .polling ∧ q.poll.phase.isClaiming then q.inPoll (.claim result) else (q, .idle)
  | .send => if q.loop = .polling ∧ q.poll.phase.isSending then q.inPoll .send else (q, .idle)
  | .tick => if q.loop = .waiting then ({ q with loop := .top }, .moved) else (q, .idle)
  | .done =>
    if q.loop = .waiting ∧ cancelled then ({ q with loop := .exited }, .exited) else (q, .idle)
  | .begin i routed => q.inProcess (.begin i routed)
  | .handlerEnds i panicked => q.inProcess (.handlerEnds i panicked)
  | .release i => q.inProcess (.release i)
  | .finish i =>
    if (q.poll.processes[i]?.any fun p => p.2 = .released) ∧ i ∉ q.ended then
      ({ q with ended := i :: q.ended }, .ended)
    else (q, .idle)

end QueueLoop

/-- The queue as `NewWorker` sets it up. -/
def newQueueLoop (unicodePrint : Char → Bool) (now : Time) (spec : LoopSpec) :
    Except String (QueueLoop τ) :=
  if spec.queue = "" then .error "engine: queue spec with empty name"
  else if spec.lease ≤ 0 then
    .error ("engine: queue " ++ quote unicodePrint spec.queue ++ " has a non-positive lease")
  else
    .ok
      { queue := spec.queue
        lease := spec.lease
        ttlSucceeded := spec.ttlSucceeded
        loop := .top
        poll := newPollState spec.poll now
        ended := [] }

/-! ## The worker -/

/-- Where `runSweeper` stands; a sweep knows the calls it has still to make. -/
inductive SweepPhase
  | starting
  | waiting
  | sweeping (calls : List (String × Time))
  | exited
deriving DecidableEq, Repr

/-- Where `Run` itself stands. -/
inductive MainPhase
  /-- In front of `<-ctx.Done()`. -/
  | running
  /-- In `loops.Wait()`. -/
  | joining
  /-- In `drainHandlers`, whose timer fires at the deadline. -/
  | draining (deadline : Time)
  | returned (time : Time)
deriving DecidableEq, Repr

/-- A worker in `Run`: its loops with their sizes in the wait groups, and its own place. -/
structure RunState (τ : Type) where
  clock : Time
  cancelled : Bool
  queues : List (QueueLoop τ)
  sweepInterval : Duration
  sweeper : SweepPhase
  drainTimeout : Duration
  main : MainPhase
  loops : Nat
  handlers : Nat
  /-- The `done` channel of `drainHandlers` is closed. -/
  closed : Bool

inductive RunEvent (τ : Type)
  /-- The context is cancelled. -/
  | cancel
  /-- The clock moves on. -/
  | pass (d : Nat)
  | queue (i : Nat) (e : QueueEvent τ)
  | sweepStart
  | sweepTimer
  | sweepCall
  | sweepDone
  /-- `<-ctx.Done()` of `Run`. -/
  | mainDone
  /-- `loops.Wait()` returns. -/
  | joined
  /-- `handlers.Wait()` returns and `done` is closed. -/
  | waited
  /-- `<-done`. -/
  | drained
  | drainTimer

inductive RunEffect (τ : Type)
  | idle
  | moved
  | queue (i : Nat) (eff : LoopEffect τ)
  /-- `PurgeSucceeded` of the sweeper. -/
  | purged (queue : String) (olderThan : Time)
  | returned
  /-- The counter of a wait group would drop below zero. -/
  | negative

def defaultSweepInterval : Duration := 30 * 1000000000

/-- The drain timeout: the longest lease. -/
def drainTimeoutOf (leases : List Duration) : Duration :=
  let longest := leases.foldl (fun d lease => if d < lease then lease else d) 0
  if longest ≤ 0 then defaultSweepInterval else longest

/-- `NewWorker`, and `Run` after its `go` statements. -/
def newRun (unicodePrint : Char → Bool) (specs : List LoopSpec) (sweepInterval : Duration)
    (now : Time) : Except String (RunState τ) := do
  let queues ← specs.mapM (newQueueLoop unicodePrint now)
  return {
    clock := now
    cancelled := false
    queues := queues
    sweepInterval := sweepInterval
    sweeper := .starting
    drainTimeout := drainTimeoutOf (queues.map QueueLoop.lease)
    main := .running
    loops := queues.length + 1
    handlers := 0
    closed := false }

namespace RunState

/-- `loops.Done()`. -/
def loopsDone (s : RunState τ) (eff : RunEffect τ) : RunState τ × RunEffect τ :=
  if s.loops = 0 then (s, .negative) else ({ s with loops := s.loops - 1 }, eff)

/-- `handlers.Done()`. -/
def handlersDone (s : RunState τ) (eff : RunEffect τ) : RunState τ × RunEffect τ :=
  if s.handlers = 0 then (s, .negative) else ({ s with handlers := s.handlers - 1 }, eff)

/-- What a step of a queue does to the wait groups. -/
def count (s : RunState τ) (i : Nat) : LoopEffect τ → RunState τ × RunEffect τ
  | .exited => s.loopsDone (.queue i .exited)
  | .dispatched task => ({ s with handlers := s.handlers + 1 }, .queue i (.dispatched task))
  | .ended => s.handlersDone (.queue i .ended)
  | eff => (s, .queue i eff)

def queueStep (s : RunState τ) (i : Nat) (e : QueueEvent τ) : RunState τ × RunEffect τ :=
  match s.queues[i]? with
  | none => (s, .idle)
  | some q =>
    let r := q.step s.cancelled s.clock e
    { s with queues := s.queues.set i r.1 }.count i r.2

/-- The calls of `sweepOnce`. -/
def sweepCalls (s : RunState τ) : List (String × Time) :=
  (s.queues.filter fun q => decide (0 < q.ttlSucceeded)).map fun q =>
    (q.queue, s.clock - q.ttlSucceeded)

def afterSweep (calls : List (String × Time)) : SweepPhase :=
  if calls.isEmpty then .waiting else .sweeping calls

def step (s : RunState τ) : RunEvent τ → RunState τ × RunEffect τ
  | .cancel => ({ s with cancelled := true }, .moved)
  | .pass d => ({ s with clock := s.clock + d }, .moved)
  | .queue i e => s.queueStep i e
  | .sweepStart =>
    if s.sweeper = .starting then
      if s.sweepInterval ≤ 0 then { s with sweeper := .exited }.loopsDone .moved
      else ({ s with sweeper := .waiting }, .moved)
    else (s, .idle)
  | .sweepTimer =>
    if s.sweeper = .waiting then ({ s with sweeper := afterSweep s.sweepCalls }, .moved)
    else (s, .idle)
  | .sweepCall =>
    match s.sweeper with
    | .sweeping ((queue, olderThan) :: calls) =>
      ({ s with sweeper := afterSweep calls }, .purged queue olderThan)
    | _ => (s, .idle)
  | .sweepDone =>
    if s.sweeper = .waiting ∧ s.cancelled then { s with sweeper := .exited }.loopsDone .moved
    else (s, .idle)
  | .mainDone =>
    if s.main = .running ∧ s.cancelled then ({ s with main := .joining }, .moved)
    else (s, .idle)
  | .joined =>
    if s.main = .joining ∧ s.loops = 0 then
      ({ s with main := .draining (s.clock + s.drainTimeout) }, .moved)
    else (s, .idle)
  | .waited =>
    match s.main with
    | .draining _ =>
      if s.handlers = 0 ∧ s.closed = false then ({ s with closed := true }, .moved)
      else (s, .idle)
    | _ => (s, .idle)
  | .drained =>
    match s.main with
    | .draining _ =>
      if s.closed then ({ s with main := .returned s.clock }, .returned) else (s, .idle)
    | _ => (s, .idle)
  | .drainTimer =>
    match s.main with
    | .draining deadline =>
      if deadline ≤ s.clock then ({ s with main := .returned s.clock }, .returned)
      else (s, .idle)
    | _ => (s, .idle)

end RunState

/-! ## What a step of a queue can be -/

/-- The event is one of a goroutine of `process`. -/
def PollEvent.isProcess : PollEvent τ → Bool
  | .begin _ _ | .handlerEnds _ _ | .release _ => true
  | _ => false

/-- The event is one of the claim loop. -/
def QueueEvent.isOwn : QueueEvent τ → Bool
  | .begin _ _ | .handlerEnds _ _ | .release _ | .finish _ => false
  | _ => true

namespace PollState
variable {s : PollState τ}

theorem phase_process {e : PollEvent τ} (h : e.isProcess = true) :
    (s.step e).1.phase = s.phase := by
  have hadvance : ∀ i source target, (s.advance i source target).phase = s.phase := by
    intro i source target
    unfold advance
    split
    · split <;> rfl
    · rfl
  cases e with
  | begin i routed => exact hadvance i _ _
  | handlerEnds i panicked => exact hadvance i _ _
  | release i =>
    change (s.release i).1.phase = s.phase
    unfold release
    split
    · split <;> rfl
    · rfl
  | poll | allow | claim | send => cases h

theorem processes_poll (s : PollState τ) (cancelled : Bool) :
    (s.poll cancelled).processes = s.processes := by
  unfold poll
  split
  · dsimp only
    split <;> rfl
  · rfl

theorem processes_allow (s : PollState τ) (now : Time) : (s.allow now).processes = s.processes := by
  unfold allow
  split <;> rfl

theorem processes_claim (s : PollState τ) (result : Option (List τ)) :
    (s.claim result).1.processes = s.processes := by
  unfold claim
  split <;> rfl

/-- A goroutine that has ended stays so. -/
theorem released_step {i : Nat} {task : τ} (h : s.processes[i]? = some (task, .released))
    (e : PollEvent τ) : (s.step e).1.processes[i]? = some (task, .released) := by
  have hadvance : ∀ j source target, source ≠ .released →
      (s.advance j source target).processes[i]? = some (task, .released) := by
    intro j source target hsource
    unfold advance
    split
    · rename_i task' stage hget
      split
      · rename_i hstage
        rw [List.getElem?_set_ne, h]
        rintro rfl
        cases hget.symm.trans h
        exact hsource hstage.symm
      · exact h
    · exact h
  cases e with
  | poll cancelled => exact (congrArg (·[i]?) (processes_poll s cancelled)).trans h
  | allow now => exact (congrArg (·[i]?) (processes_allow s now)).trans h
  | claim result => exact (congrArg (·[i]?) (processes_claim s result)).trans h
  | send =>
    change s.send.1.processes[i]? = _
    obtain ⟨hi, -⟩ := List.getElem?_eq_some_iff.mp h
    unfold send
    split
    · split
      · rw [List.getElem?_append_left hi, h]
      · exact h
    · exact h
  | begin j routed => exact hadvance j _ _ (fun hc => by cases hc)
  | handlerEnds j panicked => exact hadvance j _ _ (fun hc => by cases hc)
  | release j =>
    change (s.release j).1.processes[i]? = _
    unfold release
    split
    · rename_i task' hget
      split
      · exact h
      · rw [List.getElem?_set_ne, h]
        rintro rfl
        cases hget.symm.trans h
    · exact h

/-- A poll does not stay behind without a task to send. -/
theorem sending_step (h : s.phase ≠ .sending []) (e : PollEvent τ) :
    (s.step e).1.phase ≠ .sending [] := by
  have hafter : ∀ tasks : List τ, afterSend tasks ≠ .sending [] := by
    intro tasks
    cases tasks <;> exact fun hc => by cases hc
  cases e with
  | poll cancelled =>
    simp only [step, poll]
    split
    · split
      · exact h
      · exact fun hc => by cases hc
    · exact h
  | allow now =>
    simp only [step, allow, afterGrant]
    split
    · dsimp only
      split_ifs <;> exact fun hc => by cases hc
    · exact h
  | claim result =>
    simp only [step, claim]
    split
    · exact hafter _
    · exact fun hc => by cases hc
    · exact h
  | send =>
    simp only [step, send]
    split
    · split
      · exact hafter _
      · exact h
    · exact h
  | begin i routed => rw [phase_process rfl]; exact h
  | handlerEnds i panicked => rw [phase_process rfl]; exact h
  | release i => rw [phase_process rfl]; exact h

/-- Only a dispatch adds a goroutine. -/
theorem length_step (s : PollState τ) (e : PollEvent τ) :
    (s.step e).1.processes.length =
      s.processes.length + (effectDispatch (s.step e).2).length := by
  cases e with
  | poll cancelled => exact congrArg List.length (processes_poll s cancelled)
  | allow now => exact congrArg List.length (processes_allow s now)
  | claim result =>
    change (s.claim result).1.processes.length = s.processes.length +
      (effectDispatch (s.claim result).2).length
    unfold claim
    split <;> rfl
  | send =>
    change s.send.1.processes.length = s.processes.length + (effectDispatch s.send.2).length
    unfold send
    split
    · split
      · exact List.length_append
      · rfl
    · rfl
  | begin i routed | handlerEnds i panicked =>
    change (s.advance i _ _).processes.length = _
    unfold advance
    split
    · split
      · exact List.length_set
      · rfl
    · rfl
  | release i =>
    change (s.release i).1.processes.length = s.processes.length +
      (effectDispatch (s.release i).2).length
    unfold release
    split
    · split
      · rfl
      · exact List.length_set
    · rfl

end PollState

namespace QueueLoop

/-- The steps of a queue. -/
inductive Stepped (cancelled : Bool) (clock : Time) (q : QueueLoop τ) :
    QueueEvent τ → QueueLoop τ → LoopEffect τ → Prop
  | idle (e : QueueEvent τ) : Stepped cancelled clock q e q .idle
  | check (hloop : q.loop = .top) (hc : cancelled = false) :
      Stepped cancelled clock q .check { q with loop := .entering } .moved
  | leave (e : QueueEvent τ) (hloop : q.loop = .top ∧ e = .check ∨ q.loop = .waiting ∧ e = .done)
      (hc : cancelled = true) : Stepped cancelled clock q e { q with loop := .exited } .exited
  | tick (hloop : q.loop = .waiting) :
      Stepped cancelled clock q .tick { q with loop := .top } .moved
  | enter (hloop : q.loop = .entering) :
      Stepped cancelled clock q .enter (q.inPoll (.poll cancelled)).1
        (q.inPoll (.poll cancelled)).2
  | allow (hloop : q.loop = .polling) (want got : Nat)
      (hphase : q.poll.phase = .granting want got) :
      Stepped cancelled clock q .allow (q.inPoll (.allow clock)).1 (q.inPoll (.allow clock)).2
  | claim (result : Option (List τ)) (hloop : q.loop = .polling) (limit : Nat)
      (hphase : q.poll.phase = .claiming limit) :
      Stepped cancelled clock q (.claim result) (q.inPoll (.claim result)).1
        (q.inPoll (.claim result)).2
  | send (hloop : q.loop = .polling) (tasks : List τ) (hphase : q.poll.phase = .sending tasks) :
      Stepped cancelled clock q .send (q.inPoll .send).1 (q.inPoll .send).2
  | process (e : QueueEvent τ) (he : e.isOwn = false) (pe : PollEvent τ)
      (hpe : pe.isProcess = true) :
      Stepped cancelled clock q e (q.inProcess pe).1 (q.inProcess pe).2
  | finish (i : Nat) (task : τ) (hget : q.poll.processes[i]? = some (task, .released))
      (hnew : i ∉ q.ended) :
      Stepped cancelled clock q (.finish i) { q with ended := i :: q.ended } .ended

theorem stepped (cancelled : Bool) (clock : Time) (q : QueueLoop τ) (e : QueueEvent τ) :
    Stepped cancelled clock q e (q.step cancelled clock e).1 (q.step cancelled clock e).2 := by
  cases e with
  | check =>
    simp only [step]
    split
    · rename_i hloop
      split
      · rename_i hc
        exact .leave _ (Or.inl ⟨hloop, rfl⟩) hc
      · rename_i hc
        exact .check hloop (Bool.eq_false_iff.mpr hc)
    · exact .idle _
  | enter =>
    simp only [step]
    split
    · rename_i hloop
      exact .enter hloop
    · exact .idle _
  | allow =>
    simp only [step]
    split
    · rename_i h
      cases hphase : q.poll.phase with
      | granting want got => exact .allow h.1 want got hphase
      | idle | claiming | sending =>
        rw [hphase] at h
        cases h.2
    · exact .idle _
  | claim result =>
    simp only [step]
    split
    · rename_i h
      cases hphase : q.poll.phase with
      | claiming limit => exact .claim result h.1 limit hphase
      | idle | granting | sending =>
        rw [hphase] at h
        cases h.2
    · exact .idle _
  | send =>
    simp only [step]
    split
    · rename_i h
      cases hphase : q.poll.phase with
      | sending tasks => exact .send h.1 tasks hphase
      | idle | granting | claiming =>
        rw [hphase] at h
        cases h.2
    · exact .idle _
  | tick =>
    simp only [step]
    split
    · rename_i hloop
      exact .tick hloop
    · exact .idle _
  | done =>
    simp only [step]
    split
    · rename_i h
      exact .leave _ (Or.inr ⟨h.1, rfl⟩) h.2
    · exact .idle _
  | begin i routed => exact .process _ rfl (.begin i routed) rfl
  | handlerEnds i panicked => exact .process _ rfl (.handlerEnds i panicked) rfl
  | release i => exact .process _ rfl (.release i) rfl
  | finish i =>
    simp only [step]
    split
    · rename_i h
      obtain ⟨hreleased, hnew⟩ := h
      obtain ⟨⟨task, stage⟩, hget, hstage⟩ := Option.any_eq_true _ _ |>.mp hreleased
      obtain rfl : stage = .released := of_decide_eq_true hstage
      exact .finish i task hget hnew
    · exact .idle _

/-- The loop is in `pollOnce` exactly when the poll has begun and not ended; it has left
only after the cancellation; and what has called `Done` has ended before. -/
structure Sound (cancelled : Bool) (q : QueueLoop τ) : Prop where
  slotted : q.poll.Slotted
  polling_iff : q.loop = .polling ↔ q.poll.phase.isIdle = false
  sending : q.poll.phase ≠ .sending []
  cancelled : q.loop = .exited → cancelled = true
  ended_nodup : q.ended.Nodup
  ended_released : ∀ i ∈ q.ended, ∃ task, q.poll.processes[i]? = some (task, .released)

variable {cancelled : Bool} {clock : Time} {q q' : QueueLoop τ} {e : QueueEvent τ}
  {eff : LoopEffect τ}

theorem Sound.ended_lt (h : q.Sound cancelled) {i : Nat} (hi : i ∈ q.ended) :
    i < q.poll.processes.length := by
  obtain ⟨task, hget⟩ := h.ended_released i hi
  exact (List.getElem?_eq_some_iff.mp hget).1

theorem Sound.inPoll (h : q.Sound cancelled) {e : PollEvent τ} (hlimit : q.poll.ClaimLimited e) :
    (q.inPoll e).1.Sound cancelled where
  slotted := h.slotted.step hlimit
  polling_iff := by
    simp only [QueueLoop.inPoll]
    cases (q.poll.step e).1.phase.isIdle <;> simp
  sending := PollState.sending_step h.sending e
  cancelled := by
    simp only [QueueLoop.inPoll]
    split <;> exact fun hc => by cases hc
  ended_nodup := h.ended_nodup
  ended_released := by
    intro i hi
    obtain ⟨task, hget⟩ := h.ended_released i hi
    exact ⟨task, PollState.released_step hget e⟩

theorem claimLimited_process {s : PollState τ} {e : PollEvent τ}
    (he : ∀ result, e ≠ .claim result) :
    s.ClaimLimited e := fun _ _ _ hc => absurd hc (he _)

theorem Sound.inProcess (h : q.Sound cancelled) {e : PollEvent τ} (he : e.isProcess = true) :
    (q.inProcess e).1.Sound cancelled where
  slotted := h.slotted.step (claimLimited_process fun result hc => by rw [hc] at he; cases he)
  polling_iff := by
    simp only [QueueLoop.inProcess, PollState.phase_process he]
    exact h.polling_iff
  sending := PollState.sending_step h.sending e
  cancelled := h.cancelled
  ended_nodup := h.ended_nodup
  ended_released := by
    intro i hi
    obtain ⟨task, hget⟩ := h.ended_released i hi
    exact ⟨task, PollState.released_step hget e⟩

/-- A claim of the queue returns at most as many tasks as it was asked for. -/
def claimWithin (q : QueueLoop τ) : QueueEvent τ → Bool
  | .claim (some tasks) =>
    match q.poll.phase with
    | .claiming limit => decide (tasks.length ≤ limit)
    | _ => true
  | _ => true

theorem claimLimited_of_claimWithin {result : Option (List τ)}
    (h : q.claimWithin (.claim result) = true) : q.poll.ClaimLimited (.claim result) := by
  intro limit tasks hphase hevent
  cases hevent
  simp only [claimWithin, hphase] at h
  exact of_decide_eq_true h

theorem Sound.moved (h : q.Sound cancelled) {loop : LoopPhase} (hbefore : q.loop ≠ .polling)
    (hafter : loop ≠ .polling) (hexited : loop = .exited → cancelled = true) :
    { q with loop := loop }.Sound cancelled where
  slotted := h.slotted
  polling_iff := ⟨fun hc => absurd hc hafter, fun hc => absurd (h.polling_iff.mpr hc) hbefore⟩
  sending := h.sending
  cancelled := hexited
  ended_nodup := h.ended_nodup
  ended_released := h.ended_released

theorem Sound.step (h : q.Sound cancelled) (hs : Stepped cancelled clock q e q' eff)
    (hlimit : q.claimWithin e = true) : q'.Sound cancelled := by
  cases hs with
  | idle => exact h
  | check hloop =>
    exact h.moved (by rw [hloop]; exact fun hc => by cases hc) (fun hc => by cases hc)
      (fun hc => by cases hc)
  | leave _ hloop hc =>
    refine h.moved ?_ (fun hc => by cases hc) fun _ => hc
    rcases hloop with ⟨hloop, -⟩ | ⟨hloop, -⟩ <;> rw [hloop] <;> exact fun hc => by cases hc
  | tick hloop =>
    exact h.moved (by rw [hloop]; exact fun hc => by cases hc) (fun hc => by cases hc)
      (fun hc => by cases hc)
  | enter => exact h.inPoll (claimLimited_process fun _ hc => by cases hc)
  | allow => exact h.inPoll (claimLimited_process fun _ hc => by cases hc)
  | claim result => exact h.inPoll (claimLimited_of_claimWithin hlimit)
  | send => exact h.inPoll (claimLimited_process fun _ hc => by cases hc)
  | process _ _ pe hpe => exact h.inProcess hpe
  | finish i task hget hnew =>
    refine ⟨h.slotted, h.polling_iff, h.sending, h.cancelled,
      List.nodup_cons.mpr ⟨hnew, h.ended_nodup⟩, ?_⟩
    intro j hj
    rcases List.mem_cons.mp hj with rfl | hj
    · exact ⟨task, hget⟩
    · exact h.ended_released j hj

theorem Sound.cancel (h : q.Sound cancelled) : q.Sound true :=
  ⟨h.slotted, h.polling_iff, h.sending, fun _ => rfl, h.ended_nodup, h.ended_released⟩

/-- No more goroutines have called `Done` than there are. -/
theorem Sound.length_ended_le (h : q.Sound cancelled) :
    q.ended.length ≤ q.poll.processes.length := by
  have hsub : q.ended ⊆ List.range q.poll.processes.length :=
    fun i hi => List.mem_range.mpr (h.ended_lt hi)
  simpa using (List.subperm_of_subset h.ended_nodup hsub).length_le

/-- When all goroutines have called `Done`, all have ended. -/
theorem Sound.all_released (h : q.Sound cancelled)
    (hall : q.ended.length = q.poll.processes.length) :
    ∀ p ∈ q.poll.processes, p.2 = .released := by
  intro p hp
  have hsub : q.ended ⊆ List.range q.poll.processes.length :=
    fun i hi => List.mem_range.mpr (h.ended_lt hi)
  have hperm : q.ended.Perm (List.range q.poll.processes.length) :=
    (List.subperm_of_subset h.ended_nodup hsub).perm_of_length_le (by rw [List.length_range, hall])
  obtain ⟨i, hi⟩ := List.mem_iff_getElem?.mp hp
  obtain ⟨hlt, -⟩ := List.getElem?_eq_some_iff.mp hi
  obtain ⟨task, hget⟩ := h.ended_released i (hperm.mem_iff.mpr (List.mem_range.mpr hlt))
  cases hi.symm.trans hget
  rfl

end QueueLoop

/-! ## The wait groups -/

namespace LoopEffect

/-- What the step takes from `loops`. -/
def left : LoopEffect τ → Nat
  | .exited => 1
  | _ => 0

/-- What the step adds to `handlers`. -/
def added : LoopEffect τ → Nat
  | .dispatched _ => 1
  | _ => 0

/-- What the step takes from `handlers`. -/
def finished : LoopEffect τ → Nat
  | .ended => 1
  | _ => 0

def claims : LoopEffect τ → List τ
  | .claimed tasks => tasks
  | _ => []

/-- A call of `ClaimDue` that succeeded, or a handler goroutine that was started. -/
def isWork : LoopEffect τ → Bool
  | .claimed _ | .dispatched _ => true
  | _ => false

theorem added_of_not_isWork {eff : LoopEffect τ} (h : eff.isWork = false) : eff.added = 0 := by
  cases eff with
  | dispatched => cases h
  | idle | moved | claimed | exited | ended | blocked => rfl

theorem ofPoll_spec (eff : PollEffect τ) :
    (ofPoll eff).left = 0 ∧ (ofPoll eff).added = (PollState.effectDispatch eff).length ∧
      (ofPoll eff).finished = 0 ∧ (ofPoll eff).claims = PollState.effectTasks eff := by
  cases eff <;> exact ⟨rfl, rfl, rfl, rfl⟩

end LoopEffect

namespace QueueLoop

/-- A loop that has not exited counts in `loops`. -/
def isOpen (q : QueueLoop τ) : Nat := if q.loop = .exited then 0 else 1

variable {cancelled : Bool} {clock : Time} {q q' : QueueLoop τ} {e : QueueEvent τ}
  {eff : LoopEffect τ}

/-- What a step does to the numbers the wait groups keep, and to the tasks. -/
structure Counted (q q' : QueueLoop τ) (eff : LoopEffect τ) : Prop where
  lease : q'.lease = q.lease
  isOpen : q'.isOpen + eff.left = q.isOpen
  processes : q'.poll.processes.length = q.poll.processes.length + eff.added
  ended : q'.ended.length = q.ended.length + eff.finished
  tasks : q'.poll.tasks = q.poll.tasks ++ eff.claims

theorem counted_inPoll (hloop : q.loop ≠ .exited) (e : PollEvent τ) :
    Counted q (q.inPoll e).1 (q.inPoll e).2 := by
  obtain ⟨hleft, hadded, hfinished, hclaims⟩ := LoopEffect.ofPoll_spec (q.poll.step e).2
  have hafter : (q.inPoll e).1.loop ≠ .exited := by
    simp only [inPoll]
    split <;> exact fun hc => by cases hc
  refine ⟨rfl, ?_, ?_, ?_, ?_⟩
  · rw [isOpen, if_neg hafter, isOpen, if_neg hloop]
    exact congrArg (1 + ·) hleft
  · exact (q.poll.length_step e).trans (congrArg _ hadded.symm)
  · exact congrArg (q.ended.length + ·) hfinished.symm
  · exact (q.poll.tasks_step e).trans (congrArg _ hclaims.symm)

theorem counted_inProcess (e : PollEvent τ) : Counted q (q.inProcess e).1 (q.inProcess e).2 := by
  obtain ⟨hleft, hadded, hfinished, hclaims⟩ := LoopEffect.ofPoll_spec (q.poll.step e).2
  refine ⟨rfl, ?_, ?_, ?_, ?_⟩
  · exact congrArg (q.isOpen + ·) hleft
  · exact (q.poll.length_step e).trans (congrArg _ hadded.symm)
  · exact congrArg (q.ended.length + ·) hfinished.symm
  · exact (q.poll.tasks_step e).trans (congrArg _ hclaims.symm)

theorem counted_moved {loop : LoopPhase}
    (hopen : { q with loop := loop }.isOpen + eff.left = q.isOpen)
    (hadded : eff.added = 0) (hfinished : eff.finished = 0) (hclaims : eff.claims = []) :
    Counted q { q with loop := loop } eff :=
  ⟨rfl, hopen, by rw [hadded, Nat.add_zero], by rw [hfinished, Nat.add_zero],
    by rw [hclaims, List.append_nil]⟩

theorem counted (hs : Stepped cancelled clock q e q' eff) : Counted q q' eff := by
  cases hs with
  | idle => exact ⟨rfl, rfl, rfl, rfl, (List.append_nil _).symm⟩
  | check hloop => exact counted_moved (by rw [isOpen, isOpen, hloop]; rfl) rfl rfl rfl
  | leave _ hloop =>
    refine counted_moved ?_ rfl rfl rfl
    rcases hloop with ⟨hloop, -⟩ | ⟨hloop, -⟩ <;> rw [isOpen, isOpen, hloop] <;> rfl
  | tick hloop => exact counted_moved (by rw [isOpen, isOpen, hloop]; rfl) rfl rfl rfl
  | enter hloop => exact counted_inPoll (by rw [hloop]; exact fun hc => by cases hc) _
  | allow hloop => exact counted_inPoll (by rw [hloop]; exact fun hc => by cases hc) _
  | claim _ hloop => exact counted_inPoll (by rw [hloop]; exact fun hc => by cases hc) _
  | send hloop => exact counted_inPoll (by rw [hloop]; exact fun hc => by cases hc) _
  | process _ _ pe => exact counted_inProcess pe
  | finish => exact ⟨rfl, rfl, rfl, rfl, (List.append_nil _).symm⟩

/-- A loop that has exited neither claims nor dispatches. -/
theorem quiet_of_exited (hs : Stepped cancelled clock q e q' eff) (hloop : q.loop = .exited) :
    eff.isWork = false := by
  cases hs with
  | idle | check | leave | tick | finish => rfl
  | enter h => cases hloop.symm.trans h
  | allow h => cases hloop.symm.trans h
  | claim _ h => cases hloop.symm.trans h
  | send h => cases hloop.symm.trans h
  | process _ _ pe hpe =>
    cases pe with
    | begin | handlerEnds => rfl
    | release i =>
      change (LoopEffect.ofPoll (q.poll.release i).2).isWork = false
      unfold PollState.release
      split
      · split <;> rfl
      · rfl
    | poll | allow | claim | send => cases hpe

theorem not_blocked (h : q.Sound cancelled) (hs : Stepped cancelled clock q e q' eff) :
    eff ≠ .blocked := by
  have hpoll : ∀ pe, LoopEffect.ofPoll (q.poll.step pe).2 ≠ .blocked := by
    intro pe hc
    apply PollState.step_not_blocked h.slotted pe
    cases heff : (q.poll.step pe).2 with
    | blocked => rfl
    | quiet | claimed | dispatched =>
      rw [heff] at hc
      cases hc
  cases hs with
  | idle | check | leave | tick | finish => exact fun hc => by cases hc
  | enter => exact hpoll (.poll cancelled)
  | allow => exact hpoll (.allow clock)
  | claim result => exact hpoll (.claim result)
  | send => exact hpoll .send
  | process _ _ pe => exact hpoll pe

end QueueLoop

end Rdq.Engine
