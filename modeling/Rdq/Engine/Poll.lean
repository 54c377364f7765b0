import Rdq.Engine.RateLimit

/-!
# The claim loop of a queue

`core/engine/worker.go`, `pollOnce` and the goroutines it starts, for one queue. A poll
reads the number of free slots, takes tokens from the rate limiter, claims tasks and
sends each through the semaphore to a goroutine of its own. Each of these is one event,
so that the goroutines may run between any two of them.

## Implementation notes

A goroutine is known by its place in the order of the `go` statements. An event that is
not the next one of the poller or of its goroutine does nothing. What a goroutine does
with its task is left to `Worker.process`; here only its slot counts.
-/

namespace Rdq.Engine

open Foundation

/-- What a queue spec says about polling. -/
structure PollSpec where
  batchSize : Int
  concurrency : Int
  rateLimit : Option Rate

/-- Where a goroutine of `process` stands. -/
inductive Stage
  | created
  | handling
  | concluding
  | released
deriving DecidableEq, Repr

/-- Where the poller stands. -/
inductive PollPhase (τ : Type)
  | idle
  /-- In `grantTokens`: how many tokens it wants and has. -/
  | granting (want got : Nat)
  /-- In front of `ClaimDue`. -/
  | claiming (limit : Nat)
  /-- In front of the semaphore, with the tasks that are still to be sent. -/
  | sending (tasks : List τ)

/-- The slots a poll has counted on and not yet filled. -/
def PollPhase.reserved {τ : Type} : PollPhase τ → Nat
  | .idle => 0
  | .granting want _ => want
  | .claiming limit => limit
  | .sending tasks => tasks.length

/-- The claimed tasks that are still to be sent. -/
def PollPhase.pending {τ : Type} : PollPhase τ → List τ
  | .sending tasks => tasks
  | _ => []

/-- The live state of a queue: `len` and `cap` of the semaphore, the limiter, the poller
and the goroutines in the order they were created. -/
structure PollState (τ : Type) where
  used : Nat
  capacity : Nat
  batchSize : Nat
  limiter : Limiter
  phase : PollPhase τ
  processes : List (τ × Stage)

inductive PollEvent (τ : Type)
  /-- `pollOnce` is called and reads the free slots. -/
  | poll (cancelled : Bool)
  /-- One call of `Allow`, at a reading of the clock. -/
  | allow (now : Time)
  /-- `ClaimDue` returns tasks or fails. -/
  | claim (result : Option (List τ))
  /-- The next claimed task is sent. -/
  | send
  /-- A goroutine gets its task: to a handler, or to the dead letters. -/
  | begin (i : Nat) (routed : Bool)
  /-- A handler returns or panics; a panic is recovered. -/
  | handlerEnds (i : Nat) (panicked : Bool)
  /-- A goroutine gives its slot back and ends. -/
  | release (i : Nat)

inductive PollEffect (τ : Type)
  | quiet
  | claimed (tasks : List τ)
  | dispatched (task : τ)
  /-- A send found the semaphore full, or a receive found it empty. -/
  | blocked

variable {τ : Type}

/-- The queue as `NewWorker` sets it up. -/
def newPollState (spec : PollSpec) (now : Time) : PollState τ where
  used := 0
  capacity := (if spec.concurrency < 1 then 1 else spec.concurrency).toNat
  batchSize := (if spec.batchSize < 1 then 1 else spec.batchSize).toNat
  limiter := newLimiter spec.rateLimit now
  phase := .idle
  processes := []

namespace PollState

/-- The poller after `grantTokens`. -/
def afterGrant (got : Nat) : PollPhase τ := if got = 0 then .idle else .claiming got

/-- The poller with tasks left to send. -/
def afterSend (tasks : List τ) : PollPhase τ := if tasks.isEmpty then .idle else .sending tasks

def poll (s : PollState τ) (cancelled : Bool) : PollState τ :=
  match s.phase with
  | .idle =>
    let free := s.capacity - s.used
    if cancelled ∨ free = 0 then s
    else { s with phase := .granting (min free s.batchSize) 0 }
  | _ => s

def allow (s : PollState τ) (now : Time) : PollState τ :=
  match s.phase with
  | .granting want got =>
    let call := s.limiter.allowN 1 now
    { s with
      limiter := call.1
      phase :=
        if call.2 then (if got + 1 < want then .granting want (got + 1) else .claiming (got + 1))
        else afterGrant got }
  | _ => s

def claim (s : PollState τ) (result : Option (List τ)) : PollState τ × PollEffect τ :=
  match s.phase, result with
  | .claiming _, some tasks => ({ s with phase := afterSend tasks }, .claimed tasks)
  | .claiming _, none => ({ s with phase := .idle }, .quiet)
  | _, _ => (s, .quiet)

def send (s : PollState τ) : PollState τ × PollEffect τ :=
  match s.phase with
  | .sending (task :: tasks) =>
    if s.used < s.capacity then
      ({ s with
          used := s.used + 1
          phase := afterSend tasks
          processes := s.processes ++ [(task, .created)] }, .dispatched task)
    else (s, .blocked)
  | _ => (s, .quiet)

/-- A goroutine moves on from one stage to another. -/
def advance (s : PollState τ) (i : Nat) (source target : Stage) : PollState τ :=
  match s.processes[i]? with
  | some (task, stage) =>
    if stage = source then { s with processes := s.processes.set i (task, target) } else s
  | none => s

/-- `<-q.sem` of a goroutine that ends. -/
def release (s : PollState τ) (i : Nat) : PollState τ × PollEffect τ :=
  match s.processes[i]? with
  | some (task, .concluding) =>
    if s.used = 0 then (s, .blocked)
    else
      ({ s with used := s.used - 1, processes := s.processes.set i (task, .released) }, .quiet)
  | _ => (s, .quiet)

def step (s : PollState τ) : PollEvent τ → PollState τ × PollEffect τ
  | .poll cancelled => (s.poll cancelled, .quiet)
  | .allow now => (s.allow now, .quiet)
  | .claim result => s.claim result
  | .send => s.send
  | .begin i routed =>
    (s.advance i .created (if routed then .handling else .concluding), .quiet)
  | .handlerEnds i _ => (s.advance i .handling .concluding, .quiet)
  | .release i => s.release i

/-- `ClaimDue` returns at most as many tasks as it was asked for. -/
def ClaimLimited (s : PollState τ) (event : PollEvent τ) : Prop :=
  ∀ limit tasks, s.phase = .claiming limit → event = .claim (some tasks) → tasks.length ≤ limit

/-! ## Slots -/

/-- The slots are those of the goroutines that have not ended, and the slots a poll counts
on are free. -/
structure Slotted (s : PollState τ) : Prop where
  used_eq : s.used = s.processes.countP fun p => p.2 ≠ .released
  reserved_le : s.used + s.phase.reserved ≤ s.capacity
  got_lt : ∀ want got, s.phase = .granting want got → got < want
  batch_pos : 0 < s.batchSize

@[simp] theorem reserved_afterGrant (got : Nat) :
    (afterGrant got : PollPhase τ).reserved = got := by
  unfold afterGrant
  split
  · rename_i h
    rw [h]
    rfl
  · rfl

@[simp] theorem reserved_afterSend (tasks : List τ) :
    (afterSend tasks).reserved = tasks.length := by
  cases tasks <;> rfl

theorem afterGrant_ne_granting (want got n : Nat) :
    (afterGrant n : PollPhase τ) ≠ .granting want got := by
  unfold afterGrant
  split
  · exact fun h => by cases h
  · exact fun h => by cases h

theorem afterSend_ne_granting (want got : Nat) (tasks : List τ) :
    afterSend tasks ≠ .granting want got := by
  cases tasks <;> exact fun h => by cases h

theorem slotted_new (spec : PollSpec) (now : Time) :
    (newPollState spec now : PollState τ).Slotted where
  used_eq := rfl
  reserved_le := Nat.zero_le _
  got_lt := fun _ _ h => by cases h
  batch_pos := by
    unfold newPollState
    dsimp only
    split <;> omega

variable {s : PollState τ}

theorem Slotted.poll (h : s.Slotted) (cancelled : Bool) : (s.poll cancelled).Slotted := by
  unfold PollState.poll
  split
  · dsimp only
    split
    · exact h
    · rename_i hphase hfree
      have hle := h.reserved_le
      rw [not_or] at hfree
      have hbatch := h.batch_pos
      refine ⟨h.used_eq, ?_, ?_, hbatch⟩
      · change s.used + min (s.capacity - s.used) s.batchSize ≤ s.capacity
        omega
      · intro want got heq
        cases heq
        omega
  · exact h

theorem Slotted.allow (h : s.Slotted) (now : Time) : (s.allow now).Slotted := by
  unfold PollState.allow
  split
  · rename_i want got hphase
    have hle := h.reserved_le
    have hlt := h.got_lt want got hphase
    rw [hphase] at hle
    change s.used + want ≤ s.capacity at hle
    refine ⟨h.used_eq, ?_, ?_, h.batch_pos⟩
    · dsimp only
      split_ifs with hcall hmore
      · exact hle
      · change s.used + (got + 1) ≤ s.capacity
        omega
      · rw [reserved_afterGrant]
        omega
    · intro want' got' heq
      dsimp only at heq
      split_ifs at heq with hcall hmore
      · cases heq
        exact hmore
      · exact absurd heq (afterGrant_ne_granting want' got' got)
  · exact h

theorem Slotted.claim (h : s.Slotted) {result : Option (List τ)}
    (hlimit : s.ClaimLimited (.claim result)) : (s.claim result).1.Slotted := by
  have hle := h.reserved_le
  unfold PollState.claim
  split
  · rename_i limit tasks hphase
    have htasks := hlimit limit tasks hphase rfl
    rw [hphase] at hle
    change s.used + limit ≤ s.capacity at hle
    refine ⟨h.used_eq, ?_, ?_, h.batch_pos⟩
    · dsimp only
      rw [reserved_afterSend]
      omega
    · intro want got heq
      exact absurd heq (afterSend_ne_granting want got tasks)
  · refine ⟨h.used_eq, ?_, ?_, h.batch_pos⟩
    · change s.used + 0 ≤ s.capacity
      omega
    · intro want got heq
      cases heq
  · exact h

theorem Slotted.send (h : s.Slotted) : s.send.1.Slotted := by
  have hle := h.reserved_le
  unfold PollState.send
  split
  · rename_i task tasks hphase
    rw [hphase] at hle
    change s.used + (tasks.length + 1) ≤ s.capacity at hle
    split
    · refine ⟨?_, ?_, ?_, h.batch_pos⟩
      · dsimp only
        rw [List.countP_append, ← h.used_eq]
        rfl
      · dsimp only
        rw [reserved_afterSend]
        omega
      · intro want got heq
        exact absurd heq (afterSend_ne_granting want got tasks)
    · exact h
  · exact h

/-- A goroutine that moves on without ending keeps its slot. -/
theorem Slotted.advance (h : s.Slotted) (i : Nat) {source target : Stage}
    (hsource : source ≠ .released) (htarget : target ≠ .released) :
    (s.advance i source target).Slotted := by
  unfold PollState.advance
  split
  · rename_i task stage hget
    split
    · rename_i hstage
      subst hstage
      obtain ⟨hi, hat⟩ := List.getElem?_eq_some_iff.mp hget
      have hpos : 0 < s.processes.countP fun p => p.2 ≠ .released :=
        List.countP_pos_iff.mpr ⟨_, List.mem_of_getElem? hget, by simpa using hsource⟩
      refine ⟨?_, h.reserved_le, h.got_lt, h.batch_pos⟩
      dsimp only
      rw [List.countP_set hi, hat, h.used_eq]
      simp only [ne_eq, hsource, htarget, not_false_eq_true, decide_true, if_true] at hpos ⊢
      omega
    · exact h
  · exact h

theorem Slotted.release (h : s.Slotted) (i : Nat) : (s.release i).1.Slotted := by
  have hle := h.reserved_le
  unfold PollState.release
  split
  · rename_i task hget
    split
    · exact h
    · obtain ⟨hi, hat⟩ := List.getElem?_eq_some_iff.mp hget
      refine ⟨?_, ?_, h.got_lt, h.batch_pos⟩
      · dsimp only
        rw [List.countP_set hi, hat, h.used_eq]
        simp
      · dsimp only
        omega
  · exact h

theorem Slotted.step (h : s.Slotted) {event : PollEvent τ} (hlimit : s.ClaimLimited event) :
    (s.step event).1.Slotted := by
  cases event with
  | poll cancelled => exact h.poll cancelled
  | allow now => exact h.allow now
  | claim result => exact h.claim hlimit
  | send => exact h.send
  | begin i routed =>
    apply h.advance i (fun heq => by cases heq)
    cases routed <;> exact fun heq => by cases heq
  | handlerEnds i panicked => exact h.advance i (fun heq => by cases heq) fun heq => by cases heq
  | release i => exact h.release i

/-! ## No event blocks -/

theorem send_not_blocked (h : s.Slotted) : s.send.2 ≠ .blocked := by
  have hle := h.reserved_le
  unfold PollState.send
  split
  · rename_i task tasks hphase
    rw [hphase] at hle
    change s.used + (tasks.length + 1) ≤ s.capacity at hle
    rw [if_pos (by omega)]
    exact fun heq => by cases heq
  · exact fun heq => by cases heq

theorem release_not_blocked (h : s.Slotted) (i : Nat) : (s.release i).2 ≠ .blocked := by
  unfold PollState.release
  split
  · rename_i task hget
    have hpos : 0 < s.processes.countP fun p => p.2 ≠ .released :=
      List.countP_pos_iff.mpr ⟨_, List.mem_of_getElem? hget, by simp⟩
    rw [if_neg (by rw [h.used_eq]; omega)]
    exact fun heq => by cases heq
  · exact fun heq => by cases heq

theorem step_not_blocked (h : s.Slotted) (event : PollEvent τ) : (s.step event).2 ≠ .blocked := by
  cases event with
  | send => exact send_not_blocked h
  | release i => exact release_not_blocked h i
  | claim result =>
    change (s.claim result).2 ≠ .blocked
    unfold PollState.claim
    split <;> exact fun heq => by cases heq
  | _ => exact fun heq => by cases heq

/-! ## Every claimed task is run once -/

/-- The tasks a step claimed. -/
def effectTasks : PollEffect τ → List τ
  | .claimed tasks => tasks
  | _ => []

/-- The tasks claimed so far, in order. -/
def claimedTasks (tr : List (Entry (PollState τ) (PollEvent τ) (PollEffect τ))) : List τ :=
  tr.flatMap fun e => effectTasks e.output

/-- The tasks that have a goroutine, and those that are still to get one. -/
def tasks (s : PollState τ) : List τ := s.processes.map Prod.fst ++ s.phase.pending

/-- The handlers that are running. -/
def running (s : PollState τ) : Nat := s.processes.countP fun p => p.2 = .handling

@[simp] theorem pending_afterGrant (got : Nat) : (afterGrant got : PollPhase τ).pending = [] := by
  unfold afterGrant
  split <;> rfl

@[simp] theorem pending_afterSend (tasks : List τ) : (afterSend tasks).pending = tasks := by
  cases tasks <;> rfl

theorem map_set_fst {l : List (τ × Stage)} {i : Nat} {task : τ} {stage : Stage}
    (h : l[i]? = some (task, stage)) (target : Stage) :
    (l.set i (task, target)).map Prod.fst = l.map Prod.fst := by
  have hmap : (l.map Prod.fst)[i]? = some task := by rw [List.getElem?_map, h]; rfl
  obtain ⟨hi, hat⟩ := List.getElem?_eq_some_iff.mp hmap
  rw [List.map_set, ← hat]
  exact List.set_getElem_self hi

theorem tasks_poll (s : PollState τ) (cancelled : Bool) : (s.poll cancelled).tasks = s.tasks := by
  unfold poll
  split
  · rename_i hphase
    dsimp only
    split
    · rfl
    · rw [tasks, tasks, hphase]
      rfl
  · rfl

theorem tasks_allow (s : PollState τ) (now : Time) : (s.allow now).tasks = s.tasks := by
  unfold allow
  split
  · rename_i hphase
    rw [tasks, tasks, hphase]
    dsimp only
    split_ifs with hcall hmore
    · rfl
    · rfl
    · rw [pending_afterGrant]
      rfl
  · rfl

theorem tasks_claim (s : PollState τ) (result : Option (List τ)) :
    (s.claim result).1.tasks = s.tasks ++ effectTasks (s.claim result).2 := by
  unfold claim
  split
  · rename_i hphase
    rw [tasks, tasks, hphase]
    dsimp only
    rw [pending_afterSend]
    simp [PollPhase.pending, effectTasks]
  · rename_i hphase
    rw [tasks, tasks, hphase]
    exact (List.append_nil _).symm
  · exact (List.append_nil _).symm

theorem tasks_send (s : PollState τ) : s.send.1.tasks = s.tasks := by
  unfold send
  split
  · rename_i task rest hphase
    split
    · rw [tasks, tasks, hphase]
      dsimp only
      rw [pending_afterSend]
      simp [PollPhase.pending]
    · rfl
  · rfl

theorem tasks_advance (s : PollState τ) (i : Nat) (source target : Stage) :
    (s.advance i source target).tasks = s.tasks := by
  unfold advance
  split
  · rename_i hget
    split
    · rw [tasks, tasks]
      dsimp only
      rw [map_set_fst hget]
    · rfl
  · rfl

theorem tasks_release (s : PollState τ) (i : Nat) : (s.release i).1.tasks = s.tasks := by
  unfold release
  split
  · rename_i hget
    split
    · rfl
    · rw [tasks, tasks]
      dsimp only
      rw [map_set_fst hget]
  · rfl

theorem effectTasks_send (s : PollState τ) : effectTasks s.send.2 = [] := by
  unfold send
  split
  · split <;> rfl
  · rfl

theorem effectTasks_release (s : PollState τ) (i : Nat) : effectTasks (s.release i).2 = [] := by
  unfold release
  split
  · split <;> rfl
  · rfl

/-- A step adds the tasks it claimed, and loses none. -/
theorem tasks_step (s : PollState τ) (event : PollEvent τ) :
    (s.step event).1.tasks = s.tasks ++ effectTasks (s.step event).2 := by
  cases event with
  | poll cancelled => exact (tasks_poll s cancelled).trans (List.append_nil _).symm
  | allow now => exact (tasks_allow s now).trans (List.append_nil _).symm
  | claim result => exact tasks_claim s result
  | send =>
    change s.send.1.tasks = s.tasks ++ effectTasks s.send.2
    rw [tasks_send, effectTasks_send, List.append_nil]
  | begin i routed => exact (tasks_advance s i _ _).trans (List.append_nil _).symm
  | handlerEnds i panicked => exact (tasks_advance s i _ _).trans (List.append_nil _).symm
  | release i =>
    change (s.release i).1.tasks = s.tasks ++ effectTasks (s.release i).2
    rw [tasks_release, effectTasks_release, List.append_nil]

theorem tasks_run (s : PollState τ) (events : List (PollEvent τ)) :
    (run step s events).tasks = s.tasks ++ claimedTasks (trace step s events) := by
  induction events generalizing s with
  | nil => exact (List.append_nil _).symm
  | cons event events ih =>
    calc (run step s (event :: events)).tasks
        = (s.step event).1.tasks ++ claimedTasks (trace step (s.step event).1 events) := ih _
      _ = s.tasks ++ claimedTasks (trace step s (event :: events)) := by
        rw [tasks_step, List.append_assoc]
        rfl

theorem tasks_run_sends (s : PollState τ) (n : Nat) :
    (run step s (List.replicate n .send)).tasks = s.tasks := by
  induction n generalizing s with
  | zero => rfl
  | succ n ih =>
    rw [List.replicate_succ, run_cons]
    exact (ih _).trans (tasks_send s)

/-- The poller sends all of its tasks, whatever has happened before. -/
theorem run_sends (h : s.Slotted) :
    (run step s (List.replicate s.phase.pending.length .send)).phase.pending = [] := by
  obtain ⟨n, hn⟩ : ∃ n, n = s.phase.pending.length := ⟨_, rfl⟩
  induction n generalizing s with
  | zero =>
    rw [← hn]
    exact List.eq_nil_of_length_eq_zero hn.symm
  | succ n ih =>
    have hle := h.reserved_le
    have hsend : s.send.1.phase.pending.length = n := by
      unfold send
      split
      · rename_i task rest hphase
        rw [hphase] at hn hle
        change s.used + (rest.length + 1) ≤ s.capacity at hle
        rw [if_pos (by omega)]
        dsimp only
        rw [pending_afterSend]
        exact (Nat.succ.inj hn).symm
      · rename_i hphase
        exfalso
        cases hs : s.phase with
        | sending tasks =>
          cases tasks with
          | nil =>
            rw [hs] at hn
            cases hn
          | cons task rest => exact hphase task rest hs
        | _ =>
          rw [hs] at hn
          cases hn
    rw [← hn, List.replicate_succ, run_cons]
    have hrest := ih h.send hsend.symm
    rw [hsend] at hrest
    exact hrest

theorem running_le_used (h : s.Slotted) : s.running ≤ s.used := by
  rw [h.used_eq]
  apply List.countP_mono_left
  intro p _ hp
  simp only [decide_eq_true_eq] at hp ⊢
  rw [hp]
  exact fun heq => by cases heq

theorem capacity_step (s : PollState τ) (event : PollEvent τ) :
    (s.step event).1.capacity = s.capacity := by
  cases event with
  | poll cancelled =>
    simp only [step, poll]
    split
    · split <;> rfl
    · rfl
  | allow now =>
    simp only [step, allow]
    split <;> rfl
  | claim result =>
    simp only [step, claim]
    split <;> rfl
  | send =>
    simp only [step, send]
    split
    · split <;> rfl
    · rfl
  | begin i routed =>
    simp only [step, advance]
    split
    · split <;> rfl
    · rfl
  | handlerEnds i panicked =>
    simp only [step, advance]
    split
    · split <;> rfl
    · rfl
  | release i =>
    simp only [step, release]
    split
    · split <;> rfl
    · rfl

theorem capacity_run (s : PollState τ) (events : List (PollEvent τ)) :
    (run step s events).capacity = s.capacity := by
  induction events generalizing s with
  | nil => rfl
  | cons event events ih => exact (ih _).trans (capacity_step s event)

theorem slotted_run (h : s.Slotted) {events : List (PollEvent τ)}
    (hlimit : AllSteps step ClaimLimited s events) : (run step s events).Slotted :=
  run_invariant h (fun _ _ hs hevent => hs.step hevent) hlimit

/-- In every interleaving of polls and goroutines the running handlers stay within the
concurrency of the queue, no send blocks, and every claimed task gets one goroutine. -/
theorem concurrency_cap (spec : PollSpec) (now : Time) (events : List (PollEvent τ))
    (hlimit : AllSteps step ClaimLimited (newPollState spec now) events) :
    ((run step (newPollState spec now) events).running : Int) ≤ max 1 spec.concurrency ∧
    (∀ e ∈ trace step (newPollState spec now) events, e.output ≠ .blocked) ∧
    (run step (newPollState spec now) events).send.2 ≠ .blocked ∧
    claimedTasks (trace step (newPollState spec now) events) =
      (run step (newPollState spec now) events).processes.map Prod.fst ++
        (run step (newPollState spec now) events).phase.pending ∧
    (run step (run step (newPollState spec now) events)
        (List.replicate (run step (newPollState spec now) events).phase.pending.length
          .send)).processes.map Prod.fst =
      claimedTasks (trace step (newPollState spec now) events) := by
  have hslots := slotted_run (slotted_new spec now) hlimit
  have htasks := tasks_run (newPollState spec now) events
  change _ = [] ++ _ at htasks
  rw [List.nil_append] at htasks
  refine ⟨?_, ?_, send_not_blocked hslots, htasks.symm, ?_⟩
  · have hle := (running_le_used hslots).trans
      ((Nat.le_add_right _ _).trans hslots.reserved_le)
    rw [capacity_run] at hle
    have hcap : ((newPollState spec now : PollState τ).capacity : Int) =
        max 1 spec.concurrency := by
      unfold newPollState
      dsimp only
      split <;> omega
    omega
  · intro e he
    have hall := hlimit.with_invariant (slotted_new spec now) fun _ _ hs hevent => hs.step hevent
    rw [entry_of_mem_trace he]
    exact step_not_blocked (allSteps_iff_trace.mp hall e he).1 e.input
  · have hsent := run_sends hslots
    have hkept := tasks_run_sends (run step (newPollState spec now) events)
      (run step (newPollState spec now) events).phase.pending.length
    rw [tasks, hsent, List.append_nil] at hkept
    exact hkept.trans htasks

/-- One task is claimed and handled while a second poll finds no slot free. -/
def singleSlotEvents : List (PollEvent String) :=
  [.poll false, .allow 0, .claim (some ["t"]), .send, .begin 0 true, .poll false,
    .handlerEnds 0 true, .release 0]

theorem concurrency_cap_singleSlot :
    AllSteps step ClaimLimited (newPollState ⟨5, 1, none⟩ 0) singleSlotEvents ∧
      claimedTasks (trace step (newPollState ⟨5, 1, none⟩ 0) singleSlotEvents) = ["t"] ∧
      ((run step (newPollState ⟨5, 1, none⟩ 0) singleSlotEvents).running : Int) ≤ 1 := by
  have hlimit : AllSteps step ClaimLimited (newPollState ⟨5, 1, none⟩ 0) singleSlotEvents := by
    refine ⟨?_, ?_, ?_, ?_, ?_, ?_, ?_, ?_, trivial⟩
    case refine_3 =>
      rintro limit tasks hphase hevent
      cases hevent
      cases hphase
      decide
    all_goals
      rintro limit tasks - hevent
      cases hevent
  exact ⟨hlimit, rfl, (concurrency_cap ⟨5, 1, none⟩ 0 singleSlotEvents hlimit).1⟩

/-! ## The rate of dispatches -/

/-- The call of the limiter a step makes, if any. -/
def calls (s : PollState τ) : PollEvent τ → List Limiter.Call
  | .allow now =>
    match s.phase with
    | .granting _ _ => [⟨1, now⟩]
    | _ => []
  | _ => []

/-- The calls of the limiter in a run. -/
def limiterCalls (tr : List (Entry (PollState τ) (PollEvent τ) (PollEffect τ))) :
    List Limiter.Call :=
  tr.flatMap fun e => e.pre.calls e.input

/-- The task a step dispatched to a handler goroutine. -/
def effectDispatch : PollEffect τ → List τ
  | .dispatched task => [task]
  | _ => []

/-- The tasks dispatched in a run. -/
def dispatchedTasks (tr : List (Entry (PollState τ) (PollEvent τ) (PollEffect τ))) : List τ :=
  tr.flatMap fun e => effectDispatch e.output

theorem limiter_step (s : PollState τ) (event : PollEvent τ) :
    (s.step event).1.limiter = run Limiter.step s.limiter (s.calls event) := by
  cases event with
  | allow now =>
    simp only [step, allow, calls]
    cases s.phase <;> rfl
  | poll cancelled =>
    simp only [step, poll, calls]
    split
    · split <;> rfl
    · rfl
  | claim result =>
    simp only [step, claim, calls]
    split <;> rfl
  | send =>
    simp only [step, send, calls]
    split
    · split <;> rfl
    · rfl
  | begin i routed =>
    simp only [step, advance, calls]
    split
    · split <;> rfl
    · rfl
  | handlerEnds i panicked =>
    simp only [step, advance, calls]
    split
    · split <;> rfl
    · rfl
  | release i =>
    simp only [step, release, calls]
    split
    · split <;> rfl
    · rfl

/-- The limiter of the queue has seen the calls of the polls and no others. -/
theorem limiter_run (s : PollState τ) (events : List (PollEvent τ)) :
    (run step s events).limiter =
      run Limiter.step s.limiter (limiterCalls (trace step s events)) := by
  induction events generalizing s with
  | nil => rfl
  | cons event events ih =>
    calc (run step s (event :: events)).limiter
        = run Limiter.step (s.step event).1.limiter
            (limiterCalls (trace step (s.step event).1 events)) := ih _
      _ = run Limiter.step s.limiter (limiterCalls (trace step s (event :: events))) := by
        rw [limiter_step, ← run_append]
        rfl

end PollState

/-- The tokens a poll has and has not yet spent on a dispatch. -/
def PollPhase.credit : PollPhase τ → Nat
  | .idle => 0
  | .granting _ got => got
  | .claiming limit => limit
  | .sending tasks => tasks.length

namespace PollState

@[simp] theorem credit_idle : (PollPhase.idle : PollPhase τ).credit = 0 := rfl

@[simp] theorem credit_granting (want got : Nat) :
    (PollPhase.granting want got : PollPhase τ).credit = got := rfl

@[simp] theorem credit_claiming (limit : Nat) :
    (PollPhase.claiming limit : PollPhase τ).credit = limit := rfl

@[simp] theorem credit_sending (tasks : List τ) :
    (PollPhase.sending tasks).credit = tasks.length := rfl

@[simp] theorem credit_afterGrant (got : Nat) : (afterGrant got : PollPhase τ).credit = got := by
  unfold afterGrant
  split
  · rename_i h
    rw [h]
    rfl
  · rfl

@[simp] theorem credit_afterSend (tasks : List τ) : (afterSend tasks).credit = tasks.length := by
  cases tasks <;> rfl

theorem credit_poll (s : PollState τ) (cancelled : Bool) :
    (s.poll cancelled).phase.credit = s.phase.credit := by
  unfold poll
  split
  · rename_i hphase
    dsimp only
    split
    · rfl
    · rw [hphase]
      rfl
  · rfl

/-- A dispatch is paid for by a token the poll has, and a token is had from the limiter. -/
theorem dispatch_step (s : PollState τ) {event : PollEvent τ} (hlimit : s.ClaimLimited event) :
    ((effectDispatch (s.step event).2).length : ℚ) + (s.step event).1.phase.credit ≤
      s.phase.credit + Limiter.granted s.limiter (s.calls event) := by
  cases event with
  | poll cancelled =>
    simp [step, credit_poll, calls, effectDispatch, Limiter.granted]
  | allow now =>
    simp only [step, allow, calls]
    cases hphase : s.phase with
    | granting want got =>
      have htaken : Limiter.granted s.limiter [⟨1, now⟩] =
          Limiter.taken 1 (s.limiter.allowN 1 now).2 := by
        simp [Limiter.granted, entry, Limiter.step]
      rw [htaken, Limiter.taken_one]
      cases (s.limiter.allowN 1 now).2 with
      | true =>
        simp only [if_true, effectDispatch]
        split_ifs <;> simp
      | false => simp [effectDispatch]
    | _ => simp [effectDispatch, Limiter.granted, hphase]
  | claim result =>
    simp only [step, claim, calls]
    split
    · rename_i limit tasks hphase
      have htasks := hlimit limit tasks hphase rfl
      simpa [effectDispatch, Limiter.granted, hphase] using htasks
    · simp [effectDispatch, Limiter.granted]
    · simp [effectDispatch, Limiter.granted]
  | send =>
    simp only [step, send, calls]
    split
    · rename_i task tasks hphase
      split
      · simp [effectDispatch, Limiter.granted, hphase, add_comm]
      · simp [effectDispatch, Limiter.granted]
    · simp [effectDispatch, Limiter.granted]
  | begin i routed =>
    simp only [step, advance, calls]
    split
    · split <;> simp [effectDispatch, Limiter.granted]
    · simp [effectDispatch, Limiter.granted]
  | handlerEnds i panicked =>
    simp only [step, advance, calls]
    split
    · split <;> simp [effectDispatch, Limiter.granted]
    · simp [effectDispatch, Limiter.granted]
  | release i =>
    simp only [step, release, calls]
    split
    · split <;> simp [effectDispatch, Limiter.granted]
    · simp [effectDispatch, Limiter.granted]

/-- Every dispatch of a run is paid for by a token. -/
theorem dispatched_le (s : PollState τ) {events : List (PollEvent τ)}
    (hlimit : AllSteps step ClaimLimited s events) :
    ((dispatchedTasks (trace step s events)).length : ℚ) ≤
      s.phase.credit + Limiter.granted s.limiter (limiterCalls (trace step s events)) := by
  suffices h : ((dispatchedTasks (trace step s events)).length : ℚ) +
      (run step s events).phase.credit ≤
        s.phase.credit + Limiter.granted s.limiter (limiterCalls (trace step s events)) by
    have hcredit : (0 : ℚ) ≤ (run step s events).phase.credit := Nat.cast_nonneg _
    linarith
  induction events generalizing s with
  | nil => simp [dispatchedTasks, limiterCalls, Limiter.granted]
  | cons event events ih =>
    have hfirst := dispatch_step s hlimit.1
    have hrest := ih (s.step event).1 hlimit.2
    have hgranted : Limiter.granted s.limiter (limiterCalls (trace step s (event :: events))) =
        Limiter.granted s.limiter (s.calls event) +
          Limiter.granted (s.step event).1.limiter
            (limiterCalls (trace step (s.step event).1 events)) := by
      rw [limiter_step]
      exact gained_append _ _ _ _
    have hlength : (dispatchedTasks (trace step s (event :: events))).length =
        (effectDispatch (s.step event).2).length +
          (dispatchedTasks (trace step (s.step event).1 events)).length := by
      exact List.length_append
    rw [hgranted, hlength, run_cons]
    push_cast
    linarith

/-- The limiter keeps its tokens within its burst, a refused call spends none, and the
tokens granted in any stretch of calls stay within the burst and the rate; so do the
handlers the polls dispatch in any stretch, but for the tokens that a poll under way at its
start has taken already. -/
theorem rate_limit_bound (rate : Rate) (hrate : 0 < rate.perSecond) (start : Time) :
    (∀ before after : List Limiter.Call,
      let l := run Limiter.step (newLimiter (some rate) start) before
      (0 ≤ l.tokens ∧ l.tokens ≤ (newLimiter (some rate) start).burst) ∧
      (∀ n now, (l.allowN n now).2 = false →
        (l.allowN n now).1 = l.refill now ∧ l.tokens ≤ (l.refill now).tokens) ∧
      Limiter.granted l after ≤ (newLimiter (some rate) start).burst + rate.perSecond *
        seconds (Limiter.greatestReading start (before ++ after) -
          Limiter.greatestReading start before)) ∧
    ∀ (spec : PollSpec) (before after : List (PollEvent τ)), spec.rateLimit = some rate →
      AllSteps step ClaimLimited (newPollState spec start) (before ++ after) →
      ((dispatchedTasks (trace step (run step (newPollState spec start) before) after)).length : ℚ)
        ≤ (run step (newPollState spec start) before).phase.credit +
          ((newLimiter (some rate) start).burst + rate.perSecond *
            seconds
              (Limiter.greatestReading start
                  (limiterCalls (trace step (newPollState spec start) (before ++ after))) -
                Limiter.greatestReading start
                  (limiterCalls (trace step (newPollState spec start) before)))) := by
  have hfilled := Limiter.filled_newLimiter hrate start
  obtain ⟨hper, hlast⟩ := Limiter.newLimiter_spec hrate start
  have hstretch : ∀ before after : List Limiter.Call,
      Limiter.granted (run Limiter.step (newLimiter (some rate) start) before) after ≤
        (newLimiter (some rate) start).burst + rate.perSecond *
          seconds (Limiter.greatestReading start (before ++ after) -
            Limiter.greatestReading start before) := by
    intro before after
    obtain ⟨hrun, hrunRate, hrunBurst, hrunLast⟩ := Limiter.run_spec hfilled before
    have hle := Limiter.granted_le hrun after
    rw [hrunRate, hrunBurst, hrunLast, hper, hlast] at hle
    rw [Limiter.seconds_sub]
    have happend : Limiter.greatestReading start (before ++ after) =
        Limiter.greatestReading (Limiter.greatestReading start before) after :=
      List.foldl_append
    rw [happend]
    exact hle
  refine ⟨?_, ?_⟩
  · intro before after
    obtain ⟨hrun, -, hrunBurst, -⟩ := Limiter.run_spec hfilled before
    refine ⟨⟨hrun.tokens_nonneg, hrunBurst ▸ hrun.tokens_le⟩, ?_, hstretch before after⟩
    intro n now hrefused
    refine ⟨?_, Limiter.le_tokens_refill hrun now⟩
    rcases Limiter.allowN_cases hrun n now with ⟨-, hcall⟩ | ⟨-, -, hcall⟩ | ⟨-, -, hcall⟩
    · rw [hcall] at hrefused
      cases hrefused
    · rw [hcall]
    · rw [hcall] at hrefused
      cases hrefused
  · intro spec before after hspec hlimit
    have hafter := ((allSteps_append _ _ _ _ _).mp hlimit).2
    have hdispatched := dispatched_le _ hafter
    have hlimiter : (newPollState spec start : PollState τ).limiter =
        newLimiter (some rate) start := congrArg (newLimiter · start) hspec
    rw [limiter_run, hlimiter] at hdispatched
    have hbound := hstretch (limiterCalls (trace step (newPollState spec start) before))
      (limiterCalls (trace step (run step (newPollState spec start) before) after))
    have hcalls : limiterCalls (trace step (newPollState spec start) (before ++ after)) =
        limiterCalls (trace step (newPollState spec start) before) ++
          limiterCalls (trace step (run step (newPollState spec start) before) after) := by
      simp [limiterCalls, trace_append]
    rw [hcalls]
    exact hdispatched.trans (add_le_add_right hbound _)

/-- A queue with a rate of two a second that polls for three tasks at a time. -/
def slowQueue : PollSpec := ⟨3, 4, some ⟨2, 1000000000⟩⟩

/-- A poll takes a token at once, and two more after a stall. -/
def stalledPoll : List (PollEvent Nat) :=
  [.poll false, .allow 0, .allow 100000000000, .allow 100000000000]

/-- It claims three tasks and sends them all, before the next poll asks for a token. -/
def sentAtOnce : List (PollEvent Nat) :=
  [.claim (some [1, 2, 3]), .send, .send, .send, .poll false, .allow 100000000000]

theorem claimLimited_sentAtOnce :
    AllSteps step ClaimLimited (newPollState slowQueue 0) (stalledPoll ++ sentAtOnce) := by
  have hother : ∀ (s : PollState Nat) (ev : PollEvent Nat), (∀ result, ev ≠ .claim result) →
      s.ClaimLimited ev := fun s ev hev _ tasks _ heq => absurd heq (hev (some tasks))
  have hcredit : (run step (newPollState slowQueue 0) stalledPoll).phase.credit = 3 := by
    decide +kernel
  rw [allSteps_append]
  refine ⟨⟨hother _ _ (by simp), hother _ _ (by simp), hother _ _ (by simp), hother _ _ (by simp),
    trivial⟩, ?_, hother _ _ (by simp), hother _ _ (by simp), hother _ _ (by simp),
    hother _ _ (by simp), hother _ _ (by simp), trivial⟩
  rintro limit tasks hphase ⟨⟩
  rw [hphase] at hcredit
  exact hcredit.ge

/-- Between two calls of the limiter at the same reading of the clock, three handlers are
dispatched at a burst of two. -/
theorem stalled_poll_exceeds_burst :
    AllSteps step ClaimLimited (newPollState slowQueue 0) (stalledPoll ++ sentAtOnce) ∧
      limiterCalls (trace step (newPollState slowQueue 0) stalledPoll) =
        [⟨1, 0⟩, ⟨1, 100000000000⟩, ⟨1, 100000000000⟩] ∧
      limiterCalls (trace step (run step (newPollState slowQueue 0) stalledPoll) sentAtOnce) =
        [⟨1, 100000000000⟩] ∧
      dispatchedTasks (trace step (run step (newPollState slowQueue 0) stalledPoll) sentAtOnce) =
        [1, 2, 3] ∧
      (newLimiter slowQueue.rateLimit 0).burst = 2 :=
  ⟨claimLimited_sentAtOnce, by decide +kernel, by decide +kernel, by decide +kernel,
    by decide +kernel⟩

theorem rate_limit_bound_slowQueue :
    Limiter.granted (newLimiter slowQueue.rateLimit 0) [⟨1, 0⟩, ⟨2, 500000000⟩] ≤
        2 + 2 * seconds 500000000 ∧
      ((dispatchedTasks (trace step (run step (newPollState slowQueue 0) stalledPoll)
        sentAtOnce)).length : ℚ) ≤ 3 + (2 + 2 * seconds 0) := by
  have hrate : 0 < Rate.perSecond ⟨2, 1000000000⟩ := by decide +kernel
  obtain ⟨hcalls, hpolls⟩ := rate_limit_bound (τ := Nat) ⟨2, 1000000000⟩ hrate 0
  refine ⟨(hcalls [] [⟨1, 0⟩, ⟨2, 500000000⟩]).2.2.trans ?_,
    (hpolls slowQueue stalledPoll sentAtOnce rfl claimLimited_sentAtOnce).trans ?_⟩
  · decide +kernel
  · decide +kernel

end PollState

end Rdq.Engine
