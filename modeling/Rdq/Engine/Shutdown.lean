import Mathlib.Algebra.Order.BigOperators.Group.List
import Rdq.Engine.RunLoop
import Rdq.Foundation.Fallible
import Rdq.Foundation.Potential

/-!
# The shutdown of a worker

When the context of `Run` is cancelled, the claim loops and the sweeper end what they had
begun and exit, and `Run` waits for the handlers, for at most the drain timeout. What holds
of every run is an invariant of the worker and its history: the wait groups count the
goroutines, so `Run` goes on only when they let it.
-/

namespace Rdq.Engine

open Foundation

variable {τ : Type}

/-! ## The wait groups of a worker -/

/-- A send that finds the semaphore full, a receive that finds it empty, or a wait group
that would drop below zero. -/
def RunEffect.isFault : RunEffect τ → Bool
  | .negative | .queue _ .blocked => true
  | _ => false

/-- `Run` has waited for its loops. -/
def MainPhase.isPast : MainPhase → Bool
  | .draining _ | .returned _ => true
  | _ => false

/-- A sweeper that has not exited counts in `loops`. -/
def SweepPhase.isOpen (p : SweepPhase) : Nat := if p = .exited then 0 else 1

namespace RunState

/-- The wait groups hold what their goroutines say, and `Run` has gone on only when they
let it. -/
structure Inv (s : RunState τ) : Prop where
  sound : ∀ q ∈ s.queues, q.Sound s.cancelled
  lease_le : ∀ q ∈ s.queues, q.lease ≤ s.drainTimeout
  loops_eq : s.loops = (s.queues.map QueueLoop.isOpen).sum + s.sweeper.isOpen
  handlers_eq : s.handlers + (s.queues.map fun q => q.ended.length).sum =
    (s.queues.map fun q => q.poll.processes.length).sum
  cancelled : s.main ≠ .running → s.cancelled = true
  past : s.main.isPast = true → s.loops = 0
  closed : s.closed = true → s.handlers = 0 ∧ s.main.isPast = true
  sweeping : s.sweeper ≠ .sweeping []

/-- A claim returns at most as many tasks as it was asked for. -/
def ClaimsLimited (s : RunState τ) : RunEvent τ → Prop
  | .queue i e => (s.queues[i]?.all fun q => q.claimWithin e) = true
  | _ => True

instance (s : RunState τ) : (e : RunEvent τ) → Decidable (s.ClaimsLimited e)
  | .queue i e => inferInstanceAs (Decidable ((s.queues[i]?.all fun q => q.claimWithin e) = true))
  | .cancel | .pass _ | .sweepStart | .sweepTimer | .sweepCall | .sweepDone | .mainDone | .joined
  | .waited | .drained | .drainTimer => instDecidableTrue

theorem claimWithin_of_get {s : RunState τ} {i : Nat} {q : QueueLoop τ} {e : QueueEvent τ}
    (h : s.ClaimsLimited (.queue i e)) (hq : s.queues[i]? = some q) : q.claimWithin e = true := by
  simp only [ClaimsLimited, hq, Option.all_some] at h
  exact h

variable {s : RunState τ}

theorem Inv.exited_of_loops (h : s.Inv) (hloops : s.loops = 0) :
    (∀ q ∈ s.queues, q.loop = .exited) ∧ s.sweeper = .exited := by
  have heq := h.loops_eq
  have hsum : (s.queues.map QueueLoop.isOpen).sum = 0 := by omega
  have hsweeper : s.sweeper.isOpen = 0 := by omega
  constructor
  · intro q hq
    have hzero := List.sum_eq_zero_iff_forall_eq_nat.mp hsum _ (List.mem_map_of_mem hq)
    by_contra hloop
    rw [QueueLoop.isOpen, if_neg hloop] at hzero
    cases hzero
  · by_contra hne
    rw [SweepPhase.isOpen, if_neg hne] at hsweeper
    cases hsweeper

theorem Inv.all_released (h : s.Inv) (hhandlers : s.handlers = 0) :
    ∀ q ∈ s.queues, ∀ p ∈ q.poll.processes, p.2 = .released := by
  have heq := h.handlers_eq
  rw [hhandlers, Nat.zero_add] at heq
  have hle : ∀ q ∈ s.queues, q.ended.length ≤ q.poll.processes.length :=
    fun q hq => (h.sound q hq).length_ended_le
  intro q hq
  apply (h.sound q hq).all_released
  apply le_antisymm (hle q hq)
  by_contra hlt
  have hsum := List.sum_lt_sum (l := s.queues) _ _ hle ⟨q, hq, Nat.lt_of_not_le hlt⟩
  omega

theorem count_eq {i : Nat} {eff : LoopEffect τ} (hleft : eff.left ≤ s.loops)
    (hfinished : eff.finished ≤ s.handlers) :
    s.count i eff =
      ({ s with
          loops := s.loops - eff.left
          handlers := s.handlers + eff.added - eff.finished }, .queue i eff) := by
  cases eff with
  | exited => exact if_neg (Nat.pos_iff_ne_zero.mp hleft)
  | ended => exact if_neg (Nat.pos_iff_ne_zero.mp hfinished)
  | idle | moved | claimed | dispatched | blocked => rfl

section Queue
variable {i : Nat} {q q' : QueueLoop τ} {e : QueueEvent τ} {eff : LoopEffect τ}

theorem mem_of_get (hq : s.queues[i]? = some q) : q ∈ s.queues := List.mem_of_getElem? hq

theorem forall_set {P : QueueLoop τ → Prop} (h : ∀ q ∈ s.queues, P q) (h' : P q') :
    ∀ q ∈ s.queues.set i q', P q := by
  intro q hq
  rcases List.mem_or_eq_of_mem_set hq with hq | rfl
  · exact h q hq
  · exact h'

/-- The wait groups have room for what a step of a queue takes from them. -/
theorem Inv.count_le (h : s.Inv) (hq : s.queues[i]? = some q)
    (hs : QueueLoop.Stepped s.cancelled s.clock q e q' eff) (hlimit : q.claimWithin e = true) :
    eff.left ≤ s.loops ∧ eff.finished ≤ s.handlers := by
  have hcounted := QueueLoop.counted hs
  have hsound := (h.sound q (mem_of_get hq)).step hs hlimit
  constructor
  · have hopen := sum_map_set QueueLoop.isOpen hq q'
    have heq := h.loops_eq
    have hone := hcounted.isOpen
    omega
  · have hended := sum_map_set (fun q => q.ended.length) hq q'
    have hprocesses := sum_map_set (fun q => q.poll.processes.length) hq q'
    have hle : ((s.queues.set i q').map fun q => q.ended.length).sum ≤
        ((s.queues.set i q').map fun q => q.poll.processes.length).sum :=
      List.sum_le_sum (forall_set (fun q hq => (h.sound q hq).length_ended_le)
        hsound.length_ended_le)
    have heq := h.handlers_eq
    have hone := hcounted.ended
    have hone' := hcounted.processes
    have hadded : eff.finished = 0 ∨ eff.added = 0 := by
      cases eff <;> simp [LoopEffect.finished, LoopEffect.added]
    omega

theorem Inv.queue (h : s.Inv) (hq : s.queues[i]? = some q)
    (hs : QueueLoop.Stepped s.cancelled s.clock q e q' eff) (hlimit : q.claimWithin e = true) :
    Inv { s with
      queues := s.queues.set i q'
      loops := s.loops - eff.left
      handlers := s.handlers + eff.added - eff.finished } := by
  have hcounted := QueueLoop.counted hs
  obtain ⟨hleft, hfinished⟩ := h.count_le hq hs hlimit
  have hnone : s.main.isPast = true → eff.added = 0 := fun hpast =>
    LoopEffect.added_of_not_isWork
      (QueueLoop.quiet_of_exited hs ((h.exited_of_loops (h.past hpast)).1 q (mem_of_get hq)))
  exact
    { sound := forall_set h.sound ((h.sound q (mem_of_get hq)).step hs hlimit)
      lease_le := forall_set h.lease_le (hcounted.lease ▸ h.lease_le q (mem_of_get hq))
      loops_eq := by
        have hsum := sum_map_set QueueLoop.isOpen hq q'
        have hone := hcounted.isOpen
        have heq := h.loops_eq
        dsimp only
        omega
      handlers_eq := by
        have hended := sum_map_set (fun q => q.ended.length) hq q'
        have hprocesses := sum_map_set (fun q => q.poll.processes.length) hq q'
        have heq := h.handlers_eq
        have hone := hcounted.ended
        have hone' := hcounted.processes
        dsimp only at hended hprocesses ⊢
        omega
      cancelled := h.cancelled
      past := by
        intro hpast
        have hzero := h.past hpast
        dsimp only
        omega
      closed := by
        intro hclosed
        obtain ⟨hzero, hpast⟩ := h.closed hclosed
        have hadded := hnone hpast
        refine ⟨?_, hpast⟩
        dsimp only
        omega
      sweeping := h.sweeping }

end Queue

/-- The sweeper exits. -/
theorem Inv.sweeperExits (h : s.Inv) (hopen : s.sweeper ≠ .exited) :
    Inv { s with sweeper := .exited, loops := s.loops - 1 } := by
  have heq := h.loops_eq
  rw [SweepPhase.isOpen, if_neg hopen] at heq
  exact
    { h with
      loops_eq := by
        change s.loops - 1 = (s.queues.map QueueLoop.isOpen).sum + 0
        omega
      past := by
        intro hpast
        have hzero := h.past hpast
        dsimp only
        omega
      sweeping := fun hc => by cases hc }

/-- The sweeper goes on. -/
theorem Inv.sweeperMoves (h : s.Inv) (hopen : s.sweeper ≠ .exited) {p : SweepPhase}
    (hp : p ≠ .exited) (hcalls : p ≠ .sweeping []) : Inv { s with sweeper := p } :=
  { h with
    loops_eq := by
      have heq := h.loops_eq
      rw [SweepPhase.isOpen, if_neg hopen] at heq
      rw [SweepPhase.isOpen, if_neg hp]
      exact heq
    sweeping := hcalls }

theorem afterSweep_ne (calls : List (String × Time)) :
    afterSweep calls ≠ .exited ∧ afterSweep calls ≠ .sweeping [] := by
  cases calls with
  | nil => exact ⟨fun hc => (by cases hc), fun hc => (by cases hc)⟩
  | cons c calls => exact ⟨fun hc => (by cases hc), fun hc => (by cases hc)⟩

/-- The steps of a worker whose wait groups are right. -/
inductive Stepped (s : RunState τ) : RunEvent τ → RunState τ → RunEffect τ → Prop
  | idle (e : RunEvent τ) : Stepped s e s .idle
  | cancel : Stepped s .cancel { s with cancelled := true } .moved
  | pass (d : Nat) : Stepped s (.pass d) { s with clock := s.clock + d } .moved
  | queue {i : Nat} {q q' : QueueLoop τ} {e : QueueEvent τ} {eff : LoopEffect τ}
      (hq : s.queues[i]? = some q) (hs : QueueLoop.Stepped s.cancelled s.clock q e q' eff)
      (hlimit : q.claimWithin e = true) :
      Stepped s (.queue i e)
        { s with
          queues := s.queues.set i q'
          loops := s.loops - eff.left
          handlers := s.handlers + eff.added - eff.finished } (.queue i eff)
  | sweepStart (hsweep : s.sweeper = .starting) :
      Stepped s .sweepStart { s with sweeper := .waiting } .moved
  | sweepTimer (hsweep : s.sweeper = .waiting) :
      Stepped s .sweepTimer { s with sweeper := afterSweep s.sweepCalls } .moved
  | sweepCall {queue : String} {olderThan : Time} {calls : List (String × Time)}
      (hsweep : s.sweeper = .sweeping ((queue, olderThan) :: calls)) :
      Stepped s .sweepCall { s with sweeper := afterSweep calls } (.purged queue olderThan)
  | sweeperExits (e : RunEvent τ)
      (hsweep : s.sweeper = .starting ∧ e = .sweepStart ∨ s.sweeper = .waiting ∧ e = .sweepDone) :
      Stepped s e { s with sweeper := .exited, loops := s.loops - 1 } .moved
  | mainDone (hmain : s.main = .running) (hc : s.cancelled = true) :
      Stepped s .mainDone { s with main := .joining } .moved
  | joined (hmain : s.main = .joining) (hloops : s.loops = 0) :
      Stepped s .joined { s with main := .draining (s.clock + s.drainTimeout) } .moved
  | waited {deadline : Time} (hmain : s.main = .draining deadline) (hzero : s.handlers = 0)
      (hclosed : s.closed = false) : Stepped s .waited { s with closed := true } .moved
  | returns (e : RunEvent τ) {deadline : Time} (hmain : s.main = .draining deadline)
      (hwhy : s.closed = true ∧ e = .drained ∨ deadline ≤ s.clock ∧ e = .drainTimer) :
      Stepped s e { s with main := .returned s.clock } .returned

theorem Inv.stepped (h : s.Inv) {e : RunEvent τ} (hlimit : s.ClaimsLimited e) :
    Stepped s e (s.step e).1 (s.step e).2 := by
  -- a sweeper that has not exited is among the loops
  have hexit : s.sweeper ≠ .exited → { s with sweeper := .exited }.loopsDone .moved =
      ({ s with sweeper := .exited, loops := s.loops - 1 }, .moved) := by
    intro hopen
    have heq := h.loops_eq
    rw [SweepPhase.isOpen, if_neg hopen] at heq
    exact if_neg (by dsimp only; omega)
  cases e with
  | cancel => exact .cancel
  | pass d => exact .pass d
  | queue i e =>
    simp only [step, queueStep]
    split
    · exact .idle _
    · rename_i q hq
      have hwithin := claimWithin_of_get hlimit hq
      have hs := q.stepped s.cancelled s.clock e
      obtain ⟨hleft, hfinished⟩ := h.count_le hq hs hwithin
      rw [@count_eq τ { s with queues := s.queues.set i _ } i _ hleft hfinished]
      exact .queue hq hs hwithin
  | sweepStart =>
    simp only [step]
    split
    · rename_i hsweep
      split
      · rw [hexit (by rw [hsweep]; exact fun hc => by cases hc)]
        exact .sweeperExits _ (Or.inl ⟨hsweep, rfl⟩)
      · exact .sweepStart hsweep
    · exact .idle _
  | sweepTimer =>
    simp only [step]
    split
    · exact .sweepTimer ‹_›
    · exact .idle _
  | sweepCall =>
    simp only [step]
    split
    · exact .sweepCall ‹_›
    · exact .idle _
  | sweepDone =>
    simp only [step]
    split
    · rename_i hwait
      rw [hexit (by rw [hwait.1]; exact fun hc => by cases hc)]
      exact .sweeperExits _ (Or.inr ⟨hwait.1, rfl⟩)
    · exact .idle _
  | mainDone =>
    simp only [step]
    split
    · rename_i hmain
      exact .mainDone hmain.1 hmain.2
    · exact .idle _
  | joined =>
    simp only [step]
    split
    · rename_i hmain
      exact .joined hmain.1 hmain.2
    · exact .idle _
  | waited =>
    simp only [step]
    split
    · rename_i deadline hmain
      split
      · rename_i hzero
        exact .waited hmain hzero.1 hzero.2
      · exact .idle _
    · exact .idle _
  | drained =>
    simp only [step]
    split
    · rename_i deadline hmain
      split
      · exact .returns _ hmain (Or.inl ⟨‹_›, rfl⟩)
      · exact .idle _
    · exact .idle _
  | drainTimer =>
    simp only [step]
    split
    · rename_i deadline hmain
      split
      · exact .returns _ hmain (Or.inr ⟨‹_›, rfl⟩)
      · exact .idle _
    · exact .idle _

theorem Inv.of_stepped (h : s.Inv) {e : RunEvent τ} {s' : RunState τ} {eff : RunEffect τ}
    (hs : Stepped s e s' eff) : s'.Inv ∧ eff.isFault = false := by
  cases hs with
  | idle => exact ⟨h, rfl⟩
  | cancel =>
    exact ⟨{ h with
      sound := fun q hq => (h.sound q hq).cancel
      cancelled := fun _ => rfl }, rfl⟩
  | pass => exact ⟨{ h with }, rfl⟩
  | @queue i q q' e eff hq hs hlimit =>
    refine ⟨h.queue hq hs hlimit, ?_⟩
    have hnot := QueueLoop.not_blocked (h.sound q (mem_of_get hq)) hs
    cases eff with
    | blocked => exact absurd rfl hnot
    | idle | moved | claimed | dispatched | exited | ended => rfl
  | sweepStart hsweep =>
    refine ⟨h.sweeperMoves ?_ (fun hc => by cases hc) (fun hc => by cases hc), rfl⟩
    rw [hsweep]
    exact fun hc => by cases hc
  | sweepTimer hsweep | sweepCall hsweep =>
    refine ⟨h.sweeperMoves ?_ (afterSweep_ne _).1 (afterSweep_ne _).2, rfl⟩
    rw [hsweep]
    exact fun hc => by cases hc
  | sweeperExits _ hsweep =>
    refine ⟨h.sweeperExits ?_, rfl⟩
    rcases hsweep with ⟨hsweep, -⟩ | ⟨hsweep, -⟩ <;> rw [hsweep] <;> exact fun hc => by cases hc
  | mainDone hmain hc =>
    exact ⟨{ h with
      cancelled := fun _ => hc
      past := fun hc => by cases hc
      closed := fun hc => absurd (h.closed hc).2 (by rw [hmain]; exact fun hc => by cases hc) },
      rfl⟩
  | joined hmain hloops =>
    exact ⟨{ h with
      cancelled := fun _ => h.cancelled (by rw [hmain]; exact fun hc => by cases hc)
      past := fun _ => hloops
      closed := fun hc => ⟨(h.closed hc).1, rfl⟩ }, rfl⟩
  | waited hmain hzero => exact ⟨{ h with closed := fun _ => ⟨hzero, by rw [hmain]; rfl⟩ }, rfl⟩
  | returns _ hmain =>
    exact ⟨{ h with
      cancelled := fun _ => h.cancelled (by rw [hmain]; exact fun hc => by cases hc)
      past := fun _ => h.past (by rw [hmain]; rfl)
      closed := fun hc => ⟨(h.closed hc).1, rfl⟩ }, rfl⟩

/-! ## What a run leaves behind -/

/-- The tasks a step claimed for queue `i`. -/
def claimedBy (i : Nat) : RunEffect τ → List τ
  | .queue j eff => if j = i then eff.claims else []
  | _ => []

/-- The tasks claimed for queue `i` in a run, in order. -/
def claimsOf (i : Nat) (tr : List (Entry (RunState τ) (RunEvent τ) (RunEffect τ))) : List τ :=
  tr.flatMap fun e => claimedBy i e.output

/-- A step claimed tasks whose lease ends at `t`, unless it is extended. -/
def LeaseEnds (e : Entry (RunState τ) (RunEvent τ) (RunEffect τ)) (t : Time) : Prop :=
  ∃ i q tasks, e.output = .queue i (.claimed tasks) ∧ e.pre.queues[i]? = some q ∧
    t = e.pre.clock + q.lease

/-- A call of `ClaimDue` or `PurgeSucceeded`, or the start of a handler goroutine. -/
def startsWork : RunEffect τ → Bool
  | .queue _ eff => eff.isWork
  | .purged _ _ => true
  | _ => false

/-- How far `Run` itself gets in a step. -/
inductive Advanced (s s' : RunState τ) : Prop
  | same (hmain : s'.main = s.main) (hclosed : s.closed = true → s'.closed = true)
  | joining (hbefore : s.main = .running) (hmain : s'.main = .joining)
  | draining (hmain : s'.main = .draining (s.clock + s.drainTimeout))
  | returned (deadline : Time) (hbefore : s.main = .draining deadline)
      (hmain : s'.main = .returned s.clock) (hwhy : s'.closed = true ∨ deadline ≤ s.clock)

namespace Stepped
variable {e : RunEvent τ} {s' : RunState τ} {eff : RunEffect τ}

theorem advanced (hs : Stepped s e s' eff) : Advanced s s' := by
  cases hs with
  | mainDone hmain => exact .joining hmain rfl
  | joined => exact .draining rfl
  | waited => exact .same rfl fun _ => rfl
  | returns _ hmain hwhy => exact .returned _ hmain rfl (hwhy.imp And.left And.left)
  | idle | cancel | pass | queue | sweepStart | sweepTimer | sweepCall | sweeperExits =>
    exact .same rfl id

/-- The clock moves forward, the drain timeout stays, and a cancellation is for good. -/
theorem frame (hs : Stepped s e s' eff) :
    s.clock ≤ s'.clock ∧ s'.drainTimeout = s.drainTimeout ∧
      (s.cancelled = true → s'.cancelled = true) := by
  cases hs with
  | cancel => exact ⟨le_rfl, rfl, fun _ => rfl⟩
  | pass d => exact ⟨Int.le_add_of_nonneg_right (Int.natCast_nonneg d), rfl, id⟩
  | idle | queue | sweepStart | sweepTimer | sweepCall | sweeperExits | mainDone | joined | waited
  | returns => exact ⟨le_rfl, rfl, id⟩

/-- A step is one of a queue, or leaves the queues alone. -/
theorem queues_cases (hs : Stepped s e s' eff) :
    s'.queues = s.queues ∧ (∀ j leff, eff ≠ .queue j leff) ∨
      ∃ j q q' qe leff, e = .queue j qe ∧ eff = .queue j leff ∧ s.queues[j]? = some q ∧
        QueueLoop.Stepped s.cancelled s.clock q qe q' leff ∧ s'.queues = s.queues.set j q' := by
  cases hs with
  | queue hq hs => exact Or.inr ⟨_, _, _, _, _, rfl, rfl, hq, hs, rfl⟩
  | idle | cancel | pass | sweepStart | sweepTimer | sweepCall | sweeperExits | mainDone | joined
  | waited | returns => exact Or.inl ⟨rfl, fun _ _ hc => by cases hc⟩

end Stepped

/-- After `loops.Wait` no step starts any work. -/
theorem Inv.quiet (h : s.Inv) (hpast : s.main.isPast = true) {e : RunEvent τ} {s' : RunState τ}
    {eff : RunEffect τ} (hs : Stepped s e s' eff) : startsWork eff = false := by
  obtain ⟨hqueues, hsweeper⟩ := h.exited_of_loops (h.past hpast)
  cases hs with
  | @queue i q q' e eff hq hs => exact QueueLoop.quiet_of_exited hs (hqueues q (mem_of_get hq))
  | sweepCall hsweep => cases hsweeper.symm.trans hsweep
  | idle | cancel | pass | sweepStart | sweepTimer | sweeperExits | mainDone | joined | waited
  | returns => rfl

/-- What holds of every run: no fault; the goroutines of a queue and what it is about to
send are the tasks it has claimed; and a drain that timed out has waited for every lease. -/
structure History (tr : List (Entry (RunState τ) (RunEvent τ) (RunEffect τ))) (s : RunState τ) :
    Prop where
  inv : s.Inv
  faultless : ∀ e ∈ tr, e.output.isFault = false
  tasks : ∀ i q, s.queues[i]? = some q → q.poll.tasks = claimsOf i tr
  ends : ∀ e ∈ tr, ∀ t, LeaseEnds e t → t ≤ s.clock + s.drainTimeout
  draining : ∀ deadline, s.main = .draining deadline →
    ∀ e ∈ tr, ∀ t, LeaseEnds e t → t ≤ deadline
  returned : ∀ time, s.main = .returned time →
    s.closed = true ∨ ∀ e ∈ tr, ∀ t, LeaseEnds e t → t ≤ time

variable {tr : List (Entry (RunState τ) (RunEvent τ) (RunEffect τ))}

theorem claimsOf_concat (i : Nat) (e : Entry (RunState τ) (RunEvent τ) (RunEffect τ)) :
    claimsOf i (tr ++ [e]) = claimsOf i tr ++ claimedBy i e.output := by
  simp [claimsOf]

theorem History.tasks_step (h : History tr s) {e : RunEvent τ} {s' : RunState τ}
    {eff : RunEffect τ} (hs : Stepped s e s' eff) (i : Nat) (q : QueueLoop τ)
    (hq : s'.queues[i]? = some q) : q.poll.tasks = claimsOf i (tr ++ [⟨s, e, eff, s'⟩]) := by
  rw [claimsOf_concat]
  rcases hs.queues_cases with ⟨hqueues, hnot⟩ | ⟨j, p, p', qe, leff, -, rfl, hj, hs, hqueues⟩
  · have hnone : claimedBy i eff = [] := by
      cases eff with
      | queue j leff => exact absurd rfl (hnot j leff)
      | idle | moved | purged | returned | negative => rfl
    rw [hnone, List.append_nil]
    exact h.tasks i q (hqueues ▸ hq)
  · rw [hqueues] at hq
    simp only [claimedBy]
    by_cases hij : j = i
    · subst hij
      obtain ⟨hlt, -⟩ := List.getElem?_eq_some_iff.mp hj
      rw [List.getElem?_set_self hlt] at hq
      cases hq
      rw [if_pos rfl, (QueueLoop.counted hs).tasks, h.tasks j p hj]
    · rw [List.getElem?_set_ne hij] at hq
      rw [if_neg hij, List.append_nil]
      exact h.tasks i q hq

theorem History.step (h : History tr s) {e : RunEvent τ} (hlimit : s.ClaimsLimited e) :
    History (tr ++ [entry step s e]) (s.step e).1 := by
  have hs := h.inv.stepped hlimit
  obtain ⟨hinv, hfault⟩ := h.inv.of_stepped hs
  obtain ⟨hclock, htimeout, -⟩ := hs.frame
  -- a claim comes in only while the loops run, and its lease is within the drain timeout
  have hnew : ∀ t, LeaseEnds (entry RunState.step s e) t →
      t ≤ s.clock + s.drainTimeout ∧ s.main.isPast = false := by
    rintro t ⟨i, q, tasks, hout, hq, rfl⟩
    constructor
    · exact Int.add_le_add_left (h.inv.lease_le q (mem_of_get hq)) s.clock
    · rw [Bool.eq_false_iff]
      intro hpast
      have hquiet := h.inv.quiet hpast hs
      rw [show (s.step e).2 = .queue i (.claimed tasks) from hout] at hquiet
      cases hquiet
  have hends : ∀ x ∈ tr ++ [entry RunState.step s e], ∀ t, LeaseEnds x t →
      t ≤ s.clock + s.drainTimeout := by
    intro x hx t ht
    rcases List.mem_append.mp hx with hx | hx
    · exact h.ends x hx t ht
    · rw [List.mem_singleton.mp hx] at ht
      exact (hnew t ht).1
  have hpast : s.main.isPast = true → ∀ bound, (∀ x ∈ tr, ∀ t, LeaseEnds x t → t ≤ bound) →
      ∀ x ∈ tr ++ [entry RunState.step s e], ∀ t, LeaseEnds x t → t ≤ bound := by
    intro hp bound hbound x hx t ht
    rcases List.mem_append.mp hx with hx | hx
    · exact hbound x hx t ht
    · rw [List.mem_singleton.mp hx] at ht
      rw [(hnew t ht).2] at hp
      cases hp
  refine ⟨hinv, ?_, h.tasks_step hs, ?_, ?_, ?_⟩
  · intro x hx
    rcases List.mem_append.mp hx with hx | hx
    · exact h.faultless x hx
    · rw [List.mem_singleton.mp hx]
      exact hfault
  · intro x hx t ht
    rw [htimeout]
    exact (hends x hx t ht).trans (Int.add_le_add_right hclock s.drainTimeout)
  · intro deadline hmain'
    cases hs.advanced with
    | same hmain =>
      rw [hmain] at hmain'
      exact hpast (by rw [hmain']; rfl) deadline (h.draining deadline hmain')
    | joining _ hmain => cases hmain.symm.trans hmain'
    | draining hmain =>
      cases hmain.symm.trans hmain'
      exact hends
    | returned _ _ hmain => cases hmain.symm.trans hmain'
  · intro time hmain'
    cases hs.advanced with
    | same hmain hclosed =>
      rw [hmain] at hmain'
      rcases h.returned time hmain' with hc | hle
      · exact Or.inl (hclosed hc)
      · exact Or.inr (hpast (by rw [hmain']; rfl) time hle)
    | joining _ hmain => cases hmain.symm.trans hmain'
    | draining hmain => cases hmain.symm.trans hmain'
    | returned deadline hbefore hmain hwhy =>
      cases hmain.symm.trans hmain'
      rcases hwhy with hc | hdeadline
      · exact Or.inl hc
      · refine Or.inr (hpast (by rw [hbefore]; rfl) _ ?_)
        intro x hx t ht
        exact (h.draining deadline hbefore x hx t ht).trans hdeadline

end RunState

/-! ## The beginning -/

theorem le_longest (leases : List Duration) (d : Duration) :
    d ≤ leases.foldl (fun d lease => if d < lease then lease else d) d ∧
      ∀ lease ∈ leases, lease ≤ leases.foldl (fun d lease => if d < lease then lease else d) d := by
  induction leases generalizing d with
  | nil => exact ⟨le_rfl, fun _ h => by cases h⟩
  | cons l leases ih =>
    obtain ⟨hle, hrest⟩ := ih (if d < l then l else d)
    have hd : d ≤ if d < l then l else d := by
      split
      · exact le_of_lt ‹_›
      · exact le_rfl
    have hl : l ≤ if d < l then l else d := by
      split
      · exact le_rfl
      · exact not_lt.mp ‹_›
    refine ⟨hd.trans hle, ?_⟩
    intro lease hmem
    rcases List.mem_cons.mp hmem with rfl | hmem
    · exact hl.trans hle
    · exact hrest lease hmem

/-- The drain timeout covers every lease. -/
theorem le_drainTimeoutOf {leases : List Duration} {lease : Duration} (h : lease ∈ leases)
    (hpos : 0 < lease) : lease ≤ drainTimeoutOf leases := by
  have hle := (le_longest leases 0).2 lease h
  unfold drainTimeoutOf
  dsimp only
  rw [if_neg (not_le.mpr (lt_of_lt_of_le hpos hle))]
  exact hle

section Start
variable {unicodePrint : Char → Bool} {specs : List LoopSpec} {interval : Duration} {now : Time}
  {w : RunState τ}

theorem newQueueLoop_spec {spec : LoopSpec} {q : QueueLoop τ}
    (h : newQueueLoop unicodePrint now spec = .ok q) :
    q.Sound false ∧ q.loop = .top ∧ q.ended = [] ∧ q.poll.processes = [] ∧ q.poll.phase = .idle ∧
      0 < q.lease := by
  unfold newQueueLoop at h
  obtain ⟨-, h⟩ := check_eq_ok.mp h
  obtain ⟨hlease, h⟩ := check_eq_ok.mp h
  cases h
  refine ⟨⟨PollState.slotted_new spec.poll now, ?_, fun hc => (by cases hc),
    fun hc => (by cases hc), List.nodup_nil, fun i hi => (by cases hi)⟩, rfl, rfl, rfl, rfl,
    Int.not_le.mp hlease⟩
  exact ⟨fun hc => (by cases hc), fun hc => (by cases hc)⟩

theorem history_new (h : newRun unicodePrint specs interval now = .ok w) :
    RunState.History [] w ∧ w.cancelled = false := by
  obtain ⟨queues, hqueues, h⟩ := bind_eq_ok.mp h
  cases h
  have hnew : ∀ q ∈ queues, q.Sound false ∧ q.loop = .top ∧ q.ended = [] ∧
      q.poll.processes = [] ∧ q.poll.phase = .idle ∧ 0 < q.lease := by
    intro q hq
    obtain ⟨spec, -, hspec⟩ := mem_mapM_ok hqueues hq
    exact newQueueLoop_spec hspec
  have hsum : ∀ (f : QueueLoop τ → Nat) (n : Nat), (∀ q ∈ queues, f q = n) →
      (queues.map f).sum = queues.length * n := by
    intro f n hf
    rw [List.map_congr_left hf, List.map_const', List.sum_replicate_nat]
  refine ⟨⟨⟨fun q hq => (hnew q hq).1, ?_, ?_, ?_, fun hc => absurd rfl hc, fun hc => (by cases hc),
    fun hc => (by cases hc), fun hc => (by cases hc)⟩, ?_, ?_, ?_, ?_, ?_⟩, rfl⟩
  · intro q hq
    exact le_drainTimeoutOf (List.mem_map_of_mem hq) (hnew q hq).2.2.2.2.2
  · have hopen := hsum QueueLoop.isOpen 1 fun q hq => by
      rw [QueueLoop.isOpen, (hnew q hq).2.1]
      rfl
    change queues.length + 1 = (queues.map QueueLoop.isOpen).sum + 1
    rw [hopen, Nat.mul_one]
  · have hended := hsum (fun q => q.ended.length) 0 fun q hq => by
      rw [(hnew q hq).2.2.1]
      rfl
    have hprocesses := hsum (fun q => q.poll.processes.length) 0 fun q hq => by
      rw [(hnew q hq).2.2.2.1]
      rfl
    exact (Nat.zero_add _).trans (hended.trans hprocesses.symm)
  · intro e he
    cases he
  · intro i q hq
    obtain ⟨-, -, -, hprocesses, hphase, -⟩ := hnew q (List.mem_of_getElem? hq)
    rw [PollState.tasks, hprocesses, hphase]
    rfl
  · intro e he
    cases he
  · intro deadline hmain
    cases hmain
  · intro time hmain
    cases hmain

theorem history_run (h : newRun unicodePrint specs interval now = .ok w) {xs : List (RunEvent τ)}
    (hxs : AllSteps RunState.step RunState.ClaimsLimited w xs) :
    RunState.History (trace RunState.step w xs) (run RunState.step w xs) :=
  trace_invariant (history_new h).1 (fun _ _ _ hs hc => hs.step hc) hxs

/-- The shutdown of a worker is orderly. In no run does a goroutine find the semaphore
full or a wait group drop below zero. When `Run` has returned, the context was cancelled,
every claim loop has exited, and every task it claimed has gone to a goroutine of its own;
either all of these have ended, or the leases of all claims have run out unless they were
extended; and from then on no task is claimed or dispatched and nothing is purged. -/
theorem returned_worker_is_quiet (h : newRun unicodePrint specs interval now = .ok w)
    (xs : List (RunEvent τ)) (hxs : AllSteps RunState.step RunState.ClaimsLimited w xs) :
    let s := run RunState.step w xs
    let tr := trace RunState.step w xs
    (∀ e ∈ tr, e.output.isFault = false) ∧
      ∀ time, s.main = .returned time →
        s.cancelled = true ∧ (∀ q ∈ s.queues, q.loop = .exited) ∧
        (∀ i q, s.queues[i]? = some q →
          q.poll.processes.map Prod.fst = RunState.claimsOf i tr) ∧
        ((∀ q ∈ s.queues, ∀ p ∈ q.poll.processes, p.2 = .released) ∨
          ∀ e ∈ tr, ∀ t, RunState.LeaseEnds e t → t ≤ time) ∧
        ∀ ys, AllSteps RunState.step RunState.ClaimsLimited s ys →
          ∀ e ∈ trace RunState.step s ys, RunState.startsWork e.output = false := by
  intro s tr
  have hist : RunState.History tr s := history_run h hxs
  refine ⟨hist.faultless, ?_⟩
  intro time hmain
  have hpast : s.main.isPast = true := by rw [hmain]; rfl
  obtain ⟨hexited, -⟩ := hist.inv.exited_of_loops (hist.inv.past hpast)
  refine ⟨hist.inv.cancelled (by rw [hmain]; exact fun hc => by cases hc), hexited, ?_, ?_, ?_⟩
  · intro i q hq
    have hsound := hist.inv.sound q (List.mem_of_getElem? hq)
    have hidle : q.poll.phase.isIdle = true := by
      rw [← Bool.not_eq_false, ← hsound.polling_iff, hexited q (List.mem_of_getElem? hq)]
      exact fun hc => by cases hc
    have hpending : q.poll.phase.pending = [] := by
      cases hphase : q.poll.phase with
      | sending tasks =>
        rw [hphase] at hidle
        cases hidle
      | idle | granting | claiming => rfl
    have htasks := hist.tasks i q hq
    rw [PollState.tasks, hpending, List.append_nil] at htasks
    exact htasks
  · rcases hist.returned time hmain with hclosed | hends
    · exact Or.inl (hist.inv.all_released (hist.inv.closed hclosed).1)
    · exact Or.inr hends
  · intro ys hys
    -- a worker past its loops stays so
    have hstays : AllSteps RunState.step
        (fun s e => (s.Inv ∧ s.main.isPast = true) ∧ s.ClaimsLimited e) s ys := by
      refine AllSteps.with_invariant ⟨hist.inv, hpast⟩ ?_ hys
      rintro s' e ⟨hinv, hp⟩ hlimit
      have hs := hinv.stepped hlimit
      refine ⟨(hinv.of_stepped hs).1, ?_⟩
      cases hs.advanced with
      | same hmain => rw [hmain]; exact hp
      | joining hbefore =>
        rw [hbefore] at hp
        cases hp
      | draining hmain => rw [hmain]; rfl
      | returned _ _ hmain => rw [hmain]; rfl
    intro e he
    obtain ⟨⟨hinv, hp⟩, hlimit⟩ := allSteps_iff_trace.mp hstays e he
    rw [entry_of_mem_trace he]
    exact hinv.quiet hp (hinv.stepped hlimit)

end Start

def singleQueue : List LoopSpec :=
  [{ queue := "q", lease := 10, ttlSucceeded := 0, poll := ⟨5, 2, none⟩ }]

/-- The context is cancelled in the middle of a poll; the claim still goes out, and its
handler never ends. -/
def overrunEvents : List (RunEvent String) :=
  [.queue 0 .check, .queue 0 .enter, .queue 0 .allow, .queue 0 .allow, .sweepStart, .cancel,
    .pass 3, .queue 0 (.claim (some ["t"])), .mainDone, .queue 0 .send, .queue 0 (.begin 0 true),
    .queue 0 .done, .sweepDone, .joined, .pass 10, .drainTimer]

/-- `Run` returns when the lease of the task is over, and polls no more. -/
theorem returned_worker_is_quiet_overrun :
    ∃ w : RunState String, newRun (fun _ => true) singleQueue 30 0 = .ok w ∧
      (run RunState.step w overrunEvents).main = .returned 13 ∧
      RunState.claimsOf 0 (trace RunState.step w overrunEvents) = ["t"] ∧
      ∀ e ∈ trace RunState.step (run RunState.step w overrunEvents)
          [.queue 0 .check, .queue 0 .enter, .sweepCall],
        RunState.startsWork e.output = false := by
  obtain ⟨w, hw⟩ : ∃ w : RunState String, newRun (fun _ => true) singleQueue 30 0 = .ok w :=
    ⟨_, rfl⟩
  have hwithin : AllSteps RunState.step RunState.ClaimsLimited w overrunEvents := by
    cases hw
    decide
  have hmain : (run RunState.step w overrunEvents).main = .returned 13 := by
    cases hw
    decide
  have hlater : AllSteps RunState.step RunState.ClaimsLimited (run RunState.step w overrunEvents)
      [.queue 0 .check, .queue 0 .enter, .sweepCall] := by
    cases hw
    decide
  refine ⟨w, hw, hmain, ?_, ?_⟩
  · cases hw
    rfl
  · exact ((returned_worker_is_quiet hw overrunEvents hwithin).2 13 hmain).2.2.2.2 _ hlater

end Rdq.Engine
