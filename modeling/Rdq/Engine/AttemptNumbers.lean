import Rdq.Engine.MemFleet
import Rdq.MemStore.Lifecycle

/-!
# Attempt numbers on the memstore

Two components number attempts. A run numbers its outcome by the length of the
history it saw when it was claimed, and the fencing token makes sure that the
history is still that long when the outcome is accepted. A reclaimed lease is
numbered by the memstore from the retry budget, which is the length of the
history only as long as the task was never redriven. The numbers are therefore
1, 2, 3, … in every run of the fleet that never reclaims the lease of a redriven
task, and a single such reclaim repeats a number.
-/

namespace Rdq.Engine

open Rdq.Foundation
open MemStore (Record Store LifecycleInv mintToken mintToken_injective mintToken_ne_empty
  step_change)

/-! ## Live tokens and the history they were granted with -/

/-- A call that leaves the token of a task in place leaves its history alone,
unless it granted the token. -/
theorem attempts_of_token_kept {s : Store} {op : Op} {id : TaskID} {r' : Record} {n : Nat}
    (hr' : (MemStore.step s op).1.tasks.find? id = some r') (hn : n ≤ s.claimSeq)
    (ht : r'.token = mintToken n) :
    ∃ r, s.tasks.find? id = some r ∧ r.token = r'.token ∧ r.env.attempts = r'.env.attempts := by
  have hch := step_change s id op
  rw [hr'] at hch
  have hne : r'.token ≠ "" := ht ▸ mintToken_ne_empty n
  cases hr : s.tasks.find? id with
  | none =>
    rw [hr] at hch
    cases hch with
    | admitted => exact absurd rfl hne
  | some r =>
    rw [hr] at hch
    refine ⟨r, rfl, ?_⟩
    cases hch with
    | keep | extend => exact ⟨rfl, rfl⟩
    | claim _ c seq queue limit lease now _ _ _ _ _ htoken hlow =>
      -- a fresh grant carries a token past the counter
      rw [MemStore.token_claim, htoken] at ht
      have := mintToken_injective ht
      omega
    | reschedule | complete | deadLetter => exact absurd rfl hne
    | redrive _ n queue sel now =>
      exact ⟨(MemStore.token_redrive_iterate now (n + 1) r).symm,
        (MemStore.attempts_redrive_iterate now (n + 1) r).symm⟩

variable {W ρ : Type} [WorkerCode W ρ]

/-- The histories are numbered in order, and a run that holds the live token of
its task has seen the whole history. -/
structure NumberInv (f : MemFleet W) : Prop where
  lifecycle : LifecycleInv f.store
  numbered : ∀ id r, f.store.tasks.find? id = some r → Numbered r.env.attempts
  minted : ∀ (i : Nat) (run : Run W), f.runs[i]? = some run →
    ∃ n ≤ f.store.claimSeq, run.claim.token = mintToken n
  snapshot : ∀ (i : Nat) (run : Run W) (r : Record), f.runs[i]? = some run →
    f.store.tasks.find? run.claim.task.id = some r → r.token = run.claim.token →
    r.env.attempts = run.claim.task.attempts
  outcomes : f.OutcomesNumbered

/-- Tasks come in as `Submit` shapes them, and a poll reclaims no expired lease
of a task that was redriven. -/
structure NoRedrivenReclaim (f : MemFleet W) (ev : Event W ρ) : Prop where
  shaped : ∀ task, ev = .enqueue task → task.SubmitShaped
  reclaims : ∀ w limit now, ev = .poll w limit now →
    ∀ r ∈ f.store.dueRecords (WorkerCode.queue w) limit now, r.env.status = .inFlight →
      r.env.redriveCount = 0

namespace NumberInv
variable {f : MemFleet W} {ev : Event W ρ}

theorem new : NumberInv (MemFleet.new : MemFleet W) where
  lifecycle := LifecycleInv.new
  numbered := by
    intro id r hr
    cases hr
  minted := by
    intro i run hrun
    cases hrun
  snapshot := by
    intro i run r hrun
    cases hrun
  outcomes := by
    intro i run call hrun
    cases hrun

theorem lifecycle_step (h : NumberInv f) (hc : NoRedrivenReclaim f ev) :
    LifecycleInv (f.step ev).1.store := by
  rw [Fleet.stepWith_store]
  split
  · rename_i op hop
    refine h.lifecycle.step ?_
    rintro task rfl
    exact hc.shaped task (Fleet.storeCall?_enqueue hop)
  · exact h.lifecycle

/-- An accepted outcome continues the numbers of the history. -/
theorem numbered_outcome (h : NumberInv f) {op : Op} {r : Record} {token : ClaimToken}
    {att : Attempt} (hop : f.storeCall? ev = some op) (hout : op.outcome? = some (r.id, token))
    (hatt : OutcomeCall.recorded? op = some att)
    (hr : f.store.tasks.find? r.id = some r) (ht : r.token = token) :
    Numbered (r.env.attempts ++ [att]) := by
  obtain ⟨i, now, run, call, hrun, hphase, heq⟩ := Fleet.storeCall?_outcome hop hout
  have hsame : run.claim.task.id = r.id ∧ run.claim.token = token := by
    rw [heq] at hout
    cases call <;> simpa [OutcomeCall.op, Op.outcome?] using hout
  have hfind : f.store.tasks.find? run.claim.task.id = some r := by rw [hsame.1, hr]
  have hsnap := h.snapshot i run r hrun hfind (ht.trans hsame.2.symm)
  have hno := h.outcomes i run call hrun hphase
  rw [heq, OutcomeCall.recorded?_op] at hatt
  rw [Option.some.inj hatt] at hno
  refine (h.numbered _ r hr).concat ?_
  rw [hno, historyNo, hsnap]

/-- A claim numbers a reclaimed lease past the history, as long as the task was
never redriven. -/
theorem numbered_claim (h : NumberInv f) {r : Record} (hr : f.store.tasks.find? r.id = some r)
    (hcount : r.env.status = .inFlight → r.env.redriveCount = 0) (now : Time)
    (lease : Duration) (token : ClaimToken) :
    Numbered (r.claim now lease token).env.attempts := by
  have hnum := h.numbered _ r hr
  by_cases hst : r.env.status = .inFlight
  · have hlen := (h.lifecycle.records _ r hr).count_eq (hcount hst)
    simp only [Record.claim, hst, if_true, MemStore.appendAttempt]
    refine hnum.concat ?_
    simp only [MemStore.leaseExpiredAttempt, hlen]
  · simpa [Record.claim, hst] using hnum

theorem numbered_step (h : NumberInv f) (hc : NoRedrivenReclaim f ev) {id : TaskID}
    {r' : Record} (hr' : (f.step ev).1.store.tasks.find? id = some r') :
    Numbered r'.env.attempts := by
  rw [Fleet.stepWith_store] at hr'
  split at hr'
  · rename_i op hop
    have hch := step_change f.store id op
    rw [hr'] at hch
    cases hr : f.store.tasks.find? id with
    | none =>
      rw [hr] at hch
      cases hch with
      | admitted task htask =>
        subst htask
        have hshape := hc.shaped task (Fleet.storeCall?_enqueue hop)
        rw [hshape.no_attempts]
        exact Numbered.nil
    | some r =>
      rw [hr] at hch
      have hid : r.id = id := KeyedTable.key_of_find? hr
      have hnum := h.numbered id r hr
      rw [← hid] at hr
      cases hch with
      | keep | extend => exact hnum
      | claim _ c seq queue limit lease now hclaim _ _ _ _ _ _ _ _ hsel =>
        subst hclaim
        obtain ⟨w, hev, rfl⟩ := Fleet.storeCall?_claimDue hop
        exact h.numbered_claim hr (hc.reclaims w limit now hev r hsel) now lease c.token
      | reschedule _ token att nextAt hout _ _ ht =>
        subst hout
        exact h.numbered_outcome hop rfl rfl hr ht
      | complete _ token att now hout _ _ ht =>
        subst hout
        exact h.numbered_outcome hop rfl rfl hr ht
      | deadLetter _ token att now hout _ _ ht =>
        subst hout
        exact h.numbered_outcome hop rfl rfl hr ht
      | redrive _ n queue sel now =>
        rw [MemStore.attempts_redrive_iterate]
        exact hnum
  · exact h.numbered id r' hr'

theorem claimSeq_le_step (f : MemFleet W) (ev : Event W ρ) :
    f.store.claimSeq ≤ (f.step ev).1.store.claimSeq := by
  rw [Fleet.stepWith_store]
  split
  · rename_i op _
    have := (MemStore.step_grants f.store op).1
    omega
  · exact le_rfl

theorem minted_step (h : NumberInv f) (ev : Event W ρ) {i : Nat} {run : Run W}
    (hrun : (f.step ev).1.runs[i]? = some run) :
    ∃ n ≤ (f.step ev).1.store.claimSeq, run.claim.token = mintToken n := by
  rcases f.run_origin _ ev hrun with ⟨run₀, hrun₀, hcont⟩ | ⟨w, limit, now, c, hev, _, hc, rfl⟩
  · obtain ⟨n, hn, ht⟩ := h.minted i run₀ hrun₀
    refine ⟨n, hn.trans (claimSeq_le_step f ev), ?_⟩
    rw [hcont.claim, ht]
  · subst hev
    obtain ⟨n, _, hn, ht⟩ := MemStore.token_of_grant (List.mem_of_getElem? hc)
    exact ⟨n, hn, ht⟩

theorem snapshot_step (h : NumberInv f) (ev : Event W ρ) {i : Nat} {run : Run W} {r' : Record}
    (hrun : (f.step ev).1.runs[i]? = some run)
    (hr' : (f.step ev).1.store.tasks.find? run.claim.task.id = some r')
    (ht : r'.token = run.claim.token) : r'.env.attempts = run.claim.task.attempts := by
  rcases f.run_origin _ ev hrun with ⟨run₀, hrun₀, hcont⟩ | ⟨w, limit, now, c, _, _, hc, rfl⟩
  · rw [hcont.claim] at hr' ht ⊢
    rw [Fleet.stepWith_store] at hr'
    split at hr'
    · obtain ⟨n, hn, hmint⟩ := h.minted i run₀ hrun₀
      obtain ⟨r, hr, htok, hatt⟩ := attempts_of_token_kept hr' hn (ht.trans hmint)
      rw [← hatt]
      exact h.snapshot i run₀ r hrun₀ hr (htok.trans ht)
    · exact h.snapshot i run₀ r' hrun₀ hr' ht
  · obtain ⟨r, lease, now', _, _, htask, hnew⟩ := MemFleet.granted_spec (List.mem_of_getElem? hc)
    obtain rfl := Option.some.inj (hnew.symm.trans hr')
    exact congrArg Envelope.attempts htask.symm

theorem step (h : NumberInv f) (hc : NoRedrivenReclaim f ev) : NumberInv (f.step ev).1 where
  lifecycle := h.lifecycle_step hc
  numbered := fun _ _ hr => h.numbered_step hc hr
  minted := fun _ _ hrun => h.minted_step ev hrun
  snapshot := fun _ _ _ hrun hr ht => h.snapshot_step ev hrun hr ht
  outcomes := h.outcomes.stepWith _ ev

end NumberInv

/-- In every run of Go workers on the memstore that reclaims no expired lease of a redriven task,
the numbers of every history are 1, 2, 3, … in order. -/
theorem attempts_numbered {ε : Type} [HandlerError ε] (evs : List (GoEvent ε))
    (hall : AllSteps MemFleet.step NoRedrivenReclaim MemFleet.new evs) (id : TaskID) (r : Record)
    (hr : (MemFleet.after evs).store.tasks.find? id = some r) : Numbered r.env.attempts := by
  have hinv : NumberInv (MemFleet.after evs) :=
    run_invariant NumberInv.new (fun f ev h hc => h.step hc) hall
  exact hinv.numbered id r hr

/-- The first attempt fails, and the task is dead-lettered and redriven. -/
def failedOnce : List (GoEvent ErrorString) :=
  [.enqueue (.submitted "t" "q" "h" 0), .poll oneShotWorker 1 0, .route 0 0,
    .invoke 0 0, .finish 0 5 (some ⟨"timeout"⟩, 0), .write 0 5, .redrive "q" { ids := ["t"] } 10]

/-- The redriven task is run a second time and succeeds. -/
def triedAgain : List (GoEvent ErrorString) :=
  failedOnce ++ [.poll oneShotWorker 1 20, .route 1 20, .invoke 1 20, .finish 1 25 (none, 0),
    .write 1 25]

theorem attempts_numbered_triedAgain :
    ∃ r, (MemFleet.after triedAgain).store.tasks.find? "t" = some r ∧
      r.env.attempts.map Attempt.outcome = [.retryableFailure, .success] ∧
      Numbered r.env.attempts := by
  refine ⟨_, rfl, by decide, attempts_numbered triedAgain ?_ "t" _ rfl⟩
  refine ⟨⟨?_, ?_⟩, ⟨?_, ?_⟩, ⟨?_, ?_⟩, ⟨?_, ?_⟩, ⟨?_, ?_⟩, ⟨?_, ?_⟩, ⟨?_, ?_⟩, ⟨?_, ?_⟩, ⟨?_, ?_⟩,
    ⟨?_, ?_⟩, ⟨?_, ?_⟩, ⟨?_, ?_⟩, trivial⟩
  case refine_1 =>
    rintro task ⟨⟩
    exact Envelope.submitted_shaped "t" "q" "h" 0
  -- both polls find the task pending
  case refine_4 | refine_16 =>
    rintro w limit now ⟨⟩
    decide
  all_goals
    intros
    contradiction

/-- A worker claims the redriven task and stalls, and its lease is reclaimed:
the memstore gives the number 1 a second time. -/
theorem reclaim_after_redrive_repeats_number :
    ((MemFleet.after (failedOnce ++ [.poll oneShotWorker 1 20, .poll oneShotWorker 1 40])
      ).store.tasks.find? "t").map (fun r => r.env.attempts.map Attempt.attemptNo) =
        some [1, 1] := by
  decide

end Rdq.Engine
