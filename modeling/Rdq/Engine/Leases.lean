import Rdq.Engine.AttemptNumbers
import Rdq.Engine.Budget

/-!
# Leases that are renewed in time

`startHeartbeat` of the worker renews the lease of a running task at a third of its
length. A run that does so keeps its task: whatever the other workers, clients,
operators and stale runs do in between, no poll hands the task to anybody else and the
outcome call of the run is accepted. The store may even see two intervals pass without
a renewal, so one lost heartbeat does no harm.

The runs of a fleet never share a token. A call that carries the token of a run was
therefore made by this run, and only an expired lease can take the task away.
-/

namespace Rdq.Engine

open Rdq.Foundation
open MemStore (Store Record mintToken mintToken_injective mintToken_ne_empty step_change Live)

/-! ## The interval -/

/-- `heartbeatInterval` of `core/engine/worker.go`. -/
def heartbeatInterval (lease : Duration) : Duration :=
  let iv := lease.tdiv 3
  let iv := if iv ≤ 0 then lease else iv
  if iv ≤ 0 then 1000000000 else iv

/-- Two intervals fit into a lease, except for leases of one or two nanoseconds. -/
theorem two_heartbeatIntervals_lt {lease : Int} (h : 3 ≤ lease) :
    2 * heartbeatInterval lease < lease := by
  have hdiv : lease.tdiv 3 = lease / 3 := Int.tdiv_eq_ediv_of_nonneg (by omega)
  have hpos : ¬ lease / 3 ≤ 0 := by omega
  simp only [heartbeatInterval, hdiv, if_neg hpos]
  change 2 * (lease / 3) < lease
  omega

namespace MemFleet
variable {W ρ : Type} [WorkerCode W ρ]

variable {f : MemFleet W} {i : Nat} {w : W} {c : Claimed}

/-- The tokens of the runs, by the numbers of the runs. -/
def tokens (f : MemFleet W) : List ClaimToken := f.runs.map fun r => r.claim.token

/-- Every run has a token of its own, and the store has minted it. -/
structure TokensOwn (f : MemFleet W) : Prop where
  nodup : f.tokens.Nodup
  minted : ∀ token ∈ f.tokens, ∃ n ≤ f.store.claimSeq, token = mintToken n

theorem tokens_step (f : MemFleet W) (ev : Event W ρ) :
    (f.step ev).1.tokens = f.tokens ∨ ∃ w limit now, ev = .poll w limit now ∧
      (f.step ev).1.tokens = f.tokens ++ (f.claims ev).map Claimed.token := by
  have htokens : ∀ g : MemFleet W, g.tokens = g.runClaims.map Claimed.token := by
    intro g
    rw [Fleet.runClaims, List.map_map]
    rfl
  rcases f.runClaims_stepWith (MemStore.step f.store) ev with heq | ⟨w, limit, now, hev, heq⟩
  · left
    rw [htokens, htokens]
    exact congrArg (List.map Claimed.token) heq
  · right
    refine ⟨w, limit, now, hev, ?_⟩
    rw [htokens, htokens, ← List.map_append]
    exact congrArg (List.map Claimed.token) heq

theorem TokensOwn.step (h : f.TokensOwn) (ev : Event W ρ) :
    (f.step ev).1.TokensOwn := by
  have hle := NumberInv.claimSeq_le_step f ev
  rcases f.tokens_step ev with heq | ⟨w, limit, now, rfl, heq⟩
  · refine ⟨heq ▸ h.nodup, ?_⟩
    intro token ht
    obtain ⟨n, hn, rfl⟩ := h.minted token (heq ▸ ht)
    exact ⟨n, hn.trans hle, rfl⟩
  · have hgrant : ∀ token ∈ (f.claims (.poll w limit now : Event W ρ)).map Claimed.token,
        ∃ n, f.store.claimSeq < n ∧ n ≤ (f.step (.poll w limit now : Event W ρ)).1.store.claimSeq ∧
          token = mintToken n := by
      intro token ht
      obtain ⟨c, hc, rfl⟩ := List.mem_map.mp ht
      exact MemStore.token_of_grant hc
    refine ⟨?_, ?_⟩
    · rw [heq, List.nodup_append]
      refine ⟨h.nodup, ?_, ?_⟩
      · exact ((MemStore.step_grants f.store _).2.1 ▸
          (List.nodup_range' _).map mintToken_injective :)
      · rintro token ht token' ht' rfl
        obtain ⟨m, hm, heqm⟩ := h.minted token ht
        obtain ⟨n, hn, -, heqn⟩ := hgrant token ht'
        have := mintToken_injective (heqm.symm.trans heqn)
        omega
    · intro token ht
      rw [heq, List.mem_append] at ht
      rcases ht with ht | ht
      · obtain ⟨n, hn, rfl⟩ := h.minted token ht
        exact ⟨n, hn.trans hle, rfl⟩
      · obtain ⟨n, -, hn, rfl⟩ := hgrant token ht
        exact ⟨n, hn, rfl⟩

theorem tokensOwn_after (evs : List (Event W ρ)) : (after evs : MemFleet W).TokensOwn := by
  refine run_invariant (P := TokensOwn) (c := fun _ _ => True) ?_ (fun f ev hf _ => hf.step ev)
    (allSteps_of_forall (c := fun _ => True) (fun _ _ => trivial) _)
  exact ⟨List.nodup_nil, fun _ h => by cases h⟩

/-- Runs with the same token are the same run. -/
theorem TokensOwn.index_eq (h : f.TokensOwn) {i j : Nat} {r r' : Run W} (hr : f.runs[i]? = some r)
    (hr' : f.runs[j]? = some r') (ht : r.claim.token = r'.claim.token) : i = j := by
  have hi : f.tokens[i]? = some r.claim.token := by simp [tokens, hr]
  have hj : f.tokens[j]? = some r.claim.token := by simp [tokens, hr', ht]
  obtain ⟨hlt, -⟩ := List.getElem?_eq_some_iff.mp hi
  exact (List.getElem?_inj hlt h.nodup).mp (hi.trans hj.symm)

/-! ## One event and the lease of a run -/

/-- Run `i` of worker `w` has the lease of the task it claimed, until `expiry`. -/
structure Holds (f : MemFleet W) (i : Nat) (w : W) (c : Claimed) (expiry : Time) : Prop where
  run : ∃ r, f.runs[i]? = some r ∧ r.worker = w ∧ r.claim = c
  record : ∃ rec, f.store.tasks.find? c.task.id = some rec ∧ rec.env.status = .inFlight ∧
    rec.token ≠ "" ∧ rec.token = c.token ∧ rec.env.leaseExpiresAt = some expiry ∧
    rec.env.queue = WorkerCode.queue w

theorem Holds.live {expiry : Time} (h : f.Holds i w c expiry) : Live f.store c.task.id c.token := by
  obtain ⟨rec, hrec, hst, hne, ht, -⟩ := h.record
  exact ⟨rec, hrec, hst, hne, ht⟩

/-- The clock reading at which an event renews the lease of run `i`, if it does. -/
def renewal? (f : MemFleet W) (i : Nat) (ev : Event W ρ) : Option Time :=
  match ev with
  | .heartbeat j now => if j = i ∧ (f.storeCall? ev).isSome = true then some now else none
  | _ => none

/-- The event is no poll of the queue after `latest`, and not the outcome call of run `i`. -/
def Punctual (i : Nat) (queue : String) (latest : Time) : Event W ρ → Prop
  | .poll v _ now => WorkerCode.queue v = queue → now ≤ latest
  | .write j _ => j ≠ i
  | _ => True

/-- A lease that has not run out is not due. -/
theorem Holds.not_due {expiry now : Time} (h : f.Holds i w c expiry) (hnow : now < expiry)
    {rec : Record} (hrec : f.store.tasks.find? c.task.id = some rec) :
    MemStore.isDue rec now = false := by
  obtain ⟨rec', hrec', hst, -, -, hexp, -⟩ := h.record
  obtain rfl := Option.some.inj (hrec'.symm.trans hrec)
  simp [MemStore.isDue, hst, hexp, hnow]

/-- An event that comes in time does not grant the task of the run. -/
theorem Holds.not_granted {expiry latest : Time} (h : f.Holds i w c expiry)
    (hlatest : latest < expiry) {ev : Event W ρ} (hev : Punctual i (WorkerCode.queue w) latest ev) :
    ∀ c' ∈ f.claims ev, c'.task.id ≠ c.task.id := by
  intro c' hc' hid
  unfold claims Fleet.claims at hc'
  split at hc'
  · rename_i op hop
    obtain ⟨rec, queue, limit, lease, now, rfl, hrec, hqueue, hdue, -⟩ :=
      MemStore.step_granted hc'
    obtain ⟨v, rfl, rfl⟩ := Fleet.storeCall?_claimDue hop
    rw [hid] at hrec
    obtain ⟨rec', hrec', -, -, -, -, hq⟩ := h.record
    obtain rfl := Option.some.inj (hrec'.symm.trans hrec)
    have hnow : now ≤ latest := hev (hqueue.symm.trans hq)
    rw [h.not_due (lt_of_le_of_lt hnow hlatest) hrec] at hdue
    cases hdue
  · cases hc'

/-- With the live token of its task a heartbeat is accepted and renews the lease. -/
theorem step_extendLease_of_live {s : Store} {id : TaskID} {rec : Record}
    (hrec : s.tasks.find? id = some rec) (hst : rec.env.status = .inFlight)
    (hne : rec.token ≠ "") (lease : Duration) (now : Time) :
    (MemStore.step s (.extendLease id rec.token lease now)).1.tasks.find? id =
        some (rec.extendLease now lease) ∧
      (MemStore.step s (.extendLease id rec.token lease now)).2 = .done := by
  have hres : s.resolveClaim id rec.token = .ok rec := by
    simp [Store.resolveClaim, hrec, hst, hne]
  simp [MemStore.step, Store.extendLease, hres, Reply.ofUnit, hrec]

/-- An event that renews the lease of a run is its heartbeat. -/
theorem renewal?_eq_some {ev : Event W ρ} {now : Time} (h : f.renewal? i ev = some now) {r : Run W}
    (hr : f.runs[i]? = some r) :
    ev = .heartbeat i now ∧ f.storeCall? ev = some
      (.extendLease r.claim.task.id r.claim.token (WorkerCode.lease r.worker) now) := by
  unfold renewal? at h
  split at h
  · rename_i j now'
    split at h
    · rename_i hj
      obtain ⟨rfl, hsome⟩ := hj
      cases h
      obtain ⟨op, hop⟩ := Option.isSome_iff_exists.mp hsome
      obtain ⟨r', hr', hcall⟩ := Option.bind_eq_some_iff.mp hop
      obtain rfl := Option.some.inj (hr.symm.trans hr')
      refine ⟨rfl, hop.trans ?_⟩
      unfold Run.heartbeatCall? at hcall
      split at hcall
      · exact hcall.symm
      · cases hcall
    · cases h
  · cases h

section Step
variable {f : MemFleet W} {i : Nat} {w : W} {c : Claimed} {last latest : Time} {ev : Event W ρ}

/-- A call that is not a renewal leaves the record of the run as it is. -/
theorem Holds.record_kept (hown : f.TokensOwn) (h : f.Holds i w c (last + WorkerCode.lease w))
    (hlatest : latest < last + WorkerCode.lease w)
    (hev : Punctual i (WorkerCode.queue w) latest ev) (hren : f.renewal? i ev = none) :
    (f.step ev).1.store.tasks.find? c.task.id = f.store.tasks.find? c.task.id := by
  obtain ⟨r, hr, rfl, rfl⟩ := h.run
  obtain ⟨rec, hrec, hst, hne, ht, -, hq⟩ := h.record
  rw [Fleet.stepWith_store]
  cases hcall : f.storeCall? ev with
  | none => rfl
  | some op =>
    -- a call with the token of this run could only be its heartbeat or its outcome call
    have hforeign : op.fenced? ≠ some (rec.id, rec.token) := by
      intro hx
      obtain ⟨j, now, r', hr', hx', hor⟩ := Fleet.storeCall?_fenced hcall hx
      obtain rfl : i = j := hown.index_eq hr hr' (ht.symm.trans (Prod.mk.inj hx').2)
      rcases hor with ⟨rfl, -⟩ | rfl
      · simp [renewal?, hcall] at hren
      · exact absurd rfl hev
    have hchange := step_change f.store r.claim.task.id op
    rw [hrec] at hchange ⊢
    generalize hpost : (MemStore.step f.store op).1.tasks.find? r.claim.task.id = post
      at hchange ⊢
    cases hchange with
    | keep => rfl
    | claim _ c' seq queue limit lease now hop hdue hqueue =>
      subst hop
      obtain ⟨v, rfl, rfl⟩ := Fleet.storeCall?_claimDue hcall
      have hnow : now ≤ latest := hev (hqueue.symm.trans hq)
      rw [h.not_due (lt_of_le_of_lt hnow hlatest) hrec] at hdue
      cases hdue
    | extend _ token lease now hop _ _ htoken =>
      subst hop htoken
      exact absurd rfl hforeign
    | reschedule _ token att nextAt hop _ _ htoken =>
      subst hop htoken
      exact absurd rfl hforeign
    | complete _ token att now hop _ _ htoken =>
      subst hop htoken
      exact absurd rfl hforeign
    | deadLetter _ token att now hop _ _ htoken =>
      subst hop htoken
      exact absurd rfl hforeign
    | redrive _ n queue sel now hop hdead => rw [hst] at hdead; cases hdead
    | purge _ queue sel hop hdead => rw [hst] at hdead; cases hdead
    | sweep _ queue olderThan hop hdone => rw [hst] at hdone; cases hdone

/-- The run keeps its lease over an event in time, from its last renewal on. -/
theorem holds_step (hown : f.TokensOwn) (h : f.Holds i w c (last + WorkerCode.lease w))
    (hlatest : latest < last + WorkerCode.lease w)
    (hev : Punctual i (WorkerCode.queue w) latest ev) :
    (f.step ev).1.Holds i w c ((f.renewal? i ev).getD last + WorkerCode.lease w) := by
  obtain ⟨r, hr, hw, hc⟩ := h.run
  obtain ⟨r', hr', hcont⟩ := f.run_continues (MemStore.step f.store) ev hr
  refine ⟨⟨r', hr', hcont.worker.trans hw, hcont.claim.trans hc⟩, ?_⟩
  obtain ⟨rec, hrec, hst, hne, ht, hexp, hq⟩ := h.record
  cases hren : f.renewal? i ev with
  | none =>
    rw [h.record_kept hown hlatest hev hren]
    exact ⟨rec, hrec, hst, hne, ht, hexp, hq⟩
  | some now =>
    obtain ⟨-, hcall⟩ := renewal?_eq_some hren hr
    rw [hw, hc, ← ht] at hcall
    rw [Fleet.stepWith_store, hcall]
    exact ⟨_, (step_extendLease_of_live hrec hst hne _ now).1, hst, hne, ht, rfl, hq⟩

end Step

/-! ## Whole runs -/

/-- Along the events the store is polled for the queue at most `gap` after the last renewal
of run `i`, at `last` to begin with, and the run does not write its outcome. -/
def Renewed (i : Nat) (queue : String) (gap : Duration) :
    MemFleet W → Time → List (Event W ρ) → Prop
  | _, _, [] => True
  | f, last, ev :: evs => Punctual i queue (last + gap) ev ∧
      Renewed i queue gap (f.step ev).1 ((f.renewal? i ev).getD last) evs

/-- A granted claim starts a run that has the lease. -/
theorem holds_of_poll (past : List (Event W ρ)) (w : W) (limit : Int) (t : Time) {k : Nat}
    (hc : ((after past).claims (.poll w limit t : Event W ρ))[k]? = some c) :
    (after (past ++ [.poll w limit t])).Holds ((after past).runs.length + k) w c
      (t + WorkerCode.lease w) := by
  rw [after, run_concat]
  change ((after past).step (.poll w limit t)).1.Holds _ w c _
  refine ⟨⟨Run.start w c, ?_, rfl, rfl⟩, ?_⟩
  · rw [Fleet.stepWith_runs, Fleet.nextRuns, List.getElem?_append_right (by omega),
      Nat.add_sub_cancel_left, List.getElem?_map]
    exact congrArg (Option.map (Run.start w)) hc
  · obtain ⟨rec, queue, limit', lease, now, hop, -, hq, -, -, hrec⟩ :=
      MemStore.step_granted (List.mem_of_getElem? hc)
    cases hop
    obtain ⟨n, -, -, hn⟩ := MemStore.token_of_grant (List.mem_of_getElem? hc)
    refine ⟨_, hrec, rfl, ?_, rfl, ?_, ?_⟩
    · rw [MemStore.token_claim, hn]
      exact mintToken_ne_empty n
    · rfl
    · rw [← hq]
      simp only [Record.claim]
      split <;> rfl

/-- What a run is owed as long as it has the lease: nobody else is granted its task, and
no heartbeat of it is refused. -/
structure Undisturbed (i : Nat) (c : Claimed) (e : Entry (MemFleet W) (Event W ρ) Note) :
    Prop where
  granted : ∀ c' ∈ e.pre.claims e.input, c'.task.id ≠ c.task.id
  renewed : ∀ now, e.input = .heartbeat i now → e.output ≠ .answered (.failed .staleClaim)

theorem Holds.undisturbed {expiry latest : Time} (h : f.Holds i w c expiry)
    (hlatest : latest < expiry) {ev : Event W ρ} (hev : Punctual i (WorkerCode.queue w) latest ev) :
    Undisturbed i c (entry step f ev) := by
  refine ⟨h.not_granted hlatest hev, ?_⟩
  rintro now rfl hout
  obtain ⟨r, hr, rfl, rfl⟩ := h.run
  obtain ⟨rec, hrec, hst, hne, ht, -⟩ := h.record
  simp only [entry, Fleet.stepWith] at hout
  cases hcall : f.storeCall? (.heartbeat i now : Event W ρ) with
  | none =>
    rw [hcall] at hout
    cases hout
  | some op =>
    have hren : f.renewal? i (.heartbeat i now : Event W ρ) = some now := by
      simp [renewal?, hcall]
    obtain ⟨-, hcall'⟩ := renewal?_eq_some hren hr
    rw [hcall', ← ht] at hout
    have hdone := (step_extendLease_of_live hrec hst hne (WorkerCode.lease r.worker) now).2
    rw [Note.answered.injEq, hdone] at hout
    cases hout

/-- The outcome call of a run that has the lease is accepted. -/
theorem Holds.write_accepted {expiry : Time} (h : f.Holds i w c expiry) {r : Run W}
    (hr : f.runs[i]? = some r) {call : OutcomeCall} (hphase : r.phase = .writing call)
    (now : Time) :
    (f.step (.write i now : Event W ρ)).2 = .answered .done := by
  obtain ⟨r', hr', -, hclaim⟩ := h.run
  obtain rfl := Option.some.inj (hr'.symm.trans hr)
  have hcall : f.storeCall? (.write i now : Event W ρ) =
      some (call.op r'.claim.task.id r'.claim.token now) := by
    simp [Fleet.storeCall?, hr, Run.outcomeCall?, hphase]
  simp only [step, Fleet.stepWith, hcall, hclaim]
  exact congrArg Note.answered
    (MemStore.step_done_of_live (OutcomeCall.outcome?_op call _ _ now) h.live)

/-- A run whose lease is renewed in time keeps it, undisturbed, over any events. -/
theorem holds_run {gap : Duration} (hgap : gap < WorkerCode.lease w) {evs : List (Event W ρ)} :
    ∀ {f : MemFleet W} {last : Time}, f.TokensOwn → f.Holds i w c (last + WorkerCode.lease w) →
      Renewed i (WorkerCode.queue w) gap f last evs →
      (∀ e ∈ trace step f evs, Undisturbed i c e) ∧
        ∃ last', (run step f evs).Holds i w c (last' + WorkerCode.lease w) := by
  induction evs with
  | nil =>
    intro f last _ h _
    refine ⟨?_, last, h⟩
    intro e he
    cases he
  | cons ev evs ih =>
    rintro f last hown h ⟨hev, hrest⟩
    have hlatest : last + gap < last + WorkerCode.lease w := by
      exact Int.add_lt_add_left hgap last
    obtain ⟨htrace, hend⟩ := ih (hown.step ev) (holds_step hown h hlatest hev) hrest
    refine ⟨?_, hend⟩
    intro e he
    rcases List.mem_cons.mp he with rfl | he
    · exact h.undisturbed hlatest hev
    · exact htrace e he

end MemFleet

section Go
variable {ε : Type} [HandlerError ε]

/-- A worker whose heartbeats reach the store keeps its task. As long as no poll of the queue
comes later than two heartbeat intervals after the last renewal, whatever else happens, the
task is granted to nobody else, no heartbeat of the run is refused, and its outcome call is
accepted. -/
theorem renewed_lease_is_kept (past evs : List (GoEvent ε)) (w : Worker ε)
    (hlease : 3 ≤ w.spec.lease) (limit : Int) (t : Time) (k : Nat) (c : Claimed)
    (hc : ((MemFleet.after past).claims (.poll w limit t : GoEvent ε))[k]? = some c)
    (h : MemFleet.Renewed ((MemFleet.after past).runs.length + k) w.spec.queue
      (2 * heartbeatInterval w.spec.lease) (MemFleet.after (past ++ [.poll w limit t])) t evs) :
    (∀ e ∈ trace MemFleet.step (MemFleet.after (past ++ [.poll w limit t])) evs,
        MemFleet.Undisturbed ((MemFleet.after past).runs.length + k) c e) ∧
      ∀ r call now,
        (MemFleet.after (past ++ [.poll w limit t] ++ evs)).runs[
            (MemFleet.after past).runs.length + k]? = some r →
        r.phase = .writing call →
        ((MemFleet.after (past ++ [.poll w limit t] ++ evs)).step
          (.write ((MemFleet.after past).runs.length + k) now : GoEvent ε)).2 =
            .answered .done := by
  obtain ⟨htrace, last, hend⟩ := MemFleet.holds_run (two_heartbeatIntervals_lt hlease)
    (MemFleet.tokensOwn_after _) (MemFleet.holds_of_poll past w limit t hc) h
  refine ⟨htrace, ?_⟩
  intro r call now hr hphase
  rw [MemFleet.after, run_append] at hr ⊢
  exact hend.write_accepted hr hphase now

end Go

/-- A worker of queue `q` that renews its leases. -/
def renewingWorker : Worker ErrorString :=
  { oneShotWorker with
    spec := { oneShotWorker.spec with lease := 30, heartbeat := true, lease_pos := by decide } }

/-- A task is waiting in the queue. -/
def oneWaiting : List (GoEvent ErrorString) :=
  [.enqueue (.submitted "t" "q" "h" 0)]

/-- After one heartbeat another worker polls when the first lease would have run out. -/
def renewedOnce : List (GoEvent ErrorString) :=
  [.route 0 0, .invoke 0 0, .heartbeat 0 10, .poll oneShotWorker 5 30, .finish 0 31 (none, 0)]

theorem renewed_lease_is_kept_once :
    ((MemFleet.after (oneWaiting ++ [.poll renewingWorker 1 0] ++ renewedOnce)).step
      (.write 0 32 : GoEvent ErrorString)).2 = .answered .done := by
  have hc : ∃ c, ((MemFleet.after oneWaiting).claims
      (.poll renewingWorker 1 0 : GoEvent ErrorString))[0]? = some c :=
    Option.isSome_iff_exists.mp (by decide +kernel)
  obtain ⟨c, hc⟩ := hc
  have hrun : ∃ r, (MemFleet.after (oneWaiting ++ [.poll renewingWorker 1 0] ++
      renewedOnce)).runs[0]? = some r := Option.isSome_iff_exists.mp (by decide +kernel)
  obtain ⟨r, hr⟩ := hrun
  have hphase : (MemFleet.after (oneWaiting ++ [.poll renewingWorker 1 0] ++
      renewedOnce)).runs[0]?.map Run.phase = some (.writing (.complete
        { attemptNo := 1, startedAt := 0, finishedAt := some 31, outcome := .success })) := by
    decide +kernel
  rw [hr] at hphase
  refine (renewed_lease_is_kept oneWaiting renewedOnce renewingWorker (by decide) 1 0 0 c
    hc ?_).2 r _ 32 hr (Option.some.inj hphase)
  exact ⟨trivial, trivial, trivial, fun _ => by decide +kernel, trivial, trivial⟩

end Rdq.Engine
