import Rdq.Engine.Budget
import Rdq.Postgres.AttemptNumbers

/-!
# A task that is attended to comes to an end

A worker whose outcome call is refused can do nothing more for its task: the claim
expires, the task is claimed again, and if the next call is refused for the same
reason, the task never ends. The attempts of the Go worker are numbered past the
history, and not by the retry budget, because a redriven task was wedged that way.

Here the store, the workers of both languages and the retry budget are taken
together. Whatever happened before, a task that has not ended can be claimed from
some time on. If its claims are carried through from then on, one at a time, by a
worker of its queue, every outcome call is accepted, and as every outcome is charged
to the budget, a bounded number of claims ends the task. That worker is a Go worker:
a Java worker that meets a `payload_ref` in its batch claims nothing.
-/

namespace Rdq.Postgres

open Rdq.Foundation Rdq.Engine

variable {db : Database} {ch : Choice} {op : Op} {limit : Int} {now : Time} {r : TaskRow}

/-! ## The row of a task -/

namespace TaskRow

/-- `r'` is `r` up to the time its lease expires. -/
structure SameClaim (r r' : TaskRow) : Prop where
  queue : r'.queue = r.queue
  status : r'.status = r.status
  claimToken : r'.claimToken = r.claimToken
  attemptCount : r'.attemptCount = r.attemptCount

theorem SameClaim.refl (r : TaskRow) : r.SameClaim r := ⟨rfl, rfl, rfl, rfl⟩

theorem SameClaim.fenced {r r' : TaskRow} (h : r.SameClaim r') {token : ClaimToken}
    (hf : r.Fenced token) : r'.Fenced token :=
  ⟨h.status.trans hf.1, h.claimToken.trans hf.2⟩

theorem Fenced.token_eq {token token' : ClaimToken} (h : r.Fenced token) (h' : r.Fenced token') :
    token = token' :=
  Option.some.inj (h.2.symm.trans h'.2)

/-- The row has the time it waits for. -/
structure Timed (r : TaskRow) : Prop where
  alive : r.status ≠ .dead
  pending : r.status = .pending → r.nextAttemptAt ≠ none
  inFlight : r.status = .inFlight → r.leaseExpiresAt ≠ none

/-- A row that waits for a time can be claimed from then on. -/
theorem Timed.due (h : r.Timed) (hopen : r.status ≠ .succeeded) :
    ∃ t : Time, ∀ now, t ≤ now → r.isDue now = true := by
  cases hst : r.status with
  | pending =>
    obtain ⟨t, ht⟩ := Option.ne_none_iff_exists'.mp (h.pending hst)
    refine ⟨t, fun now hnow => ?_⟩
    simp only [isDue, hst, ht, Option.any_some]
    exact decide_eq_true hnow
  | inFlight =>
    obtain ⟨t, ht⟩ := Option.ne_none_iff_exists'.mp (h.inFlight hst)
    refine ⟨t, fun now hnow => ?_⟩
    simp only [isDue, hst, ht, Option.any_some]
    exact decide_eq_true hnow
  | succeeded => exact absurd hst hopen
  | dead => exact absurd hst h.alive

theorem status_of_isDue (h : r.isDue now = true) :
    r.status ≠ .succeeded := by
  intro hst
  simp only [isDue, hst] at h
  cases h

end TaskRow

/-- Every call leaves the row of the task with the time it waits for, if only tasks
come in that have one. -/
theorem timed_step {id : TaskID} (h : ∀ r, db.task.find? id = some r → r.Timed)
    (hnew : ∀ task, op = .enqueue task → task.id = id →
      task.status = .pending ∧ task.nextAttemptAt ≠ none) :
    ∀ r, (step db ch op).1.task.find? id = some r → r.Timed := by
  have hch := step_change db ch id op
  change ∀ r, (db.view id).task = some r → r.Timed at h
  change ∀ r, ((step db ch op).1.view id).task = some r → r.Timed
  generalize (step db ch op).1.view id = v' at hch
  generalize db.view id = v at h hch
  cases hch with
  | keep => exact h
  | admitted task atts hop hid =>
    rintro r ⟨⟩
    obtain ⟨hst, hnext⟩ := hnew task hop hid
    refine ⟨?_, fun _ => hnext, ?_⟩
    · simp only [taskRowFromEnvelope, hst]
      decide
    · simp only [taskRowFromEnvelope, hst]
      intro hc
      cases hc
  | claim =>
    rintro _ ⟨⟩
    exact ⟨(fun hc => by cases hc), (fun hc => by cases hc), fun _ => Option.some_ne_none _⟩
  | extend r d atts token lease now hop hfenced =>
    rintro _ ⟨⟩
    exact ⟨(fun hc => by cases hfenced.1.symm.trans hc),
      (fun hc => by cases hfenced.1.symm.trans hc), fun _ => Option.some_ne_none _⟩
  | reschedule | redrive =>
    rintro _ ⟨⟩
    exact ⟨(fun hc => by cases hc), fun _ => Option.some_ne_none _, (fun hc => by cases hc)⟩
  | complete =>
    rintro _ ⟨⟩
    exact ⟨(fun hc => by cases hc), (fun hc => by cases hc), (fun hc => by cases hc)⟩
  | purge => exact h
  | deadLetter | sweep =>
    intro r hc
    cases hc

/-! ## Calls that hold the live claim -/

section Fenced
variable {db : Database} {id : TaskID} {token : ClaimToken} {r : TaskRow}

/-- A fenced update with the live claim takes place, or its attempt number is taken. -/
theorem spendClaim_cases (hr : db.task.find? id = some r) (hfenced : r.Fenced token)
    (att : Attempt) (f : TaskRow → TaskRow) (hf : ∀ r, (f r).id = r.id) :
    (db.spendClaim id token att f hf).2 = .ok () ∧
        (db.spendClaim id token att f hf).1.task.find? id = some (f r) ∨
      ∃ context, (db.spendClaim id token att f hf).2 = .error (.uniqueViolation context) := by
  unfold Database.spendClaim
  rw [fenced_eq_some hr hfenced]
  dsimp only
  split
  · rename_i db' hins
    obtain ⟨-, rfl⟩ := insertAttempt_eq_some_iff.mp hins
    refine Or.inl ⟨rfl, ?_⟩
    rw [KeyedTable.find?_modify_self, hr, Option.map_some]
  · exact Or.inr ⟨_, rfl⟩

/-- A dead-lettering with the live claim takes place, or a constraint refuses it. -/
theorem deadLetter_cases (hr : db.task.find? id = some r) (hfenced : r.Fenced token)
    (att : Attempt) (now : Time) :
    (db.deadLetter id token att now).2 = .ok () ∧
        (db.deadLetter id token att now).1.task.find? id = none ∨
      ∃ context, (db.deadLetter id token att now).2 = .error (.uniqueViolation context) := by
  unfold Database.deadLetter
  rw [fenced_eq_some hr hfenced]
  dsimp only
  split
  · split
    · rename_i db' hins
      obtain ⟨-, rfl⟩ := insertAttempt_eq_some_iff.mp hins
      exact Or.inl ⟨rfl, KeyedTable.find?_erase_self _ _⟩
    · exact Or.inr ⟨_, rfl⟩
  · exact Or.inr ⟨_, rfl⟩

end Fenced

/-! ## Grants -/

section Grants
variable {W ρ : Type} [WorkerCode W ρ] [PgBinding W]

/-- The claims an event is granted. -/
abbrev PgFleet.claims (f : PgFleet W) (x : Event W ρ × Choice) : List Claimed :=
  Fleet.claims (Postgres.step f.store (f.chosen x)) f x.1

/-- The event claims the task. -/
def Grants (id : TaskID) (f : PgFleet W) (x : Event W ρ × Choice) : Prop :=
  ∃ c ∈ f.claims x, c.task.id = id

instance (id : TaskID) (f : PgFleet W) (x : Event W ρ × Choice) : Decidable (Grants id f x) :=
  inferInstanceAs (Decidable (∃ c ∈ _, _))

/-- The claims of one call are for the rows it took, in this order. -/
theorem claims_ids {queue : String} {lease : Duration} (hlimit : 0 < limit) :
    ((step db ch (.claimDue queue limit lease now)).2.claims.map fun c => c.task.id) =
      (db.dueRows queue limit now ch.scan).map TaskRow.id := by
  obtain ⟨db', heq, -⟩ := claimDue_spec db queue hlimit lease now ch
  simp only [step, heq, Prod.map_snd, Reply.ofClaims, Reply.claims, List.map_map]
  rfl

/-- Only a claim grants anything. -/
theorem claimDue_of_claims_ne_nil (h : (step db ch op).2.claims ≠ []) :
    ∃ queue limit lease now, op = .claimDue queue limit lease now ∧ 0 < limit := by
  cases op with
  | claimDue queue limit lease now =>
    refine ⟨queue, limit, lease, now, rfl, ?_⟩
    by_contra hlimit
    apply h
    simp [step, Database.claimDue, not_lt.mp hlimit, Reply.ofClaims, Reply.claims]
  | enqueue | extendLease | reschedule | complete | deadLetter =>
    exfalso
    apply h
    simp only [step, Prod.map_snd, Reply.ofUnit]
    split <;> rfl
  | redrive =>
    exfalso
    apply h
    simp only [step, Prod.map_snd, Reply.ofCount]
    split <;> rfl
  | purge | purgeSucceeded => exact absurd rfl h

theorem step_claims_nodup (db : Database) (ch : Choice) (op : Op) :
    ((step db ch op).2.claims.map fun c => c.task.id).Nodup := by
  by_cases hnil : (step db ch op).2.claims = []
  · rw [hnil]
    exact List.nodup_nil
  · obtain ⟨queue, limit, lease, now, rfl, hlimit⟩ := claimDue_of_claims_ne_nil hnil
    rw [claims_ids hlimit]
    exact dueRows_ids_nodup

/-- Only a poll claims a task. -/
theorem Grants.poll {id : TaskID} {f : PgFleet W} {x : Event W ρ × Choice}
    (h : Grants id f x) : ∃ w limit now, x.1 = .poll w limit now := by
  obtain ⟨c, hc, -⟩ := h
  unfold PgFleet.claims Fleet.claims at hc
  split at hc
  · rename_i op hop
    obtain ⟨queue, limit, lease, now, rfl, -⟩ := claimDue_of_claims_ne_nil (List.ne_nil_of_mem hc)
    obtain ⟨w, hev, -⟩ := Fleet.storeCall?_claimDue hop
    exact ⟨w, limit, now, hev⟩
  · cases hc

theorem PgFleet.claims_ids_nodup (f : PgFleet W) (x : Event W ρ × Choice) :
    ((f.claims x).map fun c => c.task.id).Nodup := by
  unfold PgFleet.claims Fleet.claims
  split
  · exact step_claims_nodup f.store (f.chosen x) _
  · exact List.nodup_nil

/-- A granted claim carries the new token, and the row that is stored afterwards. -/
theorem PgFleet.granted_spec {f : PgFleet W} {x : Event W ρ × Choice} {c : Claimed}
    (hc : c ∈ f.claims x) :
    ∃ r lease now, f.store.task.find? c.task.id = some r ∧ c.token = x.2.mint c.task.id ∧
      (PgFleet.step f x).1.store.task.find? c.task.id = some (r.claim now lease c.token) ∧
      c.task.attemptCount = (r.claim now lease c.token).attemptCount := by
  rw [PgFleet.step_fst, Fleet.stepWith_store, ← f.mint_chosen x]
  unfold PgFleet.claims Fleet.claims at hc
  split at hc
  · obtain ⟨r, lease, now, hr, htoken, hr', htask⟩ := step_granted hc
    have hid : c.task.id = r.id := by
      rw [htask]
      rfl
    rw [hid]
    refine ⟨r, lease, now, hr, htoken, hr', ?_⟩
    rw [htask]
    rfl
  · cases hc

/-- A claim that does not grant the task leaves it alone. -/
theorem view_of_not_granted {queue : String} {lease : Duration} {id : TaskID}
    (h : ∀ c ∈ (step db ch (.claimDue queue limit lease now)).2.claims, c.task.id ≠ id) :
    (step db ch (.claimDue queue limit lease now)).1.view id = db.view id := by
  by_cases hlimit : 0 < limit
  · have hid : id ∉ (db.dueRows queue limit now ch.scan).map TaskRow.id := by
      rw [← @claims_ids db ch limit now queue lease hlimit]
      rintro hm
      obtain ⟨c, hc, rfl⟩ := List.mem_map.mp hm
      exact h c hc rfl
    obtain ⟨db', heq, htask, hdlq, hother, -⟩ := claimDue_spec db queue hlimit lease now ch
    simp only [step, heq, Prod.map_fst, id_eq, Database.view, htask, hdlq, hother id hid,
      Tables.find?_claimRows_of_not_mem hid]
  · simp [step, Database.claimDue, not_lt.mp hlimit]

end Grants

/-! ## What an event does to the row -/

section Moves
variable {W ρ : Type} [WorkerCode W ρ]

/-- An operator acts. -/
def operates : Event W ρ → Bool
  | .redrive _ _ _ | .purge _ _ | .purgeSucceeded _ _ => true
  | _ => false

/-- The calls of operators come from operators. -/
theorem operates_of_call {f : PgFleet W} {ev : Event W ρ} (h : f.storeCall? ev = some op)
    (hop : (∃ queue sel now, op = .redrive queue sel now) ∨ (∃ queue sel, op = .purge queue sel) ∨
      ∃ queue olderThan, op = .purgeSucceeded queue olderThan) : operates ev = true := by
  have hunfenced : op.fenced? = none := by
    rcases hop with ⟨_, _, _, rfl⟩ | ⟨_, _, rfl⟩ | ⟨_, _, rfl⟩ <;> rfl
  cases ev with
  | redrive | purge | purgeSucceeded => rfl
  | heartbeat i now =>
    obtain ⟨r, _, hr⟩ := Option.bind_eq_some_iff.mp h
    rw [Fleet.fenced?_of_runCall (Or.inl hr)] at hunfenced
    cases hunfenced
  | write i now =>
    obtain ⟨r, _, hr⟩ := Option.bind_eq_some_iff.mp h
    rw [Fleet.fenced?_of_runCall (Or.inr hr)] at hunfenced
    cases hunfenced
  | enqueue | poll =>
    cases h
    rcases hop with ⟨_, _, _, hc⟩ | ⟨_, _, hc⟩ | ⟨_, _, hc⟩ <;> cases hc
  | route | invoke | finish | stop => cases h

variable [PgBinding W]

/-- What operators do is not about this task. -/
def Spares (id : TaskID) (f : PgFleet W) (x : Event W ρ × Choice) : Prop :=
  operates x.1 = true → (PgFleet.step f x).1.store.view id = f.store.view id

/-- The ways in which an event with the call `call?` changes the row of the task in
`rdq_task`, when it spares a task that is in one of the tables. -/
inductive RowMove (call? : Option Op) (granted : Prop) (id : TaskID) :
    Option TaskRow → Option TaskRow → Prop
  | absent : RowMove call? granted id none none
  | same {r r' : TaskRow} (h : r.SameClaim r') : RowMove call? granted id (some r) (some r')
  | claim {r : TaskRow} (now : Time) (lease : Duration) (token : ClaimToken)
      (hdue : r.isDue now = true) (hgranted : granted) :
      RowMove call? granted id (some r) (some (r.claim now lease token))
  | reschedule {r : TaskRow} {token : ClaimToken} {att : Attempt} {nextAt : Time}
      (hcall : call? = some (.reschedule id token att nextAt)) (hfenced : r.Fenced token) :
      RowMove call? granted id (some r) (some (r.reschedule nextAt))
  | complete {r : TaskRow} {token : ClaimToken} {att : Attempt} {now : Time}
      (hcall : call? = some (.complete id token att now)) (hfenced : r.Fenced token) :
      RowMove call? granted id (some r) (some r.complete)
  | deadLetter {r : TaskRow} {token : ClaimToken} {att : Attempt} {now : Time}
      (hcall : call? = some (.deadLetter id token att now)) (hfenced : r.Fenced token) :
      RowMove call? granted id (some r) none

theorem RowMove.refl (call? : Option Op) (granted : Prop) (id : TaskID) (o : Option TaskRow) :
    RowMove call? granted id o o := by
  cases o with
  | none => exact .absent
  | some r => exact .same (.refl r)

/-- The move of the row under a call that no operator makes, read off the change of the task. -/
theorem RowMove.of_change {db : Database} {ch : Choice} {granted : Prop} {id : TaskID}
    {v v' : View} (hch : Change db ch op id v v') (home : v.task ≠ none ∨ v.dlq ≠ none)
    (hid : ∀ r, v.task = some r → r.id = id)
    (hgrant : ∀ queue limit lease now, op = .claimDue queue limit lease now → ¬ granted → v' = v)
    (hnot : ¬ ((∃ queue sel now, op = .redrive queue sel now) ∨
      (∃ queue sel, op = .purge queue sel) ∨
      ∃ queue olderThan, op = .purgeSucceeded queue olderThan)) :
    RowMove (some op) granted id v.task v'.task ∧ (v'.task ≠ none ∨ v'.dlq ≠ none) := by
  push Not at hnot
  obtain ⟨hredrive, hpurge, hsweep⟩ := hnot
  cases hch with
  | keep => exact ⟨.refl _ _ _ _, home⟩
  | admitted => simp at home
  | claim r d queue limit lease now hop hdue =>
    refine ⟨?_, Or.inl (Option.some_ne_none _)⟩
    by_cases hg : granted
    · exact .claim now lease _ hdue hg
    · have heq := congrArg View.task (hgrant queue limit lease now hop hg)
      rw [heq]
      exact .refl _ _ _ _
  | extend r d atts token lease now =>
    exact ⟨.same ⟨rfl, rfl, rfl, rfl⟩, Or.inl (Option.some_ne_none _)⟩
  | reschedule r d atts token att nextAt hop hfenced =>
    rw [hid r rfl] at hop
    exact ⟨.reschedule (congrArg some hop) hfenced, Or.inl (Option.some_ne_none _)⟩
  | complete r d atts token att now hop hfenced =>
    rw [hid r rfl] at hop
    exact ⟨.complete (congrArg some hop) hfenced, Or.inl (Option.some_ne_none _)⟩
  | deadLetter r atts token att now hop hfenced =>
    rw [hid r rfl] at hop
    exact ⟨.deadLetter (congrArg some hop) hfenced, Or.inr (Option.some_ne_none _)⟩
  | redrive d atts queue sel now hop => exact absurd hop (hredrive queue sel now)
  | purge r d atts queue sel hop => exact absurd hop (hpurge queue sel)
  | sweep r d atts queue olderThan hop => exact absurd hop (hsweep queue olderThan)

/-- An event that spares a task in one of the tables keeps it in one, and its row moves as
described. -/
theorem row_move {f : PgFleet W} {x : Event W ρ × Choice} {id : TaskID}
    (home : f.store.task.find? id ≠ none ∨ f.store.dlq.find? id ≠ none) (hsp : Spares id f x) :
    RowMove (f.storeCall? x.1) (Grants id f x) id (f.store.task.find? id)
        ((PgFleet.step f x).1.store.task.find? id) ∧
      ((PgFleet.step f x).1.store.task.find? id ≠ none ∨
        (PgFleet.step f x).1.store.dlq.find? id ≠ none) := by
  change RowMove _ _ id (f.store.view id).task ((PgFleet.step f x).1.store.view id).task ∧
    (((PgFleet.step f x).1.store.view id).task ≠ none ∨
      ((PgFleet.step f x).1.store.view id).dlq ≠ none)
  by_cases hoperates : operates x.1 = true
  · rw [hsp hoperates]
    exact ⟨.refl _ _ _ _, home⟩
  rw [PgFleet.step_fst, Fleet.stepWith_store]
  cases hcall : f.storeCall? x.1 with
  | none => exact ⟨.refl _ _ _ _, home⟩
  | some op =>
    refine RowMove.of_change (step_change f.store (f.chosen x) id op) home
      (fun r hr => KeyedTable.key_of_find? hr) ?_ (mt (operates_of_call hcall) hoperates)
    -- a claim that does not grant the task leaves its view
    rintro queue limit lease now rfl hno
    refine view_of_not_granted fun c hc hcid => hno ⟨c, ?_, hcid⟩
    simp only [PgFleet.claims, Fleet.claims, hcall]
    exact hc

end Moves

/-! ## What holds in every reachable state -/

section Tracked
variable {W ρ : Type} [WorkerCode W ρ]

/-- The task comes in as `Submit` makes it: pending, with a time for its first attempt. -/
def ComesPending (id : TaskID) : Event W ρ → Prop
  | .enqueue task => task.id = id → task.status = .pending ∧ task.nextAttemptAt ≠ none
  | _ => True

instance (id : TaskID) : (ev : Event W ρ) → Decidable (ComesPending id ev)
  | .enqueue _ => inferInstanceAs (Decidable (_ → _))
  | .redrive _ _ _ | .purge _ _ | .purgeSucceeded _ _ | .poll _ _ _ | .route _ _ | .invoke _ _
  | .finish _ _ _ | .heartbeat _ _ | .write _ _ | .stop _ => instDecidableTrue

/-- The task comes in pending and without a history, and no token is minted twice for it. -/
def Scheduled (id : TaskID) (f : PgFleet W) (x : Event W ρ × Choice) : Prop :=
  Orderly id f x ∧ ComesPending id x.1

instance (id : TaskID) (f : PgFleet W) (x : Event W ρ × Choice) : Decidable (Scheduled id f x) :=
  inferInstanceAs (Decidable (_ ∧ _))

/-- Two claims of the task have different tokens. -/
def Apart (id : TaskID) (c c' : Claimed) : Prop :=
  c.task.id = id → c'.task.id = id → c.token ≠ c'.token

/-- The invariant that needs no attendance. -/
structure Tracked [BudgetedCode W] (id : TaskID) (f : PgFleet W) : Prop where
  number : NumberInv id f
  apart : f.runClaims.Pairwise (Apart id)
  within : ∀ (i : Nat) run, f.runs[i]? = some run → run.Within
  timed : ∀ r, f.store.task.find? id = some r → r.Timed

theorem apart_step [PgBinding W] {id : TaskID} {f : PgFleet W} {x : Event W ρ × Choice}
    (h : f.runClaims.Pairwise (Apart id)) (hc : Orderly id f x) :
    (PgFleet.step f x).1.runClaims.Pairwise (Apart id) := by
  rcases f.runClaims_stepWith (Postgres.step f.store (f.chosen x)) x.1 with
    heq | ⟨w, limit, now, hev, heq⟩
  · rw [PgFleet.step_fst, heq]
    exact h
  · rw [PgFleet.step_fst, heq, List.pairwise_append]
    refine ⟨h, ?_, ?_⟩
    · have hnd := f.claims_ids_nodup x
      rw [List.nodup_iff_pairwise_ne, List.pairwise_map] at hnd
      exact hnd.imp fun hne hid hid' => absurd (hid.trans hid'.symm) hne
    · intro c hold c' hnew hid hid' htoken
      obtain ⟨run, hrun, rfl⟩ := List.mem_map.mp hold
      obtain ⟨_, _, _, _, hmint, _⟩ := PgFleet.granted_spec hnew
      obtain ⟨ev, ch⟩ := x
      cases hev
      refine hc run hrun hid ?_
      rw [htoken, hmint, hid']

namespace Tracked
variable [BudgetedCode W] {id : TaskID} {f : PgFleet W} {x : Event W ρ × Choice}

theorem new (id : TaskID) : Tracked id (PgFleet.new : PgFleet W) where
  number := .new id
  apart := List.Pairwise.nil
  within := by
    intro i run hrun
    cases hrun
  timed := by
    intro r hr
    cases hr

theorem step [PgBinding W] (h : Tracked id f) (hc : Scheduled id f x) :
    Tracked id (PgFleet.step f x).1 where
  number := h.number.step hc.1
  apart := apart_step h.apart hc.1
  within := by
    rw [PgFleet.step_fst]
    exact f.forall_runs_stepWith _ _ Run.within_start (fun _ i hr => hr.advance x.1 i) h.within
  timed := by
    rw [PgFleet.step_fst, Fleet.stepWith_store]
    split
    · rename_i op hop
      refine timed_step h.timed ?_
      rintro task rfl
      have hpending := hc.2
      rw [Fleet.storeCall?_enqueue hop] at hpending
      exact hpending
    · exact h.timed

/-- Runs of the task with the same token are the same run. -/
theorem index_eq (h : Tracked id f) {i j : Nat} {run run' : Run W} (hi : f.runs[i]? = some run)
    (hj : f.runs[j]? = some run') (hid : run.claim.task.id = id) (hid' : run'.claim.task.id = id)
    (htoken : run.claim.token = run'.claim.token) : i = j := by
  have hget : ∀ {k : Nat} {r : Run W}, f.runs[k]? = some r → f.runClaims[k]? = some r.claim := by
    intro k r hr
    rw [Fleet.runClaims, List.getElem?_map, hr]
    rfl
  have hapart : ∀ {k l : Nat} {r r' : Run W}, k < l → f.runs[k]? = some r →
      f.runs[l]? = some r' → r.claim.task.id = id → r'.claim.task.id = id →
      r.claim.token ≠ r'.claim.token := by
    intro k l r r' hlt hk hl hr hr'
    obtain ⟨hk', hke⟩ := List.getElem?_eq_some_iff.mp (hget hk)
    obtain ⟨hl', hle⟩ := List.getElem?_eq_some_iff.mp (hget hl)
    have hp := List.pairwise_iff_getElem.mp h.apart k l hk' hl' hlt
    rw [hke, hle] at hp
    exact hp hr hr'
  rcases Nat.lt_trichotomy i j with hlt | heq | hlt
  · exact absurd htoken (hapart hlt hi hj hid hid')
  · exact heq
  · exact absurd htoken.symm (hapart hlt hj hi hid' hid)

/-- The outcome call of a run whose claim is in force is accepted, and ends the claim. -/
theorem outcome_done (h : Tracked id f) {ev : Event W ρ} (ch : Choice) {call : OutcomeCall}
    {token : ClaimToken} (hcall : f.storeCall? ev = some (call.op id token now))
    (hr : f.store.task.find? id = some r) (hfenced : r.Fenced token) :
    (Postgres.step f.store ch (call.op id token now)).2 = .done ∧
      ∀ r', (Postgres.step f.store ch (call.op id token now)).1.task.find? id = some r' →
        r'.status ≠ .inFlight := by
  have haccepted : ∀ context,
      (Postgres.step f.store ch (call.op id token now)).2 ≠ .failed (.uniqueViolation context) :=
    fun context => h.number.outcome_accepted hcall (OutcomeCall.outcome?_op _ _ _ _) context
  have hrefused : ∀ {res : Except StorageError Unit},
      (∃ context, res = .error (.uniqueViolation context)) →
      ∃ context, Reply.ofUnit res = .failed (.uniqueViolation context) := by
    rintro _ ⟨context, rfl⟩
    exact ⟨context, rfl⟩
  cases call with
  | complete att =>
    rcases spendClaim_cases hr hfenced att _ TaskRow.id_complete with ⟨hok, hrow⟩ | hno
    · refine ⟨congrArg Reply.ofUnit hok, fun r' hr' => ?_⟩
      cases hrow.symm.trans hr'
      exact fun hc => by cases hc
    · obtain ⟨context, hc⟩ := hrefused hno
      exact absurd hc (haccepted context)
  | reschedule att nextAt =>
    rcases spendClaim_cases hr hfenced att _ (TaskRow.id_reschedule nextAt) with
      ⟨hok, hrow⟩ | hno
    · refine ⟨congrArg Reply.ofUnit hok, fun r' hr' => ?_⟩
      cases hrow.symm.trans hr'
      exact fun hc => by cases hc
    · obtain ⟨context, hc⟩ := hrefused hno
      exact absurd hc (haccepted context)
  | deadLetter att =>
    rcases deadLetter_cases hr hfenced att now with ⟨hok, hrow⟩ | hno
    · refine ⟨congrArg Reply.ofUnit hok, fun r' hr' => ?_⟩
      cases hrow.symm.trans hr'
    · obtain ⟨context, hc⟩ := hrefused hno
      exact absurd hc (haccepted context)

end Tracked

end Tracked

/-! ## Attendance -/

section Attended
variable {W ρ : Type} [WorkerCode W ρ]

/-- The runs of the task with a number from `n` on. -/
def Since (n : Nat) (id : TaskID) (f : PgFleet W) (i : Nat) (run : Run W) : Prop :=
  n ≤ i ∧ f.runs[i]? = some run ∧ run.claim.task.id = id

/-- How many claims of the task came after the first `n` claims. -/
def claimsSince (n : Nat) (id : TaskID) (f : PgFleet W) : Nat :=
  (f.runClaims.drop n).countP fun c => decide (c.task.id = id)

variable [PgBinding W]

/-- Worker `w` attends to the task: from run `n` on it claims the task only when its
earlier claims have been carried through, nobody else claims it, and none of these runs is
cut short. Operators leave the task alone. -/
structure Attended (w : W) (id : TaskID) (n : Nat) (f : PgFleet W) (x : Event W ρ × Choice) :
    Prop where
  scheduled : Scheduled id f x
  spared : Spares id f x
  served : ∀ w' limit now, x.1 = .poll w' limit now → Grants id f x →
    w' = w ∧ ∀ i run, Since n id f i run → run.phase = .ended
  survives : ∀ i run, x.1 = .stop i → ¬ Since n id f i run

variable {n : Nat} {id : TaskID} {f : PgFleet W} {x : Event W ρ × Choice}

theorem since_advance {i : Nat} {run : Run W} (h : Since n id f i run) :
    Since n id (PgFleet.step f x).1 i (run.advance x.1 i) := by
  rw [PgFleet.step_fst]
  refine ⟨h.1, f.getElem?_stepWith _ x.1 h.2.1, ?_⟩
  rw [(run.continues_advance x.1 i).claim]
  exact h.2.2

theorem since_step {i : Nat} {run' : Run W} (h : Since n id (PgFleet.step f x).1 i run') :
    (∃ run, Since n id f i run ∧ run' = run.advance x.1 i) ∨
      ∃ w limit now c, x.1 = .poll w limit now ∧ c ∈ f.claims x ∧ c.task.id = id ∧
        run' = Run.start w c := by
  obtain ⟨hn, hrun, hid⟩ := h
  rw [PgFleet.step_fst] at hrun
  rcases f.run_advanced _ x.1 hrun with ⟨run, hr, rfl⟩ | ⟨w, limit, now, c, hev, _, hget, rfl⟩
  · refine Or.inl ⟨run, ⟨hn, hr, ?_⟩, rfl⟩
    rw [(run.continues_advance x.1 i).claim] at hid
    exact hid
  · exact Or.inr ⟨w, limit, now, c, hev, List.mem_of_getElem? hget, hid, rfl⟩

theorem runClaims_poll {w : W} (hev : x.1 = .poll w limit now) :
    (PgFleet.step f x).1.runClaims = f.runClaims ++ f.claims x := by
  rw [Fleet.runClaims, PgFleet.step_fst, Fleet.stepWith_runs, hev, Fleet.nextRuns, List.map_append,
    List.map_map]
  refine congrArg (f.runClaims ++ ·) ?_
  rw [PgFleet.claims, hev]
  exact List.map_id _

/-- A granted claim of the task starts a run of it. -/
theorem since_of_granted (hn : n ≤ f.runs.length) {w : W} (hev : x.1 = .poll w limit now)
    {c : Claimed} (hc : c ∈ f.claims x) (hid : c.task.id = id) :
    ∃ i, Since n id (PgFleet.step f x).1 i (Run.start w c) := by
  obtain ⟨k, hk⟩ := List.getElem?_of_mem hc
  refine ⟨f.runs.length + k, Nat.le_add_right_of_le hn, ?_, hid⟩
  have hruns : (PgFleet.step f x).1.runs = f.runs ++ (f.claims x).map (Run.start w) := by
    rw [PgFleet.step_fst, Fleet.stepWith_runs, PgFleet.claims, hev, Fleet.nextRuns]
  rw [hruns, List.getElem?_append_right (Nat.le_add_right _ _), Nat.add_sub_cancel_left,
    List.getElem?_map, hk, Option.map_some]

/-- A claim of the task counts once. -/
theorem claimsSince_of_grants (hn : n ≤ f.runs.length) {w : W} (hev : x.1 = .poll w limit now)
    (hg : Grants id f x) :
    claimsSince n id (PgFleet.step f x).1 = claimsSince n id f + 1 := by
  have hlen : n ≤ f.runClaims.length := by
    rw [Fleet.runClaims, List.length_map]
    exact hn
  have hone : ((f.claims x).countP fun c => decide (c.task.id = id)) = 1 := by
    obtain ⟨c, hc, hid⟩ := hg
    have hcount := List.count_eq_one_of_mem (f.claims_ids_nodup x)
      (List.mem_map_of_mem (f := fun c : Claimed => c.task.id) hc)
    rw [hid, List.count_eq_countP, List.countP_map] at hcount
    rw [← hcount]
    exact List.countP_congr fun c _ => by simp
  rw [claimsSince, runClaims_poll hev, List.drop_append_of_le_length hlen, List.countP_append,
    hone, claimsSince]

theorem claimsSince_of_not_grants (hn : n ≤ f.runs.length) (hg : ¬ Grants id f x) :
    claimsSince n id (PgFleet.step f x).1 = claimsSince n id f := by
  have hlen : n ≤ f.runClaims.length := by
    rw [Fleet.runClaims, List.length_map]
    exact hn
  have hzero : ((f.claims x).countP fun c => decide (c.task.id = id)) = 0 := by
    rw [List.countP_eq_zero]
    intro c hc
    rw [decide_eq_true_eq]
    exact fun hid => hg ⟨c, hc, hid⟩
  rcases f.runClaims_stepWith (Postgres.step f.store (f.chosen x)) x.1 with
    heq | ⟨_, _, _, _, heq⟩
  · rw [claimsSince, PgFleet.step_fst, heq, claimsSince]
  · rw [claimsSince, PgFleet.step_fst, heq, List.drop_append_of_le_length hlen, List.countP_append,
      hzero, claimsSince, Nat.add_zero]

omit [PgBinding W] in
/-- What attendance keeps, for a task that was charged `a` attempts before run `n`. -/
structure AttendInv [BudgetedCode W] (w : W) (id : TaskID) (n : Nat) (a : Int) (f : PgFleet W) :
    Prop where
  tracked : Tracked id f
  length : n ≤ f.runs.length
  home : f.store.task.find? id ≠ none ∨ f.store.dlq.find? id ≠ none
  queue : ∀ r, f.store.task.find? id = some r → r.queue = WorkerCode.queue w
  /-- A run that has not ended holds the live claim. -/
  live : ∀ i run, Since n id f i run → run.phase ≠ .ended →
    run.worker = w ∧ ∃ r, f.store.task.find? id = some r ∧ r.Fenced run.claim.token ∧
      r.attemptCount = run.claim.task.attemptCount ∧ a + claimsSince n id f ≤ r.attemptCount + 1
  /-- Between two claims every claim has been charged. -/
  idle : (∀ i run, Since n id f i run → run.phase = .ended) →
    ∀ r, f.store.task.find? id = some r → r.status ≠ .succeeded →
      a + claimsSince n id f ≤ r.attemptCount ∧
        (claimsSince n id f = 0 ∨
          r.status = .pending ∧ r.attemptCount < BudgetedCode.maxAttempts w)
  bound : (claimsSince n id f : Int) ≤ max 1 (BudgetedCode.maxAttempts w - a)

namespace AttendInv
variable [BudgetedCode W] {w : W} {a : Int}

/-- A claim of the task. -/
theorem step_grants (h : AttendInv w id n a f) (hx : Attended w id n f x)
    (hg : Grants id f x) : AttendInv w id n a (PgFleet.step f x).1 := by
  obtain ⟨w', limit, now, hev⟩ := hg.poll
  obtain ⟨rfl, hended⟩ := hx.served w' limit now hev hg
  have hcount := claimsSince_of_grants h.length hev hg
  obtain ⟨hmove, hhome⟩ := row_move h.home hx.spared
  obtain ⟨c, hc, hcid⟩ := hg
  obtain ⟨r, lease, now', hr, -, hr', -⟩ := PgFleet.granted_spec hc
  rw [hcid] at hr hr'
  -- the row was due, so its task had not succeeded, and all claims before had been charged
  have hdue : r.status ≠ .succeeded := by
    rw [hr, hr'] at hmove
    generalize hclaimed : r.claim now' lease c.token = r₁ at hmove
    cases hmove with
    | same hs =>
      intro hsucc
      have hst := hs.status
      rw [← hclaimed, hsucc] at hst
      cases hst
    | claim now lease token hdue => exact TaskRow.status_of_isDue hdue
    | reschedule _ hf | complete _ hf =>
      intro hsucc
      cases hsucc.symm.trans hf.1
  obtain ⟨hcharged, hwithin⟩ := h.idle hended r hr hdue
  have hbefore : r.attemptCount ≤ (r.claim now' lease c.token).attemptCount := by
    simp only [TaskRow.claim]
    split <;> omega
  have hnew : ∀ i run, Since n id (PgFleet.step f x).1 i run → run.phase ≠ .ended →
      ∃ c' ∈ f.claims x, c'.task.id = id ∧ run = Run.start w' c' := by
    intro i run hs hphase
    rcases since_step hs with ⟨run₀, hs₀, rfl⟩ | ⟨_, _, _, c', hev', hc', hid', rfl⟩
    · exact absurd (run₀.ended_advance x.1 i (hended i run₀ hs₀)) hphase
    · cases hev.symm.trans hev'
      exact ⟨c', hc', hid', rfl⟩
  exact
    { tracked := h.tracked.step hx.scheduled
      length := by
        have hle := congrArg List.length (@runClaims_poll _ _ _ _ _ _ f x _ hev)
        rw [Fleet.runClaims, Fleet.runClaims, List.length_append, List.length_map,
          List.length_map] at hle
        have := h.length
        omega
      home := hhome
      queue := by
        intro r₁ hr₁
        cases hr'.symm.trans hr₁
        exact h.queue r hr
      live := by
        intro i run hs hphase
        obtain ⟨c', hc', hid', rfl⟩ := hnew i run hs hphase
        obtain ⟨r₁, lease₁, now₁, hr₁, -, hr₁', hcount₁⟩ := PgFleet.granted_spec hc'
        rw [hid'] at hr₁ hr₁'
        cases hr.symm.trans hr₁
        refine ⟨rfl, _, hr₁', ⟨rfl, rfl⟩, hcount₁.symm, ?_⟩
        rw [hcount, Option.some.inj (hr₁'.symm.trans hr')]
        push_cast
        omega
      idle := by
        intro hall
        -- the run of the new claim has not ended
        obtain ⟨i, hs⟩ := since_of_granted h.length hev hc hcid
        cases hall i _ hs
      bound := by
        rw [hcount]
        push_cast
        rcases hwithin with hzero | ⟨-, hlt⟩
        · rw [hzero]
          exact le_max_left 1 _
        · exact le_max_of_le_right (by omega) }

/-- A run that has not ended keeps its claim over any event that neither claims the task nor
ends the run. -/
theorem live_kept (h : AttendInv w id n a f) (hx : Attended w id n f x) (hg : ¬ Grants id f x)
    {i : Nat} {run : Run W} (hs : Since n id f i run) (hphase' : (run.advance x.1 i).phase ≠ .ended)
    (hr : f.store.task.find? id = some r) (hfenced : r.Fenced run.claim.token) :
    ∃ r', (PgFleet.step f x).1.store.task.find? id = some r' ∧ r.SameClaim r' := by
  -- an outcome call with the live token is the one of this run, which would end it
  have hother : ∀ op token, f.storeCall? x.1 = some op → op.outcome? = some (id, token) →
      ¬ r.Fenced token := by
    intro op token hop hout hf
    obtain ⟨j, now, run', call, hev, hrun', hw, rfl⟩ := Fleet.storeCall?_writing hop hout
    rw [OutcomeCall.outcome?_op] at hout
    obtain ⟨hid', htoken⟩ := Prod.mk.inj (Option.some.inj hout)
    have hij := h.tracked.index_eq hs.2.1 hrun' hs.2.2 hid'
      ((hfenced.token_eq hf).trans htoken.symm)
    subst hij
    cases hs.2.1.symm.trans hrun'
    apply hphase'
    simp only [hev, Run.advance, if_true, Run.write, hw]
  obtain ⟨hmove, -⟩ := row_move h.home hx.spared
  rw [hr] at hmove
  generalize (PgFleet.step f x).1.store.task.find? id = o at hmove
  cases hmove with
  | same hs => exact ⟨_, rfl, hs⟩
  | claim _ _ _ _ hgranted => exact absurd hgranted hg
  | reschedule hcall hf | complete hcall hf | deadLetter hcall hf =>
    exact absurd hf (hother _ _ hcall rfl)

/-- No claim was under way, so a call with the live claim comes from a run before `n`. -/
theorem idle_kept_of_ended (h : AttendInv w id n a f)
    (hended : ∀ i run, Since n id f i run → run.phase = .ended) (hg : ¬ Grants id f x)
    {call? : Option Op} {r' : TaskRow}
    (hmove : RowMove call? (Grants id f x) id (f.store.task.find? id) (some r'))
    (hopen : r'.status ≠ .succeeded) :
    a + claimsSince n id f ≤ r'.attemptCount ∧
      (claimsSince n id f = 0 ∨
        r'.status = .pending ∧ r'.attemptCount < BudgetedCode.maxAttempts w) := by
  have hold : ∀ r token, f.store.task.find? id = some r → r.Fenced token →
      a ≤ r.attemptCount ∧ claimsSince n id f = 0 := by
    intro r token hr hf
    obtain ⟨hle, hzero | ⟨hpending, -⟩⟩ :=
      h.idle hended r hr (fun hc => by cases hc.symm.trans hf.1)
    · rw [hzero] at hle
      exact ⟨by simpa using hle, hzero⟩
    · cases hpending.symm.trans hf.1
  cases hr : f.store.task.find? id with
  | none =>
    rw [hr] at hmove
    cases hmove
  | some r =>
    rw [hr] at hmove
    cases hmove with
    | same hs =>
      obtain ⟨hle, hrest⟩ := h.idle hended r hr (hs.status ▸ hopen)
      rw [hs.attemptCount, hs.status]
      exact ⟨hle, hrest⟩
    | claim _ _ _ _ hgranted => exact absurd hgranted hg
    | reschedule _ hf =>
      obtain ⟨hle, hzero⟩ := hold r _ hr hf
      refine ⟨?_, Or.inl hzero⟩
      simp only [hzero, TaskRow.reschedule]
      push_cast
      omega
    | complete => exact absurd rfl hopen

/-- An event that is not a claim of the task leaves it charged for every claim. -/
theorem idle_kept (h : AttendInv w id n a f) (hx : Attended w id n f x) (hg : ¬ Grants id f x)
    (hall : ∀ i run, Since n id (PgFleet.step f x).1 i run → run.phase = .ended) {r' : TaskRow}
    (hr' : (PgFleet.step f x).1.store.task.find? id = some r') (hopen : r'.status ≠ .succeeded) :
    a + claimsSince n id f ≤ r'.attemptCount ∧
      (claimsSince n id f = 0 ∨
        r'.status = .pending ∧ r'.attemptCount < BudgetedCode.maxAttempts w) := by
  obtain ⟨hmove, -⟩ := row_move h.home hx.spared
  rw [hr'] at hmove
  by_cases hended : ∀ i run, Since n id f i run → run.phase = .ended
  · exact h.idle_kept_of_ended hended hg hmove hopen
  · -- the event was the outcome call of the claim that was under way
    push Not at hended
    obtain ⟨i, run, hs, hphase⟩ := hended
    obtain ⟨hw, r, hr, hf, hsnap, hle⟩ := h.live i run hs hphase
    rcases run.ends_advance x.1 i hphase (hall i _ (since_advance hs)) with
      hstop | ⟨now, call, hev, hwriting⟩
    · exact absurd hs (hx.survives i run hstop)
    have hcall := f.storeCall?_write hev hs.2.1 hwriting
    rw [hs.2.2] at hcall
    obtain ⟨-, hdone⟩ := h.tracked.outcome_done (f.chosen x) hcall hr hf
    have hstore : (PgFleet.step f x).1.store =
        (Postgres.step f.store (f.chosen x) (call.op id run.claim.token now)).1 := by
      rw [PgFleet.step_fst, Fleet.stepWith_store, hcall]
    have hleft := hdone r' (hstore ▸ hr')
    rw [hr] at hmove
    cases hmove with
    | same hsame => exact absurd (hsame.status.trans hf.1) hleft
    | claim _ _ _ _ hgranted => exact absurd hgranted hg
    | reschedule hop hf' =>
      refine ⟨hle, Or.inr ⟨rfl, ?_⟩⟩
      rw [hcall] at hop
      cases call with
      | reschedule att nextAt =>
        have hlt := h.tracked.within i run hs.2.1 att nextAt hwriting
        rw [hw, ← hsnap] at hlt
        exact hlt
      | complete | deadLetter => cases hop
    | complete => exact absurd rfl hopen

theorem step_not_grants (h : AttendInv w id n a f) (hx : Attended w id n f x)
    (hg : ¬ Grants id f x) : AttendInv w id n a (PgFleet.step f x).1 := by
  have hcount := claimsSince_of_not_grants h.length hg
  obtain ⟨hmove, hhome⟩ := row_move h.home hx.spared
  exact
    { tracked := h.tracked.step hx.scheduled
      length := by
        rcases f.length_stepWith (Postgres.step f.store (f.chosen x)) x.1 with
          hlen | ⟨_, _, _, _, hruns⟩
        · rw [PgFleet.step_fst, hlen]
          exact h.length
        · rw [PgFleet.step_fst, hruns, List.length_append]
          exact Nat.le_add_right_of_le h.length
      home := hhome
      queue := by
        intro r' hr'
        rw [hr'] at hmove
        cases hr : f.store.task.find? id with
        | none =>
          rw [hr] at hmove
          cases hmove
        | some r =>
          rw [hr] at hmove
          have hq := h.queue r hr
          cases hmove with
          | same hs => exact hs.queue.trans hq
          | claim | reschedule | complete => exact hq
      live := by
        intro i run' hs' hphase'
        rcases since_step hs' with ⟨run, hs, rfl⟩ | ⟨_, _, _, c, _, hc, hid, _⟩
        · have hphase : run.phase ≠ .ended := fun he => hphase' (run.ended_advance x.1 i he)
          obtain ⟨hw, r, hr, hf, hsnap, hle⟩ := h.live i run hs hphase
          obtain ⟨r', hr', hsame⟩ := h.live_kept hx hg hs hphase' hr hf
          have hcont := run.continues_advance x.1 i
          rw [hcont.worker, hcont.claim, hcount]
          refine ⟨hw, r', hr', hsame.fenced hf, hsame.attemptCount.trans hsnap, ?_⟩
          rw [hsame.attemptCount]
          exact hle
        · exact absurd ⟨c, hc, hid⟩ hg
      idle := by
        intro hall r' hr' hopen
        rw [hcount]
        exact h.idle_kept hx hg hall hr' hopen
      bound := by
        rw [hcount]
        exact h.bound }

theorem step (h : AttendInv w id n a f) (hx : Attended w id n f x) :
    AttendInv w id n a (PgFleet.step f x).1 := by
  by_cases hg : Grants id f x
  · exact h.step_grants hx hg
  · exact h.step_not_grants hx hg

end AttendInv

end Attended

end Rdq.Postgres
