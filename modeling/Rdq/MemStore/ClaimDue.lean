import Mathlib.Data.Set.Card
import Rdq.MemStore.Deaths

/-!
# What a claim returns

`Store.ClaimDue` against its specification. A claim takes the first due tasks of the
queue in the order of `(next_attempt_at, id)`, up to the limit. It leases each of
them under a token no claim had before, and the tasks it does not take keep their
record. Every task that can be due has a next attempt, so the order is never decided
by the zero time.
-/

namespace Rdq.MemStore

open Rdq.Foundation

/-! ## The due tasks and their order -/

/-- A waiting task whose time has come, or a leased one whose lease has run out. -/
def Due (now : Time) (e : Envelope) : Prop :=
  (e.status = .pending ∧ ∃ t ∈ e.nextAttemptAt, t ≤ now) ∨
    (e.status = .inFlight ∧ ∃ t ∈ e.leaseExpiresAt, t ≤ now)

theorem isDue_iff (r : Record) (now : Time) : isDue r now = true ↔ Due now r.env := by
  unfold isDue Due
  split <;> simp_all [Option.any_eq_true]

theorem status_of_isDue {r : Record} {now : Time} (h : isDue r now = true) :
    r.env.status = .pending ∨ r.env.status = .inFlight :=
  ((isDue_iff r now).mp h).imp And.left And.left

/-- The first task is to be claimed before the second. -/
def Earlier (a b : Envelope) : Prop :=
  ∃ t ∈ a.nextAttemptAt, ∃ u ∈ b.nextAttemptAt, t < u ∨ t = u ∧ a.id < b.id

/-- The order of due times, ids breaking ties. -/
theorem dueBefore_eq_false_iff (a b : Record) :
    dueBefore b a = false ↔ dueKey a < dueKey b ∨ dueKey a = dueKey b ∧ a.id ≤ b.id := by
  unfold dueBefore
  by_cases h : dueKey a = dueKey b
  · rw [if_pos h.symm, decide_eq_false_iff_not, not_lt]
    simp only [h, lt_self_iff_false, true_and, false_or]
  · rw [if_neg (Ne.symm h), decide_eq_false_iff_not, not_lt]
    simp only [h, false_and, or_false]
    exact le_iff_lt_or_eq.trans (or_iff_left h)

instance : Std.Total fun a b : Record => dueBefore b a = false where
  total a b := by
    simp only [dueBefore_eq_false_iff]
    have := le_total a.id b.id
    rcases lt_trichotomy (dueKey a) (dueKey b) with h | h | h
    · exact Or.inl (Or.inl h)
    · exact this.imp (fun hid => Or.inr ⟨h, hid⟩) fun hid => Or.inr ⟨h.symm, hid⟩
    · exact Or.inr (Or.inl h)

instance : IsTrans Record fun a b => dueBefore b a = false where
  trans a b c := by
    simp only [dueBefore_eq_false_iff]
    rintro (h | ⟨h, hid⟩) (h' | ⟨h', hid'⟩)
    · exact Or.inl (h.trans h')
    · exact Or.inl (h' ▸ h)
    · exact Or.inl (h ▸ h')
    · exact Or.inr ⟨h.trans h', hid.trans hid'⟩

/-- The due records of a queue in the order of a claim. -/
def dueInOrder (s : Store) (queue : String) (now : Time) : List Record :=
  (s.tasks.rows.filter fun r => decide (r.env.queue = queue) && isDue r now).insertionSort
    fun a b => dueBefore b a = false

theorem dueRecords_eq (s : Store) (queue : String) (limit : Int) (now : Time) :
    s.dueRecords queue limit now = (dueInOrder s queue now).take limit.toNat := rfl

theorem mem_dueInOrder {s : Store} {queue : String} {now : Time} {r : Record} :
    r ∈ dueInOrder s queue now ↔
      s.tasks.find? r.id = some r ∧ r.env.queue = queue ∧ isDue r now = true := by
  rw [dueInOrder, List.mem_insertionSort, List.mem_filter, Bool.and_eq_true, decide_eq_true_eq]
  exact and_congr ⟨KeyedTable.find?_key_of_mem, KeyedTable.mem_of_find?⟩ Iff.rfl

theorem dueInOrder_ids_nodup (s : Store) (queue : String) (now : Time) :
    ((dueInOrder s queue now).map Record.id).Nodup := by
  rw [dueInOrder, ((List.perm_insertionSort _ _).map Record.id).nodup_iff]
  exact (List.filter_sublist.map Record.id).nodup s.tasks.keys_nodup

/-! ## Tasks with a next attempt -/

/-- A task that waits or is leased has a next attempt. -/
def Scheduled (s : Store) : Prop :=
  ∀ id r, s.tasks.find? id = some r → r.env.status = .pending ∨ r.env.status = .inFlight →
    r.env.nextAttemptAt.isSome = true

theorem nextAttemptAt_claim (now : Time) (lease : Duration) (token : ClaimToken) (r : Record) :
    (r.claim now lease token).env.nextAttemptAt = r.env.nextAttemptAt := by
  simp only [Record.claim]
  split <;> rfl

/-- A call keeps every waiting or leased task scheduled. -/
theorem Scheduled.step {s : Store} {op : Op} (h : Scheduled s) (hinv : LifecycleInv s)
    (hop : ∀ task, op = Op.enqueue task → task.SubmitShaped) :
    Scheduled (MemStore.step s op).1 := by
  intro id r hr hst
  -- a waiting task is scheduled in every reachable store, so only leased ones are left
  rcases hst with hpend | hlive
  · exact (((hinv.step hop).records id r hr).pending hpend).1
  · have hchange := step_change s id op
    rw [hr] at hchange
    generalize hpre : s.tasks.find? id = pre at hchange
    cases hchange with
    | keep => exact h id r hpre (Or.inr hlive)
    | admitted task hadm => exact (hop task hadm).due
    | claim r₀ c _ _ _ _ _ _ hdue =>
      rw [nextAttemptAt_claim]
      exact h id r₀ hpre (status_of_isDue hdue)
    | extend r₀ _ _ _ _ hst => exact h id r₀ hpre (Or.inr hst)
    | reschedule => cases hlive
    | complete => cases hlive
    | deadLetter => cases hlive
    | redrive r₀ n =>
      rw [Function.iterate_succ_apply'] at hlive
      cases hlive

theorem Shaped.scheduled {past : List Op} (h : Shaped past) : Scheduled (stateAfter past) := by
  have hboth : LifecycleInv (stateAfter past) ∧ Scheduled (stateAfter past) := by
    refine run_invariant (P := fun s => LifecycleInv s ∧ Scheduled s)
      ⟨LifecycleInv.new, ?_⟩ ?_ (allSteps_enqueue h Store.new)
    · intro id r hr
      cases hr
    · intro s op hs hop
      exact ⟨hs.1.step hop, hs.2.step hs.1 hop⟩
  exact hboth.2

/-- In a scheduled store the due records strictly follow each other. -/
theorem dueInOrder_sorted {s : Store} (h : Scheduled s) (queue : String) (now : Time) :
    (dueInOrder s queue now).Pairwise fun a b => Earlier a.env b.env := by
  have hle : (dueInOrder s queue now).Pairwise fun a b => dueBefore b a = false :=
    List.pairwise_insertionSort _ _
  have hids := List.pairwise_map.mp (dueInOrder_ids_nodup s queue now)
  have hnext : ∀ r ∈ dueInOrder s queue now, ∃ t, r.env.nextAttemptAt = some t := by
    intro r hr
    obtain ⟨hfind, -, hdue⟩ := mem_dueInOrder.mp hr
    exact Option.isSome_iff_exists.mp (h r.id r hfind (status_of_isDue hdue))
  refine (hle.and hids).imp_of_mem ?_
  rintro a b ha hb ⟨hab, hne⟩
  obtain ⟨t, ht⟩ := hnext a ha
  obtain ⟨u, hu⟩ := hnext b hb
  refine ⟨t, ht, u, hu, ?_⟩
  rw [dueBefore_eq_false_iff, dueKey, dueKey, ht, hu] at hab
  exact hab.imp id fun hkey => ⟨hkey.1, lt_of_le_of_ne hkey.2 hne⟩

/-! ## The specification of a claim -/

/-- The due tasks of a queue. -/
def dueTasks (s : Store) (queue : String) (now : Time) : Set Record :=
  {r | s.tasks.find? r.id = some r ∧ r.env.queue = queue ∧ Due now r.env}

/-- What a claim makes of a task that it takes. A lost lease counts as an attempt. -/
structure Leased (now : Time) (lease : Duration) (r : Record) (c : Claimed) (r' : Record) :
    Prop where
  status : r'.env.status = .inFlight
  token : r'.token = c.token
  expiry : r'.env.leaseExpiresAt = some (now + lease)
  reclaimed : r.env.status = .inFlight → ∃ att : Attempt, att.outcome = .leaseExpired ∧
    r'.env.attempts = r.env.attempts ++ [att] ∧ r'.env.attemptCount = r.env.attemptCount + 1
  waiting : r.env.status ≠ .inFlight →
    r'.env.attempts = r.env.attempts ∧ r'.env.attemptCount = r.env.attemptCount
  others : r'.env = { r.env with
    status := r'.env.status
    leaseExpiresAt := r'.env.leaseExpiresAt
    attempts := r'.env.attempts
    attemptCount := r'.env.attemptCount }
  copy : c.task = r'.env

/-- The claims are the first due tasks of the queue, and only those change. -/
structure ClaimsExactly (s s' : Store) (queue : String) (limit : Int) (lease : Duration)
    (now : Time) (claims : List Claimed) : Prop where
  count : claims.length = min limit.toNat (dueTasks s queue now).ncard
  granted : ∀ c ∈ claims, ∃ r ∈ dueTasks s queue now, c.task.id = r.id ∧
    ∃ r', s'.tasks.find? r.id = some r' ∧ Leased now lease r c r'
  ordered : claims.Pairwise fun a b => Earlier a.task b.task
  least : ∀ r ∈ dueTasks s queue now, r.id ∉ claims.map (fun c => c.task.id) →
    ∀ c ∈ claims, Earlier c.task r.env
  others : ∀ id ∉ claims.map (fun c => c.task.id), s'.tasks.find? id = s.tasks.find? id

theorem leased_claim {now : Time} {lease : Duration} {r : Record} {c : Claimed}
    (h : c.task = (r.claim now lease c.token).env) :
    Leased now lease r c (r.claim now lease c.token) := by
  by_cases hst : r.env.status = .inFlight
  · refine ⟨rfl, rfl, rfl, fun _ => ⟨leaseExpiredAttempt r now, rfl, ?_⟩, fun hne => absurd hst hne,
      ?_, h⟩
    · simp [Record.claim, hst, appendAttempt]
    · simp [Record.claim, hst, appendAttempt]
  · refine ⟨rfl, rfl, rfl, fun hlive => absurd hlive hst, fun _ => ?_, ?_, h⟩
    · simp [Record.claim, hst]
    · simp [Record.claim, hst]

/-- A claim does not move a task in the order. -/
@[simp] theorem earlier_claim_left (now : Time) (lease : Duration) (token : ClaimToken)
    (r : Record) (e : Envelope) :
    Earlier (r.claim now lease token).env e ↔ Earlier r.env e := by
  have hid : (r.claim now lease token).env.id = r.env.id := Record.id_claim now lease token r
  unfold Earlier
  rw [nextAttemptAt_claim, hid]

@[simp] theorem earlier_claim_right (now : Time) (lease : Duration) (token : ClaimToken)
    (r : Record) (e : Envelope) :
    Earlier e (r.claim now lease token).env ↔ Earlier e r.env := by
  have hid : (r.claim now lease token).env.id = r.env.id := Record.id_claim now lease token r
  unfold Earlier
  rw [nextAttemptAt_claim, hid]

section Grant
variable {now : Time} {lease : Duration} {s : Store}

/-- Every claim is of one of the records, as it is stored from then on. -/
theorem task_of_mem_claimAll {rs : List Record} {c : Claimed}
    (h : c ∈ (Store.claimAll now lease s rs).2) :
    ∃ r ∈ rs, c.task = (r.claim now lease c.token).env := by
  induction rs generalizing s with
  | nil => cases h
  | cons r rest ih =>
    rw [claimAll_cons, List.mem_cons] at h
    rcases h with rfl | h
    · exact ⟨r, List.mem_cons_self, rfl⟩
    · obtain ⟨r', hr', htask⟩ := ih h
      exact ⟨r', List.mem_cons_of_mem r hr', htask⟩

theorem claimAll_ordered {rs : List Record} (h : rs.Pairwise fun a b => Earlier a.env b.env) :
    (Store.claimAll now lease s rs).2.Pairwise fun a b => Earlier a.task b.task := by
  induction rs generalizing s with
  | nil => exact List.Pairwise.nil
  | cons r rest ih =>
    rw [List.pairwise_cons] at h
    rw [claimAll_cons, List.pairwise_cons]
    refine ⟨?_, ih h.2⟩
    intro c hc
    obtain ⟨r', hr', htask⟩ := task_of_mem_claimAll hc
    rw [htask, earlier_claim_left, earlier_claim_right]
    exact h.1 r' hr'

/-- The claim of a record is the one that is stored. -/
theorem leased_of_mem_claimAll {rs : List Record} (hnd : (rs.map Record.id).Nodup)
    (hrs : ∀ r ∈ rs, s.tasks.find? r.id = some r) {c : Claimed}
    (hc : c ∈ (Store.claimAll now lease s rs).2) :
    ∃ r ∈ rs, c.task.id = r.id ∧
      ∃ r', (Store.claimAll now lease s rs).1.tasks.find? r.id = some r' ∧
        Leased now lease r c r' := by
  have hid : c.task.id ∈ rs.map Record.id := by
    rw [← claimAll_ids now lease s rs]
    exact List.mem_map_of_mem hc
  obtain ⟨r, hr, hrid⟩ := List.mem_map.mp hid
  obtain ⟨c', hc', -, -, -, -, htask, hfind⟩ := find?_claimAll_of_mem now lease s rs hnd hrs hr
  have hid' : c'.task.id = r.id := by
    rw [htask]
    exact Record.id_claim now lease c'.token r
  have heq : c = c' := by
    refine List.inj_on_of_nodup_map (f := fun c : Claimed => c.task.id) ?_ hc hc' ?_
    · rw [claimAll_ids]
      exact hnd
    · exact hrid.symm.trans hid'.symm
  subst heq
  exact ⟨r, hr, hrid.symm, _, hfind, leased_claim htask⟩

end Grant

/-- A limit of zero or less takes nothing. -/
theorem claimDue_eq (s : Store) (queue : String) (limit : Int) (lease : Duration) (now : Time) :
    s.claimDue queue limit lease now =
      ((Store.claimAll now lease s (s.dueRecords queue limit now)).1,
        .ok (Store.claimAll now lease s (s.dueRecords queue limit now)).2) := by
  unfold Store.claimDue
  split
  · rename_i h
    have hnone : s.dueRecords queue limit now = [] := by
      rw [dueRecords_eq, Int.toNat_of_nonpos h, List.take_zero]
    rw [hnone]
    rfl
  · rfl

theorem ncard_dueTasks (s : Store) (queue : String) (now : Time) :
    (dueTasks s queue now).ncard = (dueInOrder s queue now).length := by
  classical
  have hset : dueTasks s queue now = ((dueInOrder s queue now).toFinset : Set Record) := by
    ext r
    rw [Finset.mem_coe, List.mem_toFinset, mem_dueInOrder, isDue_iff]
    rfl
  rw [hset, Set.ncard_coe_finset,
    List.toFinset_card_of_nodup (dueInOrder_ids_nodup s queue now).of_map]

/-- A claim of a scheduled store meets the specification. -/
theorem claimsExactly {s : Store} (h : Scheduled s) (queue : String) (limit : Int)
    (lease : Duration) (now : Time) :
    ClaimsExactly s (s.claimDue queue limit lease now).1 queue limit lease now
      (Store.claimAll now lease s (s.dueRecords queue limit now)).2 := by
  have hsorted := dueInOrder_sorted h queue now
  have hfind : ∀ r ∈ s.dueRecords queue limit now, s.tasks.find? r.id = some r :=
    fun r hr => KeyedTable.find?_key_of_mem (mem_dueRecords hr).1
  have hids := claimAll_ids now lease s (s.dueRecords queue limit now)
  rw [claimDue_eq]
  refine ⟨?_, ?_, ?_, ?_, ?_⟩
  · rw [ncard_dueTasks, ← List.length_take, ← dueRecords_eq]
    simpa only [List.length_map] using congrArg List.length hids
  · intro c hc
    obtain ⟨r, hr, hid, hstored⟩ :=
      leased_of_mem_claimAll (dueRecords_ids_nodup s queue limit now) hfind hc
    obtain ⟨-, hqueue, hdue⟩ := mem_dueRecords hr
    exact ⟨r, ⟨hfind r hr, hqueue, (isDue_iff r now).mp hdue⟩, hid, hstored⟩
  · apply claimAll_ordered
    rw [dueRecords_eq]
    exact hsorted.sublist (List.take_sublist _ _)
  · intro r hr hnot c hc
    rw [hids] at hnot
    obtain ⟨r', hr', htask⟩ := task_of_mem_claimAll hc
    -- a due record that was not taken stands behind the cut
    have hdue : r ∈ dueInOrder s queue now :=
      mem_dueInOrder.mpr ⟨hr.1, hr.2.1, (isDue_iff r now).mpr hr.2.2⟩
    rw [dueRecords_eq] at hnot hr'
    rw [← List.take_append_drop limit.toNat (dueInOrder s queue now)] at hdue hsorted
    rcases List.mem_append.mp hdue with hin | hout
    · exact absurd (List.mem_map_of_mem hin) hnot
    · rw [htask, earlier_claim_left]
      exact (List.pairwise_append.mp hsorted).2.2 r' hr' r hout
  · intro id hid
    rw [hids] at hid
    exact find?_claimAll_of_not_mem now lease s _ hid

/-- In every store that Submit-shaped tasks can reach, a claim takes the first due tasks
of its queue and nothing else, each under a token that no grant had before. -/
theorem claimDue_takes_least_due (past : List Op) (hpast : Shaped past) (queue : String)
    (limit : Int) (lease : Duration) (now : Time) :
    ∃ claims, ((stateAfter past).claimDue queue limit lease now).2 = .ok claims ∧
      ClaimsExactly (stateAfter past) ((stateAfter past).claimDue queue limit lease now).1
        queue limit lease now claims ∧
      ((grants (history past)).map Claimed.token ++ claims.map Claimed.token).Nodup := by
  refine ⟨_, by rw [claimDue_eq], claimsExactly hpast.scheduled queue limit lease now, ?_⟩
  have hnodup := (FencingInv.reachable (past ++ [.claimDue queue limit lease now])).tokens_nodup
  rw [history, trace_concat, grants_concat, List.map_append] at hnodup
  have hreply : (entry step (run step Store.new past) (.claimDue queue limit lease now)).output =
      .claimed (Store.claimAll now lease (stateAfter past)
        ((stateAfter past).dueRecords queue limit now)).2 := by
    simp only [entry, step, claimDue_eq]
    rfl
  rwa [hreply] at hnodup

/-- A task is claimed for ten units of time, and two later ones are submitted. -/
def leaseThenSubmits : List Op :=
  [.enqueue (.submitted "a" "q" "h" 0), .claimDue "q" 1 10 0, .enqueue (.submitted "c" "q" "h" 2),
    .enqueue (.submitted "b" "q" "h" 1)]

/-- A claim of two of the three due tasks takes the one whose lease expired, with the attempt
that records it, and the older one of the others. -/
theorem claimDue_takes_least_due_leaseThenSubmits : ∃ claims,
    ((stateAfter leaseThenSubmits).claimDue "q" 2 10 20).2 = .ok claims ∧
      ClaimsExactly (stateAfter leaseThenSubmits)
        ((stateAfter leaseThenSubmits).claimDue "q" 2 10 20).1 "q" 2 10 20 claims ∧
      claims.map (fun c => (c.task.id, c.task.attempts.map Attempt.outcome)) =
        [("a", [.leaseExpired]), ("b", [])] := by
  have hshaped : Shaped leaseThenSubmits := by
    intro task ht
    simp only [leaseThenSubmits, List.mem_cons, List.not_mem_nil, Op.enqueue.injEq, reduceCtorEq,
      or_false, false_or] at ht
    rcases ht with rfl | rfl | rfl
    · exact Envelope.submitted_shaped "a" "q" "h" 0
    · exact Envelope.submitted_shaped "c" "q" "h" 2
    · exact Envelope.submitted_shaped "b" "q" "h" 1
  obtain ⟨claims, hok, hexact, -⟩ :=
    claimDue_takes_least_due leaseThenSubmits hshaped "q" 2 10 20
  have hids : ((stateAfter leaseThenSubmits).claimDue "q" 2 10 20).2.map
      (List.map fun c => (c.task.id, c.task.attempts.map Attempt.outcome)) =
        .ok [("a", [.leaseExpired]), ("b", [])] := by
    decide
  rw [hok] at hids
  exact ⟨claims, hok, hexact, Except.ok.inj hids⟩

end Rdq.MemStore
