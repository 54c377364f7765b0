import Mathlib
import Rdq.Foundation.Trace
import Rdq.MemStore.Transition

/-!
# Fencing over whole runs

The history of a run names every grant, every accepted outcome and every
removal. A token is retired once an outcome call with it was accepted, or once
its task was granted again or removed after the grant. The invariant ties the
history to the store: the granted tokens are exactly those minted so far, a
stored token is the one of its task's latest grant, and a retired token is
stored nowhere.
-/

namespace Rdq.MemStore

open Rdq.Foundation

variable {token : ClaimToken} {r : Record} {op : Op}

/-- One recorded call. -/
abbrev Call := Entry Store Op Reply

/-- The state after a list of calls on the empty store. -/
def stateAfter (ops : List Op) : Store := run step Store.new ops

/-- The recorded calls of a list of calls on the empty store. -/
def history (ops : List Op) : List Call := trace step Store.new ops

/-- All grants of a history, oldest first. -/
def grants (tr : List Call) : List Claimed := tr.flatMap fun e => e.output.claims

/-- The token of the latest grant of a task. -/
def latestGrant (tr : List Call) (id : TaskID) : Option ClaimToken :=
  ((grants tr).reverse.find? fun c => c.task.id = id).map Claimed.token

/-- The call granted the task under the token. -/
def Grants (e : Call) (id : TaskID) (token : ClaimToken) : Prop :=
  ∃ c ∈ e.output.claims, c.task.id = id ∧ c.token = token

/-- The call was an accepted outcome call with the token. -/
def Spends (e : Call) (token : ClaimToken) : Prop :=
  ∃ id, e.input.outcome? = some (id, token) ∧ e.output = .done

/-- The call took the task out of the store. -/
def Removes (e : Call) (id : TaskID) : Prop :=
  e.pre.tasks.find? id ≠ none ∧ e.post.tasks.find? id = none

/-- The token was used by an accepted outcome call, or its task was granted
again or removed after its grant. -/
def Retired (tr : List Call) (token : ClaimToken) : Prop :=
  (∃ e ∈ tr, Spends e token) ∨
    ∃ e e' id, List.Sublist [e, e'] tr ∧ Grants e id token ∧
      ((∃ token', Grants e' id token') ∨ Removes e' id)

/-- An outcome call on the task with the token would be accepted. -/
def Accepts (s : Store) (id : TaskID) (token : ClaimToken) : Prop :=
  ∃ op : Op, op.outcome? = some (id, token) ∧ (step s op).2 = .done

theorem mintToken_injective : Function.Injective mintToken := by
  intro m n h
  exact Nat.repr_inj.mp ((String.append_right_inj "ct-").mp h)

theorem mintToken_ne_empty (n : Nat) : mintToken n ≠ "" := by
  simp [mintToken]

@[simp] theorem grants_concat (tr : List Call) (e : Call) :
    grants (tr ++ [e]) = grants tr ++ e.output.claims := by
  simp [grants]

theorem latestGrant_mem {tr : List Call} {id : TaskID} (h : latestGrant tr id = some token) :
    ∃ c ∈ grants tr, c.task.id = id ∧ c.token = token := by
  obtain ⟨c, hc, rfl⟩ := Option.map_eq_some_iff.mp h
  exact ⟨c, List.mem_reverse.mp (List.mem_of_find?_eq_some hc),
    by simpa using List.find?_some hc, rfl⟩

/-- A call that does not grant the task leaves its latest grant. -/
theorem latestGrant_concat_of_not_granted {tr : List Call} {e : Call} {id : TaskID}
    (h : ∀ c ∈ e.output.claims, c.task.id ≠ id) :
    latestGrant (tr ++ [e]) id = latestGrant tr id := by
  have hnone : (e.output.claims.reverse.find? fun c => decide (c.task.id = id)) = none := by
    simpa [List.find?_eq_none] using h
  simp [latestGrant, List.find?_append, hnone]

/-- After a call that grants the task, the latest grant is one of the call's. -/
theorem latestGrant_concat_of_granted (tr : List Call) (e : Call) {c : Claimed}
    (hc : c ∈ e.output.claims) :
    ∃ c' ∈ e.output.claims, c'.task.id = c.task.id ∧
      latestGrant (tr ++ [e]) c.task.id = some c'.token := by
  cases hf : e.output.claims.reverse.find? fun c' => decide (c'.task.id = c.task.id) with
  | none =>
    have := List.find?_eq_none.mp hf c (List.mem_reverse.mpr hc)
    simp at this
  | some c' =>
    refine ⟨c', List.mem_reverse.mp (List.mem_of_find?_eq_some hf), ?_, ?_⟩
    · simpa using List.find?_some hf
    · simp [latestGrant, List.find?_append, hf]

/-! ## One call and the stored tokens -/

@[simp] theorem token_claim (r : Record) (now : Time) (lease : Duration) (token : ClaimToken) :
    (r.claim now lease token).token = token := by
  simp only [Record.claim]

@[simp] theorem token_redrive_iterate (now : Time) (n : Nat) (r : Record) :
    ((Record.redrive now)^[n] r).token = r.token := by
  induction n generalizing r with
  | zero => rfl
  | succ n ih =>
    rw [Function.iterate_succ_apply, ih]
    rfl

/-- A call that does not grant the task either clears its token or keeps it. -/
theorem token_of_not_granted {s : Store} {id : TaskID} (hr : (step s op).1.tasks.find? id = some r)
    (hgrant : ∀ c ∈ (step s op).2.claims, c.task.id ≠ id) (hne : r.token ≠ "") :
    ∃ r₀, s.tasks.find? id = some r₀ ∧ r₀.token = r.token := by
  have hch := step_change s id op
  rw [hr] at hch
  cases hf : s.tasks.find? id with
  | none =>
    rw [hf] at hch
    cases hch with
    | admitted task hop => exact absurd rfl hne
  | some r₀ =>
    rw [hf] at hch
    refine ⟨r₀, rfl, ?_⟩
    have hid : r₀.id = id := KeyedTable.key_of_find? hf
    cases hch with
    | keep => rfl
    | claim _ c seq queue limit lease now hop hdue hqueue hc hcid =>
      exact absurd (hcid.trans hid) (hgrant c hc)
    | extend => rfl
    | reschedule | complete | deadLetter => exact absurd rfl hne
    | redrive _ n queue sel now => exact (token_redrive_iterate now (n + 1) r₀).symm

/-- A granted task stores the granted token. -/
theorem token_of_granted {s : Store} {c : Claimed} (hc : c ∈ (step s op).2.claims)
    (hr : (step s op).1.tasks.find? c.task.id = some r) :
    r.token = c.token := by
  obtain ⟨r₀, _, _, lease, now, _, _, _, _, _, hnew⟩ := step_granted hc
  rw [hr] at hnew
  cases hnew
  rfl

/-- An accepted outcome call clears the token of its task. -/
theorem token_of_spent {s : Store} {id : TaskID} (hop : op.outcome? = some (id, token))
    (hdone : (step s op).2 = .done) (hr : (step s op).1.tasks.find? id = some r) :
    r.token = "" := by
  obtain ⟨r₀, hf, hst, hne, ht⟩ := live_of_step_done (Op.fenced?_of_outcome? hop) hdone
  have hres : s.resolveClaim id token = .ok r₀ := by
    have hnt : ¬ (r₀.env.status ≠ .inFlight ∨ r₀.token = "" ∨ r₀.token ≠ token) := by
      push Not
      exact ⟨hst, hne, ht⟩
    simp only [Store.resolveClaim, hf, hnt, if_false]
  cases op with
  | reschedule | complete | deadLetter =>
    cases hop
    simp only [step, Store.reschedule, Store.complete, Store.deadLetter, hres, Prod.map_fst,
      id_eq, KeyedTable.find?_modify_self, hf, Option.map_some, Option.some.injEq] at hr
    rw [← hr]
    rfl
  | enqueue | claimDue | extendLease | redrive | purge | purgeSucceeded => cases hop

/-! ## The invariant -/

/-- The history and the store agree on every token. -/
structure FencingInv (tr : List Call) (s : Store) : Prop where
  minted : (grants tr).map Claimed.token = (List.range' 1 s.claimSeq).map mintToken
  current : ∀ id r, s.tasks.find? id = some r → r.token ≠ "" →
    latestGrant tr id = some r.token
  retired : ∀ token, Retired tr token → token ∈ (grants tr).map Claimed.token ∧
    ∀ id r, s.tasks.find? id = some r → r.token ≠ token

namespace FencingInv
variable {tr : List Call} {s : Store}

theorem tokens_nodup (h : FencingInv tr s) : ((grants tr).map Claimed.token).Nodup := by
  rw [h.minted]
  exact (List.nodup_range' 1).map mintToken_injective

theorem token_ne_empty (h : FencingInv tr s) (ht : token ∈ (grants tr).map Claimed.token) :
    token ≠ "" := by
  rw [h.minted] at ht
  obtain ⟨n, _, rfl⟩ := List.mem_map.mp ht
  exact mintToken_ne_empty n

/-- A token is granted to one task only. -/
theorem task_of_token (h : FencingInv tr s) {c c' : Claimed} (hc : c ∈ grants tr)
    (hc' : c' ∈ grants tr) (ht : c.token = c'.token) : c = c' :=
  List.inj_on_of_nodup_map h.tokens_nodup hc hc' ht

theorem init : FencingInv [] Store.new where
  minted := rfl
  current := by
    intro id r hr
    cases hr
  retired := by
    rintro token (⟨e, he, _⟩ | ⟨e, e', id, hsub, _⟩)
    · cases he
    · cases hsub

/-- The minted tokens after one more call. -/
theorem minted_step (h : FencingInv tr s) (op : Op) :
    (grants (tr ++ [entry step s op])).map Claimed.token =
      (List.range' 1 (step s op).1.claimSeq).map mintToken := by
  obtain ⟨hseq, htokens, _⟩ := step_grants s op
  rw [grants_concat, List.map_append, h.minted, hseq]
  simp only [entry]
  rw [htokens, ← List.map_append, Nat.add_comm s.claimSeq 1, List.range'_append_1]

theorem current_step (h : FencingInv tr s) (op : Op) {id : TaskID}
    (hr : (step s op).1.tasks.find? id = some r) (hne : r.token ≠ "") :
    latestGrant (tr ++ [entry step s op]) id = some r.token := by
  by_cases hg : ∃ c ∈ (step s op).2.claims, c.task.id = id
  · obtain ⟨c, hc, rfl⟩ := hg
    obtain ⟨c', hc', hid, hlatest⟩ :=
      latestGrant_concat_of_granted tr (entry step s op) hc
    rw [hlatest]
    rw [← hid] at hr
    rw [token_of_granted hc' hr]
  · have hg' : ∀ c ∈ (step s op).2.claims, c.task.id ≠ id := by
      intro c hc he
      exact hg ⟨c, hc, he⟩
    obtain ⟨r₀, hr₀, ht⟩ := token_of_not_granted hr hg' hne
    rw [latestGrant_concat_of_not_granted (e := entry step s op) hg']
    rw [← ht] at hne ⊢
    exact h.current id r₀ hr₀ hne

/-- A token of the earlier history that is stored after a call was stored
before it, under the same id, and the call did not grant that task. -/
theorem stored_before (h : FencingInv tr s) (op : Op) (ht : token ∈ (grants tr).map Claimed.token)
    {id : TaskID} (hr : (step s op).1.tasks.find? id = some r) (htoken : r.token = token) :
    (∀ c ∈ (step s op).2.claims, c.task.id ≠ id) ∧
      ∃ r₀, s.tasks.find? id = some r₀ ∧ r₀.token = token := by
  have hnd : ((grants (tr ++ [entry step s op])).map Claimed.token).Nodup := by
    rw [h.minted_step op]
    exact (List.nodup_range' 1).map mintToken_injective
  have hg : ∀ c ∈ (step s op).2.claims, c.task.id ≠ id := by
    intro c hc he
    subst he
    rw [grants_concat, List.map_append, List.nodup_append] at hnd
    refine hnd.2.2 token ht c.token (List.mem_map_of_mem hc) ?_
    rw [← htoken, token_of_granted hc hr]
  refine ⟨hg, ?_⟩
  obtain ⟨r₀, hr₀, he⟩ := token_of_not_granted hr hg (htoken ▸ h.token_ne_empty ht)
  exact ⟨r₀, hr₀, he.trans htoken⟩

theorem retired_step (h : FencingInv tr s) (op : Op)
    (hret : Retired (tr ++ [entry step s op]) token) :
    token ∈ (grants tr).map Claimed.token ∧
      ∀ id r, (step s op).1.tasks.find? id = some r → r.token ≠ token := by
  rcases hret with ⟨e, he, hsp⟩ | ⟨e, e', id₀, hsub, hgr, hend⟩
  · rcases List.mem_append.mp he with he | he
    · -- spent earlier
      obtain ⟨hmem, hno⟩ := h.retired token (Or.inl ⟨e, he, hsp⟩)
      refine ⟨hmem, fun id r hr ht => ?_⟩
      obtain ⟨_, r₀, hr₀, ht₀⟩ := h.stored_before op hmem hr ht
      exact hno id r₀ hr₀ ht₀
    · -- spent by this call: it was the token of one task, whose token is now empty
      obtain rfl := List.mem_singleton.mp he
      obtain ⟨id₀, hop, hdone⟩ := hsp
      obtain ⟨r₀, hf₀, _, hne₀, ht₀⟩ := live_of_step_done (Op.fenced?_of_outcome? hop) hdone
      obtain ⟨c₀, hc₀, hid₀, hct₀⟩ := latestGrant_mem (h.current id₀ r₀ hf₀ hne₀)
      have hmem : token ∈ (grants tr).map Claimed.token := by
        rw [← ht₀, ← hct₀]
        exact List.mem_map_of_mem hc₀
      refine ⟨hmem, fun id r hr ht => ?_⟩
      obtain ⟨_, r₁, hr₁, ht₁⟩ := h.stored_before op hmem hr ht
      have hne₁ : r₁.token ≠ "" := ht₁ ▸ h.token_ne_empty hmem
      obtain ⟨c₁, hc₁, hid₁, hct₁⟩ := latestGrant_mem (h.current id r₁ hr₁ hne₁)
      have hcc : c₁ = c₀ := h.task_of_token hc₁ hc₀ (by rw [hct₁, hct₀, ht₁, ht₀])
      have hid : id = id₀ := by rw [← hid₁, ← hid₀, hcc]
      subst hid
      rw [token_of_spent hop hdone hr] at ht
      exact h.token_ne_empty hmem ht.symm
  · rcases pair_sublist_concat.mp hsub with hsub | ⟨he, rfl⟩
    · -- retired earlier
      obtain ⟨hmem, hno⟩ := h.retired token (Or.inr ⟨e, e', id₀, hsub, hgr, hend⟩)
      refine ⟨hmem, fun id r hr ht => ?_⟩
      obtain ⟨_, r₀, hr₀, ht₀⟩ := h.stored_before op hmem hr ht
      exact hno id r₀ hr₀ ht₀
    · -- this call grants the task again or removes it
      obtain ⟨c₀, hc₀, hid₀, hct₀⟩ := hgr
      have hin : c₀ ∈ grants tr := List.mem_flatMap.mpr ⟨e, he, hc₀⟩
      have hmem : token ∈ (grants tr).map Claimed.token := by
        rw [← hct₀]
        exact List.mem_map_of_mem hin
      refine ⟨hmem, fun id r hr ht => ?_⟩
      obtain ⟨hng, r₁, hr₁, ht₁⟩ := h.stored_before op hmem hr ht
      have hne₁ : r₁.token ≠ "" := ht₁ ▸ h.token_ne_empty hmem
      obtain ⟨c₁, hc₁, hid₁, hct₁⟩ := latestGrant_mem (h.current id r₁ hr₁ hne₁)
      have hcc : c₁ = c₀ := h.task_of_token hc₁ hin (by rw [hct₁, hct₀, ht₁])
      have hid : id = id₀ := by rw [← hid₁, ← hid₀, hcc]
      subst hid
      rcases hend with ⟨token', c', hc', hid', _⟩ | ⟨_, hgone⟩
      · exact hng c' hc' hid'
      · have hsome : (entry step s op).post.tasks.find? id = some r := hr
        rw [hgone] at hsome
        cases hsome

theorem step (h : FencingInv tr s) (op : Op) :
    FencingInv (tr ++ [entry MemStore.step s op]) (MemStore.step s op).1 where
  minted := h.minted_step op
  current := fun _ _ hr hne => h.current_step op hr hne
  retired := by
    intro token hret
    obtain ⟨hmem, hno⟩ := h.retired_step op hret
    refine ⟨?_, hno⟩
    rw [grants_concat, List.map_append]
    exact List.mem_append_left _ hmem

/-- The invariant holds after every list of calls. -/
theorem reachable (ops : List Op) : FencingInv (history ops) (stateAfter ops) :=
  trace_invariant (c := fun _ _ => True) init (fun _ _ op hinv _ => hinv.step op)
    (allSteps_of_forall (c := fun _ => True) (fun _ _ => trivial) _)

end FencingInv

/-- An accepted token is the one of its task's latest grant. -/
theorem latestGrant_of_accepts (ops : List Op) {id : TaskID}
    (h : Accepts (stateAfter ops) id token) : latestGrant (history ops) id = some token := by
  obtain ⟨op, hop, hdone⟩ := h
  obtain ⟨r, hf, _, hne, rfl⟩ := live_of_step_done (Op.fenced?_of_outcome? hop) hdone
  exact (FencingInv.reachable ops).current id r hf hne

/-- Fencing over whole runs: granted tokens never repeat, a task accepts at
most one token and that is the one of its latest grant, and a retired token is
refused from then on without any change to the store. -/
theorem fencing (ops : List Op) :
    ((grants (history ops)).map Claimed.token).Nodup ∧
      (∀ id token token', Accepts (stateAfter ops) id token →
        Accepts (stateAfter ops) id token' → token = token') ∧
      (∀ id token, Accepts (stateAfter ops) id token →
        latestGrant (history ops) id = some token) ∧
      (∀ token, Retired (history ops) token → ∀ op id, op.fenced? = some (id, token) →
        step (stateAfter ops) op = (stateAfter ops, .failed .staleClaim)) := by
  have hinv := FencingInv.reachable ops
  refine ⟨hinv.tokens_nodup, ?_, fun id token => latestGrant_of_accepts ops, ?_⟩
  · intro id token token' h h'
    have heq := (latestGrant_of_accepts ops h).symm.trans (latestGrant_of_accepts ops h')
    exact Option.some.inj heq
  · intro token hret op id hop
    apply step_of_not_live hop
    rintro ⟨r, hf, _, _, ht⟩
    exact (hinv.retired token hret).2 id r hf ht

end Rdq.MemStore
