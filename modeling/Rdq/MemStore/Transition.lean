import Rdq.MemStore.Store

/-!
# What one call does to one task

`Change` lists every way in which a single call can turn the record of one
task into another, with the guard under which the call does so. `step_change`
is the only place where the methods are taken apart; the invariants of the
store are proved from it by cases on `Change`.

A claim call may grant many tasks at once. Its answer is described next to
the change: the granted ids are pairwise distinct, and the granted tokens are
minted from consecutive values of the claim counter.
-/

namespace Rdq.MemStore

open Rdq.Foundation

variable {s : Store} {op : Op} {r : Record} {token : ClaimToken}

/-- `token` is the token an outcome call on `id` would accept. -/
def Live (s : Store) (id : TaskID) (token : ClaimToken) : Prop :=
  ∃ r, s.tasks.find? id = some r ∧ r.env.status = .inFlight ∧ r.token ≠ "" ∧ r.token = token

/-- The ways in which a call `op` of `s` that ends in `s'` with answer `reply`
changes the record of one task. -/
inductive Change (s : Store) (op : Op) (s' : Store) (reply : Reply) :
    Option Record → Option Record → Prop
  | keep (r : Option Record) : Change s op s' reply r r
  | admitted (task : Envelope) (hop : op = .enqueue task) :
      Change s op s' reply none (some { env := task })
  | claim (r : Record) (c : Claimed) (seq : Nat) (queue : String) (limit : Int)
      (lease : Duration) (now : Time) (hop : op = .claimDue queue limit lease now)
      (hdue : isDue r now = true) (hqueue : r.env.queue = queue) (hc : c ∈ reply.claims)
      (hid : c.task.id = r.id) (htoken : c.token = mintToken seq)
      (hlow : s.claimSeq < seq) (hhigh : seq ≤ s'.claimSeq)
      (htask : c.task = (r.claim now lease c.token).env)
      (hsel : r ∈ s.dueRecords queue limit now) :
      Change s op s' reply (some r) (some (r.claim now lease c.token))
  | extend (r : Record) (token : ClaimToken) (lease : Duration) (now : Time)
      (hop : op = .extendLease r.id token lease now) (hlive : r.env.status = .inFlight)
      (hne : r.token ≠ "") (htoken : r.token = token) :
      Change s op s' reply (some r) (some (r.extendLease now lease))
  | reschedule (r : Record) (token : ClaimToken) (att : Attempt) (nextAt : Time)
      (hop : op = .reschedule r.id token att nextAt) (hlive : r.env.status = .inFlight)
      (hne : r.token ≠ "") (htoken : r.token = token) :
      Change s op s' reply (some r) (some (r.reschedule att nextAt))
  | complete (r : Record) (token : ClaimToken) (att : Attempt) (now : Time)
      (hop : op = .complete r.id token att now) (hlive : r.env.status = .inFlight)
      (hne : r.token ≠ "") (htoken : r.token = token) :
      Change s op s' reply (some r) (some (r.complete att now))
  | deadLetter (r : Record) (token : ClaimToken) (att : Attempt) (now : Time)
      (hop : op = .deadLetter r.id token att now) (hlive : r.env.status = .inFlight)
      (hne : r.token ≠ "") (htoken : r.token = token) (hseq : s'.dlqSeq = s.dlqSeq + 1) :
      Change s op s' reply (some r) (some (r.deadLetter att now s'.dlqSeq))
  | redrive (r : Record) (n : Nat) (queue : String) (sel : Selector) (now : Time)
      (hop : op = .redrive queue sel now) (hdead : r.env.status = .dead)
      (hqueue : r.env.queue = queue) :
      Change s op s' reply (some r) (some ((Record.redrive now)^[n + 1] r))
  | purge (r : Record) (queue : String) (sel : Selector) (hop : op = .purge queue sel)
      (hdead : r.env.status = .dead) (hqueue : r.env.queue = queue) :
      Change s op s' reply (some r) none
  | sweep (r : Record) (queue : String) (olderThan : Time)
      (hop : op = .purgeSucceeded queue olderThan) (hdone : r.env.status = .succeeded)
      (hqueue : r.env.queue = queue) (hold : r.terminalAt < olderThan) :
      Change s op s' reply (some r) none

/-! ## The selected records -/

theorem mem_dueRecords {queue : String} {limit : Int} {now : Time}
    (h : r ∈ s.dueRecords queue limit now) :
    r ∈ s.tasks.rows ∧ r.env.queue = queue ∧ isDue r now = true := by
  have hs := (List.mem_insertionSort _).mp (List.mem_of_mem_take h)
  simpa using hs

theorem dueRecords_ids_nodup (s : Store) (queue : String) (limit : Int) (now : Time) :
    ((s.dueRecords queue limit now).map Record.id).Nodup := by
  apply (List.Sublist.map Record.id (List.take_sublist _ _)).nodup
  rw [((List.perm_insertionSort _ _).map Record.id).nodup_iff]
  exact (List.filter_sublist.map Record.id).nodup s.tasks.keys_nodup

theorem mem_selectDead {queue : String} {sel : Selector} (h : r ∈ s.selectDead queue sel) :
    r ∈ s.tasks.rows ∧ r.env.queue = queue ∧ r.env.status = .dead := by
  unfold Store.selectDead at h
  split at h
  · obtain ⟨id, _, hid⟩ := List.mem_filterMap.mp h
    obtain ⟨hf, hp⟩ := Option.filter_eq_some_iff.mp hid
    exact ⟨KeyedTable.mem_of_find? hf, by simpa using hp⟩
  · split at h
    · cases h
    · obtain ⟨hr, hp⟩ := List.mem_filter.mp h
      simp only [decide_eq_true_eq] at hp
      exact ⟨hr, hp.1, hp.2.1⟩

/-! ## The claim loop -/

section ClaimAll
variable (now : Time) (lease : Duration)

/-- The store after the first round of the claim loop. -/
def claimHead (s : Store) (r : Record) : Store :=
  { s with
    tasks := s.tasks.modify r.id (Record.claim now lease (mintToken (s.claimSeq + 1)))
      (Record.id_claim now lease _)
    claimSeq := s.claimSeq + 1 }

theorem find?_claimHead_of_ne (s : Store) {id : TaskID} (h : id ≠ r.id) :
    (claimHead now lease s r).tasks.find? id = s.tasks.find? id :=
  s.tasks.find?_modify_of_ne _ (Record.id_claim now lease _) h

theorem claimAll_cons (s : Store) (r : Record) (rest : List Record) :
    Store.claimAll now lease s (r :: rest) =
      ((Store.claimAll now lease (claimHead now lease s r) rest).1,
        ⟨(r.claim now lease (mintToken (s.claimSeq + 1))).env, mintToken (s.claimSeq + 1)⟩ ::
          (Store.claimAll now lease (claimHead now lease s r) rest).2) := rfl

theorem claimAll_claimSeq (s : Store) (rs : List Record) :
    (Store.claimAll now lease s rs).1.claimSeq = s.claimSeq + rs.length := by
  induction rs generalizing s with
  | nil => rfl
  | cons r rest ih =>
    rw [claimAll_cons, ih]
    simp only [claimHead, List.length_cons]
    omega

theorem claimAll_dlqSeq (s : Store) (rs : List Record) :
    (Store.claimAll now lease s rs).1.dlqSeq = s.dlqSeq := by
  induction rs generalizing s with
  | nil => rfl
  | cons r rest ih =>
    rw [claimAll_cons, ih]
    rfl

/-- The granted tokens are minted from consecutive counter values. -/
theorem claimAll_tokens (s : Store) (rs : List Record) :
    (Store.claimAll now lease s rs).2.map Claimed.token =
      (List.range' (s.claimSeq + 1) rs.length).map mintToken := by
  induction rs generalizing s with
  | nil => rfl
  | cons r rest ih =>
    rw [claimAll_cons, List.map_cons, ih, List.length_cons, List.range'_succ, List.map_cons]
    rfl

theorem claimAll_ids (s : Store) (rs : List Record) :
    (Store.claimAll now lease s rs).2.map (fun c => c.task.id) = rs.map Record.id := by
  induction rs generalizing s with
  | nil => rfl
  | cons r rest ih =>
    rw [claimAll_cons, List.map_cons, ih, List.map_cons]
    congr 1
    exact Record.id_claim now lease (mintToken (s.claimSeq + 1)) r

/-- Tasks that were not selected keep their record. -/
theorem find?_claimAll_of_not_mem (s : Store) (rs : List Record) {id : TaskID}
    (h : id ∉ rs.map Record.id) :
    (Store.claimAll now lease s rs).1.tasks.find? id = s.tasks.find? id := by
  induction rs generalizing s with
  | nil => rfl
  | cons r rest ih =>
    simp only [List.map_cons, List.mem_cons, not_or] at h
    rw [claimAll_cons, ih _ h.2]
    exact find?_claimHead_of_ne now lease s h.1

/-- Every selected task is granted once, and its stored record is the granted one. -/
theorem find?_claimAll_of_mem (s : Store) (rs : List Record) (hnd : (rs.map Record.id).Nodup)
    (hrs : ∀ r ∈ rs, s.tasks.find? r.id = some r) (hr : r ∈ rs) :
    ∃ c ∈ (Store.claimAll now lease s rs).2, ∃ seq, c.token = mintToken seq ∧
      s.claimSeq < seq ∧ seq ≤ s.claimSeq + rs.length ∧
      c.task = (r.claim now lease c.token).env ∧
      (Store.claimAll now lease s rs).1.tasks.find? r.id = some (r.claim now lease c.token) := by
  induction rs generalizing s with
  | nil => cases hr
  | cons r₀ rest ih =>
    simp only [List.map_cons, List.nodup_cons] at hnd
    rw [claimAll_cons]
    rcases List.mem_cons.mp hr with rfl | hrest
    · -- the head: later rounds do not touch it, because its id does not return
      refine ⟨_, List.mem_cons_self, s.claimSeq + 1, rfl, by omega, ?_, rfl, ?_⟩
      · simp only [List.length_cons]
        omega
      · rw [find?_claimAll_of_not_mem now lease _ rest hnd.1]
        simp [claimHead, hrs r (by simp)]
    · have hne : r.id ≠ r₀.id := by
        intro he
        exact hnd.1 (he ▸ List.mem_map_of_mem hrest)
      obtain ⟨c, hc, seq, ht, hlow, hhigh, htask, hfind⟩ :=
        ih (claimHead now lease s r₀) hnd.2 (by
          intro r' hr'
          have hne' : r'.id ≠ r₀.id := by
            intro he
            exact hnd.1 (he ▸ List.mem_map_of_mem hr')
          exact (find?_claimHead_of_ne now lease s hne').trans
            (hrs r' (List.mem_cons_of_mem _ hr'))) hrest
      refine ⟨c, List.mem_cons_of_mem _ hc, seq, ht, ?_, ?_, htask, hfind⟩
      · simp only [claimHead] at hlow
        omega
      · simp only [claimHead] at hhigh
        simp only [List.length_cons]
        omega

end ClaimAll

/-! ## Folding over a selection -/

/-- Redriving a list of records redrives a task once for every occurrence. -/
theorem find?_foldl_redrive (now : Time) (rs : List Record) (t : KeyedTable Record.id)
    (id : TaskID) :
    (rs.foldl (fun tasks r => tasks.modify r.id (Record.redrive now) (Record.id_redrive now))
        t).find? id =
      (t.find? id).map (Record.redrive now)^[(rs.map Record.id).count id] := by
  induction rs generalizing t with
  | nil => simp
  | cons r rest ih =>
    rw [List.foldl_cons, ih, List.map_cons]
    by_cases h : r.id = id
    · subst h
      rw [KeyedTable.find?_modify_self, Option.map_map, List.count_cons_self,
        Function.iterate_succ]
    · rw [KeyedTable.find?_modify_of_ne _ _ _ (Ne.symm h), List.count_cons_of_ne h]

/-- Erasing a list of records removes exactly their ids. -/
theorem find?_foldl_erase (rs : List Record) (t : KeyedTable Record.id) (id : TaskID) :
    (rs.foldl (fun tasks r => tasks.erase r.id) t).find? id =
      if id ∈ rs.map Record.id then none else t.find? id := by
  induction rs generalizing t with
  | nil => simp
  | cons r rest ih =>
    rw [List.foldl_cons, ih, List.map_cons]
    by_cases h : id = r.id
    · subst h
      simp
    · rw [KeyedTable.find?_erase_of_ne _ h]
      simp [h]

/-! ## Fenced calls -/

theorem resolveClaim_ok {id : TaskID} (h : s.resolveClaim id token = .ok r) :
    s.tasks.find? id = some r ∧ r.env.status = .inFlight ∧ r.token ≠ "" ∧ r.token = token := by
  unfold Store.resolveClaim at h
  split at h
  · cases h
  · rename_i r' hf
    split at h
    · cases h
    · rename_i hg
      cases h
      push Not at hg
      exact ⟨hf, hg⟩

theorem resolveClaim_error {id : TaskID} {e : StorageError}
    (h : s.resolveClaim id token = .error e) : e = .staleClaim ∧ ¬ Live s id token := by
  unfold Store.resolveClaim at h
  split at h
  · rename_i hf
    cases h
    refine ⟨rfl, ?_⟩
    rintro ⟨r, hr, _⟩
    rw [hf] at hr
    cases hr
  · rename_i r' hf
    split at h
    · rename_i hg
      cases h
      refine ⟨rfl, ?_⟩
      rintro ⟨r, hr, hst, hne, ht⟩
      rw [hf] at hr
      cases hr
      rcases hg with hg | hg | hg
      · exact hg hst
      · exact hne hg
      · exact hg ht
    · cases h

/-- A fenced call with any other token is refused and changes nothing. -/
theorem step_of_not_live {id : TaskID} (hop : op.fenced? = some (id, token))
    (h : ¬ Live s id token) :
    step s op = (s, .failed .staleClaim) := by
  have hres : s.resolveClaim id token = .error .staleClaim := by
    cases hr : s.resolveClaim id token with
    | ok r => exact absurd ⟨r, resolveClaim_ok hr⟩ h
    | error e => rw [(resolveClaim_error hr).1]
  cases op with
  | extendLease | reschedule | complete | deadLetter =>
    cases hop
    simp [step, Store.extendLease, Store.reschedule, Store.complete, Store.deadLetter, hres,
      Reply.ofUnit]
  | enqueue | claimDue | redrive | purge | purgeSucceeded => cases hop

/-- A fenced call that was not refused carried the live token of its task. -/
theorem live_of_step_done {id : TaskID} (hop : op.fenced? = some (id, token))
    (h : (step s op).2 = .done) : Live s id token := by
  by_contra hn
  rw [step_of_not_live hop hn] at h
  cases h

/-- With the live token of its task an outcome call is accepted. -/
theorem step_done_of_live {id : TaskID} (hop : op.outcome? = some (id, token))
    (h : Live s id token) : (step s op).2 = .done := by
  obtain ⟨r, hr, hstatus, hne, rfl⟩ := h
  have hres : s.resolveClaim id r.token = .ok r := by
    simp [Store.resolveClaim, hr, hstatus, hne]
  cases op with
  | reschedule | complete | deadLetter =>
    cases hop
    simp [step, Store.reschedule, Store.complete, Store.deadLetter, hres, Reply.ofUnit]
  | extendLease | enqueue | claimDue | redrive | purge | purgeSucceeded => cases hop

/-! ## One call, one task -/

section Change
variable (s : Store) (id : TaskID)

/-- What the call does to the task is one of the listed changes. -/
def Changes (op : Op) : Prop :=
  Change s op (step s op).1 (step s op).2 (s.tasks.find? id) ((step s op).1.tasks.find? id)

theorem enqueue_change (task : Envelope) :
    Changes s id (.enqueue task) := by
  simp only [Changes, step, Store.enqueue]
  split
  · split <;> exact .keep _
  · rename_i hf
    by_cases hid : task.id = id
    · subst hid
      have hnew : (s.tasks.insertNew { env := task }).find? task.id = some { env := task } :=
        KeyedTable.find?_insertNew_self hf
      simp only [Prod.map_fst, id_eq, hnew, hf]
      exact .admitted task rfl
    · simp only [Prod.map_fst, id_eq]
      rw [KeyedTable.find?_insertNew_of_ne s.tasks (a := ({ env := task } : Record)) hid]
      exact .keep _

theorem claimDue_change (queue : String) (limit : Int) (lease : Duration) (now : Time) :
    Changes s id (.claimDue queue limit lease now) := by
  simp only [Changes, step, Store.claimDue]
  split
  · exact .keep _
  · simp only [Prod.map_fst, id_eq, Prod.map_snd, Reply.ofClaims]
    by_cases hid : id ∈ (s.dueRecords queue limit now).map Record.id
    · obtain ⟨r, hr, rfl⟩ := List.mem_map.mp hid
      have hfind : ∀ r ∈ s.dueRecords queue limit now, s.tasks.find? r.id = some r :=
        fun r hr => KeyedTable.find?_key_of_mem (mem_dueRecords hr).1
      obtain ⟨c, hc, seq, ht, hlow, hhigh, htask, hnew⟩ :=
        find?_claimAll_of_mem now lease s _ (dueRecords_ids_nodup s queue limit now) hfind hr
      have hid' : c.task.id = r.id := by
        rw [htask]
        exact Record.id_claim now lease c.token r
      rw [hfind r hr, hnew]
      exact .claim r c seq queue limit lease now rfl (mem_dueRecords hr).2.2
        (mem_dueRecords hr).2.1 hc hid' ht hlow (by rw [claimAll_claimSeq]; exact hhigh) htask hr
    · rw [find?_claimAll_of_not_mem now lease s _ hid]
      exact .keep _

/-- A call that rewrites the record of one task leaves every other task alone. -/
theorem change_of_modify {s' : Store} {reply : Reply} {i : TaskID} {f : Record → Record}
    (hf : ∀ r, (f r).id = r.id) (htasks : s'.tasks = s.tasks.modify i f hf)
    (hr : s.tasks.find? i = some r) (hchange : Change s op s' reply (some r) (some (f r))) :
    Change s op s' reply (s.tasks.find? id) (s'.tasks.find? id) := by
  rw [htasks]
  by_cases hid : id = i
  · subst hid
    rw [KeyedTable.find?_modify_self, hr]
    exact hchange
  · rw [KeyedTable.find?_modify_of_ne _ _ _ hid]
    exact .keep _

theorem extendLease_change (i : TaskID) (token : ClaimToken) (lease : Duration) (now : Time) :
    Changes s id (.extendLease i token lease now) := by
  simp only [Changes, step, Store.extendLease]
  cases hres : s.resolveClaim i token with
  | error e => exact .keep _
  | ok r =>
    obtain ⟨hf, hst, hne, ht⟩ := resolveClaim_ok hres
    obtain rfl := KeyedTable.key_of_find? hf
    exact change_of_modify s id (Record.id_extendLease now lease) rfl hf
      (.extend r token lease now rfl hst hne ht)

theorem reschedule_change (i : TaskID) (token : ClaimToken) (att : Attempt) (nextAt : Time) :
    Changes s id (.reschedule i token att nextAt) := by
  simp only [Changes, step, Store.reschedule]
  cases hres : s.resolveClaim i token with
  | error e => exact .keep _
  | ok r =>
    obtain ⟨hf, hst, hne, ht⟩ := resolveClaim_ok hres
    obtain rfl := KeyedTable.key_of_find? hf
    exact change_of_modify s id (Record.id_reschedule att nextAt) rfl hf
      (.reschedule r token att nextAt rfl hst hne ht)

theorem complete_change (i : TaskID) (token : ClaimToken) (att : Attempt) (now : Time) :
    Changes s id (.complete i token att now) := by
  simp only [Changes, step, Store.complete]
  cases hres : s.resolveClaim i token with
  | error e => exact .keep _
  | ok r =>
    obtain ⟨hf, hst, hne, ht⟩ := resolveClaim_ok hres
    obtain rfl := KeyedTable.key_of_find? hf
    exact change_of_modify s id (Record.id_complete att now) rfl hf
      (.complete r token att now rfl hst hne ht)

theorem deadLetter_change (i : TaskID) (token : ClaimToken) (att : Attempt) (now : Time) :
    Changes s id (.deadLetter i token att now) := by
  simp only [Changes, step, Store.deadLetter]
  cases hres : s.resolveClaim i token with
  | error e => exact .keep _
  | ok r =>
    obtain ⟨hf, hst, hne, ht⟩ := resolveClaim_ok hres
    obtain rfl := KeyedTable.key_of_find? hf
    exact change_of_modify s id (Record.id_deadLetter att now _) rfl hf
      (.deadLetter r token att now rfl hst hne ht rfl)

theorem redrive_change (queue : String) (sel : Selector) (now : Time) :
    Changes s id (.redrive queue sel now) := by
  simp only [Changes, step, Store.redrive, Prod.map_fst, id_eq]
  rw [find?_foldl_redrive]
  by_cases hid : id ∈ (s.selectDead queue sel).map Record.id
  · obtain ⟨r, hr, rfl⟩ := List.mem_map.mp hid
    obtain ⟨hrow, hqueue, hdead⟩ := mem_selectDead hr
    obtain ⟨n, hn⟩ := Nat.exists_eq_succ_of_ne_zero
      (Nat.pos_iff_ne_zero.mp (List.count_pos_iff.mpr hid))
    rw [KeyedTable.find?_key_of_mem hrow, hn]
    exact .redrive r n queue sel now rfl hdead hqueue
  · rw [List.count_eq_zero_of_not_mem hid, Function.iterate_zero, Option.map_id, id_eq]
    exact .keep _

theorem purge_change (queue : String) (sel : Selector) :
    Changes s id (.purge queue sel) := by
  simp only [Changes, step, Store.purge, Prod.map_fst, id_eq]
  rw [find?_foldl_erase]
  split
  · rename_i hid
    obtain ⟨r, hr, rfl⟩ := List.mem_map.mp hid
    obtain ⟨hrow, hqueue, hdead⟩ := mem_selectDead hr
    rw [KeyedTable.find?_key_of_mem hrow]
    exact .purge r queue sel rfl hdead hqueue
  · exact .keep _

theorem purgeSucceeded_change (queue : String) (olderThan : Time) :
    Changes s id (.purgeSucceeded queue olderThan) := by
  simp only [Changes, step, Store.purgeSucceeded, Prod.map_fst, id_eq]
  rw [KeyedTable.find?_deleteWhere]
  cases hf : s.tasks.find? id with
  | none => exact .keep _
  | some r =>
    by_cases he : Store.isExpired queue olderThan r = true
    · simp only [Option.filter, he, Bool.not_true, Bool.false_eq_true, if_false]
      simp only [Store.isExpired, decide_eq_true_eq] at he
      exact .sweep r queue olderThan rfl he.2.1 he.1 he.2.2
    · simp only [Option.filter, he, Bool.not_false, if_true]
      exact .keep _

/-- Every call changes every task in one of the listed ways. -/
theorem step_change (op : Op) :
    Change s op (step s op).1 (step s op).2 (s.tasks.find? id)
      ((step s op).1.tasks.find? id) := by
  cases op with
  | enqueue task => exact enqueue_change s id task
  | claimDue queue limit lease now => exact claimDue_change s id queue limit lease now
  | extendLease i token lease now => exact extendLease_change s id i token lease now
  | reschedule i token att nextAt => exact reschedule_change s id i token att nextAt
  | complete i token att now => exact complete_change s id i token att now
  | deadLetter i token att now => exact deadLetter_change s id i token att now
  | redrive queue sel now => exact redrive_change s id queue sel now
  | purge queue sel => exact purge_change s id queue sel
  | purgeSucceeded queue olderThan => exact purgeSucceeded_change s id queue olderThan

end Change

/-! ## One call, all its grants -/

/-- The claim counter counts the grants, and mints their tokens in order. -/
theorem step_grants (s : Store) (op : Op) :
    (step s op).1.claimSeq = s.claimSeq + (step s op).2.claims.length ∧
      (step s op).2.claims.map Claimed.token =
        (List.range' (s.claimSeq + 1) (step s op).2.claims.length).map mintToken ∧
      ((step s op).2.claims.map fun c => c.task.id).Nodup := by
  cases op with
  | claimDue queue limit lease now =>
    simp only [step, Store.claimDue]
    split
    · simp [Reply.ofClaims, Reply.claims]
    · simp only [Prod.map_fst, id_eq, Prod.map_snd, Reply.ofClaims, Reply.claims]
      have hlen : (Store.claimAll now lease s (s.dueRecords queue limit now)).2.length =
          (s.dueRecords queue limit now).length := by
        simpa using congrArg List.length
          (claimAll_ids now lease s (s.dueRecords queue limit now))
      rw [hlen, claimAll_claimSeq, claimAll_tokens, claimAll_ids]
      exact ⟨rfl, rfl, dueRecords_ids_nodup s queue limit now⟩
  | enqueue task =>
    simp only [step, Store.enqueue]
    split
    · split <;> simp [Reply.ofUnit, Reply.claims]
    · simp [Reply.ofUnit, Reply.claims]
  | extendLease i token | reschedule i token | complete i token | deadLetter i token =>
    simp only [step, Store.extendLease, Store.reschedule, Store.complete, Store.deadLetter]
    cases s.resolveClaim i token <;> simp [Reply.ofUnit, Reply.claims]
  | redrive | purge | purgeSucceeded =>
    simp [step, Store.redrive, Store.purge, Store.purgeSucceeded, Reply.claims]

/-- Every grant hands out the record its task has after the call. -/
theorem step_granted {c : Claimed} (hc : c ∈ (step s op).2.claims) :
    ∃ r queue limit lease now, op = .claimDue queue limit lease now ∧
      s.tasks.find? c.task.id = some r ∧ r.env.queue = queue ∧ isDue r now = true ∧
      c.task = (r.claim now lease c.token).env ∧
      (step s op).1.tasks.find? c.task.id = some (r.claim now lease c.token) := by
  cases op with
  | claimDue queue limit lease now =>
    have hnd := (step_grants s (.claimDue queue limit lease now)).2.2
    simp only [step, Store.claimDue] at hc hnd ⊢
    split at hc
    · simp [Reply.ofClaims, Reply.claims] at hc
    · rename_i hlim
      simp only [hlim, if_false, Prod.map_fst, id_eq, Prod.map_snd, Reply.ofClaims,
        Reply.claims] at hc hnd ⊢
      have hid : c.task.id ∈ (s.dueRecords queue limit now).map Record.id := by
        rw [← claimAll_ids now lease s]
        exact List.mem_map_of_mem hc
      obtain ⟨r, hr, hrid⟩ := List.mem_map.mp hid
      have hfind : ∀ r ∈ s.dueRecords queue limit now, s.tasks.find? r.id = some r :=
        fun r hr => KeyedTable.find?_key_of_mem (mem_dueRecords hr).1
      obtain ⟨c', hc', _, _, _, _, htask, hnew⟩ :=
        find?_claimAll_of_mem now lease s _ (dueRecords_ids_nodup s queue limit now) hfind hr
      -- the granted ids are distinct, so the grant of this record is `c` itself
      have hcc : c' = c := by
        apply List.inj_on_of_nodup_map hnd hc' hc
        rw [htask, ← hrid]
        exact Record.id_claim now lease c'.token r
      subst hcc
      rw [← hrid]
      obtain ⟨-, hqueue, hdue⟩ := mem_dueRecords hr
      exact ⟨r, queue, limit, lease, now, rfl, hfind r hr, hqueue, hdue, htask, hnew⟩
  | enqueue task =>
    simp only [step, Store.enqueue] at hc
    split at hc
    · split at hc <;> simp [Reply.ofUnit, Reply.claims] at hc
    · simp [Reply.ofUnit, Reply.claims] at hc
  | extendLease i token | reschedule i token | complete i token | deadLetter i token =>
    simp only [step, Store.extendLease, Store.reschedule, Store.complete,
      Store.deadLetter] at hc
    cases hres : s.resolveClaim i token <;> simp [hres, Reply.ofUnit, Reply.claims] at hc
  | redrive | purge | purgeSucceeded =>
    simp [step, Store.redrive, Store.purge, Store.purgeSucceeded, Reply.claims] at hc

/-- Only a dead-letter call moves the dead-letter counter, by one. -/
theorem step_dlqSeq (s : Store) (op : Op) :
    (step s op).1.dlqSeq = s.dlqSeq ∨
      (step s op).1.dlqSeq = s.dlqSeq + 1 ∧ ∃ id token att now,
        op = .deadLetter id token att now := by
  cases op with
  | claimDue queue limit lease now =>
    simp only [step, Store.claimDue]
    split
    · exact Or.inl rfl
    · exact Or.inl (claimAll_dlqSeq now lease s _)
  | enqueue task =>
    simp only [step, Store.enqueue]
    split
    · split <;> exact Or.inl rfl
    · exact Or.inl rfl
  | extendLease i token | reschedule i token | complete i token =>
    simp only [step, Store.extendLease, Store.reschedule, Store.complete]
    cases s.resolveClaim i token <;> exact Or.inl rfl
  | deadLetter i token att now =>
    simp only [step, Store.deadLetter]
    cases s.resolveClaim i token with
    | error e => exact Or.inl rfl
    | ok r => exact Or.inr ⟨rfl, i, token, att, now, rfl⟩
  | redrive | purge | purgeSucceeded => exact Or.inl rfl

/-- A granted token is minted from a value the claim counter takes in the call. -/
theorem token_of_grant {c : Claimed} (hc : c ∈ (step s op).2.claims) :
    ∃ n, s.claimSeq < n ∧ n ≤ (step s op).1.claimSeq ∧ c.token = mintToken n := by
  obtain ⟨hseq, htokens, _⟩ := step_grants s op
  have hmem : c.token ∈ (step s op).2.claims.map Claimed.token := List.mem_map_of_mem hc
  rw [htokens] at hmem
  obtain ⟨n, hn, heq⟩ := List.mem_map.mp hmem
  rw [List.mem_range'_1] at hn
  exact ⟨n, by omega, by omega, heq.symm⟩

end Rdq.MemStore
