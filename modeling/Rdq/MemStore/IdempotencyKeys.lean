import Mathlib.Data.Set.Function
import Rdq.MemStore.Lifecycle
import Rdq.Sdk.Submit

/-!
# Idempotency keys name one task

A submit by idempotency key takes its id from the hash of the queue and the key. The
charset of queue names keeps the separator out of them, so the hashed message determines
the pair, and the id is an id `ParseULID` accepts. In a store all of whose tasks were
submitted this way, the id of a record determines its queue.

## Implementation notes

No function into 128 bits is injective on all messages. The hash is injective on the
messages of a set of pairs, and the pairs that are submitted are taken from that set.
-/

namespace Rdq.Sdk

open Foundation
open Server (validQueue)

/-! ## The message of a pair -/

theorem mem_queue_ascii {queue : String} (h : validQueue queue = true) {c : Char}
    (hc : c ∈ queue.toList) : 0 < c.toNat ∧ c.toNat < 128 := by
  simp only [validQueue, Bool.and_eq_true, List.all_eq_true] at h
  have hchar := h.2 c hc
  simp only [Bool.or_eq_true, decide_eq_true_eq] at hchar
  rcases hchar with (((hlower | hdigit) | rfl) | rfl) | rfl
  · have hrange : 97 ≤ c.toNat ∧ c.toNat ≤ 122 := by
      simpa [Char.isLower, UInt32.le_iff_toNat_le] using hlower
    omega
  · have hrange := Char.isDigit_iff_toNat.mp hdigit
    have hzero : '0'.toNat = 48 := rfl
    have hnine : '9'.toNat = 57 := rfl
    omega
  · decide
  · decide
  · decide

theorem bytesOf_queue {queue : String} (h : validQueue queue = true) :
    bytesOf queue = asciiBytes queue.toList := by
  have hbytes := bytesOf_ofList fun c hc => (mem_queue_ascii h (c := c) hc).2
  rwa [String.ofList_toList] at hbytes

theorem zero_notMem_bytesOf {queue : String} (h : validQueue queue = true) :
    (0 : UInt8) ∉ bytesOf queue := by
  rw [bytesOf_queue h]
  intro hmem
  obtain ⟨c, hc, hzero⟩ := List.mem_map.mp hmem
  obtain ⟨hpos, hlt⟩ := mem_queue_ascii h hc
  have hnat := congrArg UInt8.toNat hzero
  rw [UInt8.toNat_ofNat', Nat.mod_eq_of_lt (by omega)] at hnat
  exact absurd hnat (Nat.ne_of_gt hpos)

/-- The message determines the pair. -/
theorem keyMessage_inj {queue queue' : String} {key key' : List UInt8}
    (h : validQueue queue = true) (h' : validQueue queue' = true)
    (heq : keyMessage queue key = keyMessage queue' key') : queue = queue' ∧ key = key' := by
  obtain ⟨hqueue, hkey⟩ :=
    append_cons_inj (zero_notMem_bytesOf h) (zero_notMem_bytesOf h') heq
  exact ⟨bytesOf_injective hqueue, hkey⟩

/-! ## The id of a pair -/

/-- A queue with an idempotency key. -/
abbrev KeyPair := String × List UInt8

def KeyPair.message (pair : KeyPair) : List UInt8 := keyMessage pair.1 pair.2

variable (hash : List UInt8 → ULID)

def pairID (pair : KeyPair) : TaskID := idText (hash pair.message).string

/-- What some call of `Submit` with the queue and the key of `pair` returned. -/
def SubmittedByKey (pair : KeyPair) (e : Envelope) : Prop :=
  ∃ sys handlerRef payload opts, sys.sha256 = hash ∧ (applyAll opts).idempotencyKey = pair.2 ∧
    pair.2 ≠ [] ∧ submit sys pair.1 handlerRef payload opts = .ok e

variable {hash} {pair pair' : KeyPair} {e : Envelope}

theorem SubmittedByKey.named (h : SubmittedByKey hash pair e) :
    validQueue pair.1 = true ∧ e.id = pairID hash pair ∧ e.queue = pair.1 := by
  obtain ⟨sys, handlerRef, payload, opts, rfl, hkey, hne, hsubmit⟩ := h
  obtain ⟨hqueue, -, hboth, hid, hequeue, -, -⟩ := submit_ok hsubmit
  rw [← hkey] at hne
  have hnone : (applyAll opts).explicitID = [] := by
    by_contra hexplicit
    exact hboth ⟨hexplicit, hne⟩
  rw [resolveID, if_neg (not_not.mpr hnone), if_pos hne, hkey] at hid
  exact ⟨hqueue, (Except.ok.inj hid).symm, hequeue⟩

theorem bytesOf_idText (id : ULID) : bytesOf (idText id.string) = id.string := by
  have hascii : ∀ c ∈ byteChars id.string, c.toNat < 128 := by
    intro c hc
    obtain ⟨b, hb, rfl⟩ := List.mem_map.mp hc
    have henc : ∀ b ∈ ulidEnc, b.toNat < 128 := by decide +kernel
    rw [toNat_ofNat_of_lt b.toNat_lt]
    exact henc b (id.canonical_string.2.1 b hb)
  rw [idText, bytesOf_ofList hascii, asciiBytes_byteChars]

/-- The id of a pair is one `ParseULID` accepts. -/
theorem parseULID_pairID (pair : KeyPair) :
    parseULID (bytesOf (pairID hash pair)) = .ok (hash pair.message) := by
  rw [pairID, bytesOf_idText, ULID.parseULID_string]

/-- Where the hash is injective, an id belongs to one pair. -/
theorem pairID_inj {S : Set KeyPair} (hinj : Set.InjOn hash (KeyPair.message '' S))
    (hS : pair ∈ S) (hS' : pair' ∈ S) (hq : validQueue pair.1 = true)
    (hq' : validQueue pair'.1 = true) (h : pairID hash pair = pairID hash pair') :
    pair = pair' := by
  have hparse : parseULID (bytesOf (pairID hash pair)) =
      parseULID (bytesOf (pairID hash pair')) := congrArg (fun id => parseULID (bytesOf id)) h
  rw [parseULID_pairID, parseULID_pairID] at hparse
  have hmessage : pair.message = pair'.message :=
    hinj (Set.mem_image_of_mem _ hS) (Set.mem_image_of_mem _ hS') (Except.ok.inj hparse)
  obtain ⟨hqueue, hkey⟩ := keyMessage_inj hq hq' hmessage
  exact Prod.ext hqueue hkey

end Rdq.Sdk

namespace Rdq.MemStore

open Foundation
open Sdk (KeyPair SubmittedByKey pairID pairID_inj parseULID_pairID System SubmitOption applyAll
  checkHeaders submit submit_of_key)
open Server (validQueue)

/-! ## The records of a store -/

theorem Record.queue_claim (now : Time) (lease : Duration) (token : ClaimToken) (r : Record) :
    (r.claim now lease token).env.queue = r.env.queue := by
  simp only [Record.claim]
  split <;> rfl

/-- A record is a task just enqueued, or keeps the id and the queue it had. -/
theorem Change.named {s s' : Store} {op : Op} {reply : Reply} {x : Option Record} {r' : Record}
    (h : Change s op s' reply x (some r')) :
    (∃ task, op = .enqueue task ∧ r'.env = task) ∨
      ∃ r, x = some r ∧ r'.env.id = r.env.id ∧ r'.env.queue = r.env.queue := by
  cases h with
  | keep => exact Or.inr ⟨r', rfl, rfl, rfl⟩
  | admitted task hop => exact Or.inl ⟨task, hop, rfl⟩
  | claim r => exact Or.inr ⟨r, rfl, Record.id_claim .., Record.queue_claim ..⟩
  | extend r => exact Or.inr ⟨r, rfl, rfl, rfl⟩
  | reschedule r => exact Or.inr ⟨r, rfl, rfl, rfl⟩
  | complete r => exact Or.inr ⟨r, rfl, rfl, rfl⟩
  | deadLetter r => exact Or.inr ⟨r, rfl, rfl, rfl⟩
  | redrive r n queue sel now =>
    refine Or.inr ⟨r, rfl, ?_⟩
    have hiter : ∀ m, ((Record.redrive now)^[m] r).env.id = r.env.id ∧
        ((Record.redrive now)^[m] r).env.queue = r.env.queue := by
      intro m
      induction m with
      | zero => exact ⟨rfl, rfl⟩
      | succ m ih =>
        rw [Function.iterate_succ_apply']
        exact ih
    exact hiter (n + 1)

variable (hash : List UInt8 → ULID) (S : Set KeyPair)

/-- Every record has the id and the queue of a pair. -/
def Keyed (s : Store) : Prop :=
  ∀ id r, s.tasks.find? id = some r →
    ∃ pair ∈ S, validQueue pair.1 = true ∧ r.env.id = pairID hash pair ∧ r.env.queue = pair.1

/-- All tasks of the calls are submitted by the idempotency key of a pair. -/
def KeyedCalls (ops : List Op) : Prop :=
  ∀ task, Op.enqueue task ∈ ops → ∃ pair ∈ S, SubmittedByKey hash pair task

variable {hash S} {s : Store}

theorem keyed_step {op : Op} (hs : Keyed hash S s)
    (hop : ∀ task, op = .enqueue task → ∃ pair ∈ S, SubmittedByKey hash pair task) :
    Keyed hash S (step s op).1 := by
  intro id r' hr'
  have hchange := step_change s id op
  rw [hr'] at hchange
  rcases hchange.named with ⟨task, henqueue, rfl⟩ | ⟨r, hr, hid, hqueue⟩
  · obtain ⟨pair, hpair, hsubmitted⟩ := hop _ henqueue
    exact ⟨pair, hpair, hsubmitted.named⟩
  · rw [hid, hqueue]
    exact hs id r hr

theorem keyed_new : Keyed hash S Store.new := by
  intro id r hr
  cases hr

theorem keyed_stateAfter {ops : List Op} (hops : KeyedCalls hash S ops) :
    Keyed hash S (stateAfter ops) := by
  apply run_invariant (P := Keyed hash S) keyed_new
  · exact fun s op hs hop => keyed_step hs hop
  · exact allSteps_enqueue hops Store.new

/-- The store is keyed at the start of every call. -/
theorem keyed_history {ops : List Op} (hops : KeyedCalls hash S ops) {call : Call}
    (hcall : call ∈ history ops) : Keyed hash S call.pre := by
  have hall := AllSteps.with_invariant (P := Keyed hash S) keyed_new
    (fun s op hs hop => keyed_step hs hop) (allSteps_enqueue hops Store.new)
  exact (allSteps_iff_trace.mp hall call hcall).1

/-- In a keyed store an enqueue of a pair adds its record, or finds it in the same queue. -/
theorem step_enqueue_keyed (hinj : Set.InjOn hash (KeyPair.message '' S)) (hs : Keyed hash S s)
    {pair : KeyPair} (hpair : pair ∈ S) {e : Envelope} (he : SubmittedByKey hash pair e) :
    (step s (.enqueue e)).2 = .done ∧
      (s.tasks.find? e.id ≠ none → (step s (.enqueue e)).1 = s) := by
  obtain ⟨hvalid, hid, hqueue⟩ := he.named
  cases hfind : s.tasks.find? e.id with
  | none => simp [step, Store.enqueue, hfind, Reply.ofUnit]
  | some r =>
    have hkey : r.id = e.id := KeyedTable.key_of_find? hfind
    obtain ⟨pair', hpair', hvalid', hid', hqueue'⟩ := hs e.id r hfind
    have hsame : pair' = pair := by
      apply pairID_inj hinj hpair' hpair hvalid' hvalid
      exact hid'.symm.trans (hkey.trans hid)
    have hsameQueue : r.env.queue = e.queue := by rw [hqueue', hsame, hqueue]
    simp [step, Store.enqueue, hfind, hsameQueue, Reply.ofUnit]

variable (hash S) in
/-- What it means that the pairs of `S` name one task each. -/
structure NamesOneTask : Prop where
  /-- A call with valid names and headers and a non-empty key returns an envelope. -/
  returned : ∀ (sys : System) (queue handlerRef : String) (payload : Option (List UInt8))
    (opts : List SubmitOption), sys.sha256 = hash → validQueue queue = true →
    validQueue handlerRef = true → checkHeaders (applyAll opts).headers.entries = .ok () →
    (applyAll opts).explicitID = [] → (applyAll opts).idempotencyKey ≠ [] →
    ∃ e, submit sys queue handlerRef payload opts = .ok e ∧
      SubmittedByKey hash (queue, (applyAll opts).idempotencyKey) e
  /-- Every call with the same pair yields the same id, and `ParseULID` accepts it. -/
  same : ∀ pair e e', SubmittedByKey hash pair e → SubmittedByKey hash pair e' →
    e.id = e'.id ∧ ∃ id, parseULID (bytesOf e.id) = .ok id
  distinct : ∀ pair ∈ S, ∀ pair' ∈ S, pair ≠ pair' → ∀ e e', SubmittedByKey hash pair e →
    SubmittedByKey hash pair' e' → e.id ≠ e'.id
  /-- Submitting a pair again while it has a stored task changes nothing. -/
  repeated : ∀ ops, KeyedCalls hash S ops → ∀ pair ∈ S, ∀ first again,
    SubmittedByKey hash pair first → SubmittedByKey hash pair again →
    (stateAfter ops).tasks.find? first.id ≠ none →
    step (stateAfter ops) (.enqueue again) = (stateAfter ops, .done)
  /-- No enqueue of a history is refused as a conflict. -/
  no_conflict : ∀ ops, KeyedCalls hash S ops → ∀ call ∈ history ops,
    (∃ task, call.input = .enqueue task) → call.output ≠ .failed .idConflict

theorem same_id {pair : KeyPair} {e e' : Envelope} (h : SubmittedByKey hash pair e)
    (h' : SubmittedByKey hash pair e') : e.id = e'.id :=
  h.named.2.1.trans h'.named.2.1.symm

/-- Where the hash is injective on the messages of the pairs, each pair names one task. -/
theorem idempotency_keys_name_one_task (hinj : Set.InjOn hash (KeyPair.message '' S)) :
    NamesOneTask hash S where
  returned sys queue handlerRef payload opts hhash hqueue hhandler hheaders hid hkey := by
    obtain ⟨e, he⟩ := submit_of_key sys payload hqueue hhandler hheaders hid hkey
    exact ⟨e, he, sys, handlerRef, payload, opts, hhash, rfl, hkey, he⟩
  same pair e e' he he' := by
    refine ⟨same_id he he', hash pair.message, ?_⟩
    rw [he.named.2.1, parseULID_pairID]
  distinct pair hpair pair' hpair' hne e e' he he' := by
    intro hid
    apply hne
    apply pairID_inj hinj hpair hpair' he.named.1 he'.named.1
    rw [← he.named.2.1, ← he'.named.2.1, hid]
  repeated ops hops pair hpair first again hfirst hagain hstored := by
    rw [same_id hfirst hagain] at hstored
    obtain ⟨hdone, hsame⟩ := step_enqueue_keyed hinj (keyed_stateAfter hops) hpair hagain
    exact Prod.ext (hsame hstored) hdone
  no_conflict ops hops call hcall := by
    rintro ⟨task, htask⟩
    obtain ⟨pair, hpair, he⟩ := hops task (htask ▸ input_mem_of_mem_trace hcall)
    have hkeyed := keyed_history hops hcall
    have hdone := (step_enqueue_keyed hinj hkeyed hpair he).1
    rw [entry_of_mem_trace hcall, htask]
    simp only [entry, hdone]
    decide

/-- A hash that keeps the first 16 bytes. -/
def headHash (message : List UInt8) : ULID := fun i => message.getD i 0

theorem idempotency_keys_two_queues :
    Set.InjOn headHash (KeyPair.message '' {("a", [1]), ("b", [1])}) ∧
      NamesOneTask headHash {("a", [1]), ("b", [1])} := by
  have hinj : Set.InjOn headHash (KeyPair.message '' {("a", [1]), ("b", [1])}) := by
    rintro _ ⟨pair, hpair, rfl⟩ _ ⟨pair', hpair', rfl⟩ h
    have hfirst := congrFun h 0
    rcases hpair with rfl | rfl <;> rcases hpair' with rfl | rfl
    · rfl
    · exact absurd hfirst (by decide)
    · exact absurd hfirst (by decide)
    · rfl
  exact ⟨hinj, idempotency_keys_name_one_task hinj⟩

end Rdq.MemStore
