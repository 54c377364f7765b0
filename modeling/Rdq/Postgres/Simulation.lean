import Rdq.MemStore.Lifecycle
import Rdq.Postgres.SnapshotGet

/-!
# A task in the memstore and in Postgres

When a record of the memstore and the rows of a database describe the same task.
`Sim` relates the two for one id; each way of changing a task keeps it, whatever
call makes the change. The tokens of the two stores differ, so the relation is
taken along a renaming of tokens.

The attempts of a task are numbered from one in the database. The memstore numbers
the attempts it records itself by the retry budget, so only outcomes and error types
are related.
-/

namespace Rdq.Refinement

open Rdq.Foundation Rdq.Postgres
open Rdq.MemStore (Record)

/-! ## Attempts -/

/-- The attempts of a task are numbered from one on, in the order they were written. -/
def Numbered (rows : List AttemptRow) : Prop :=
  rows.map AttemptRow.attemptNo = (List.range rows.length).map fun i : Nat => (i : Int) + 1

/-- What both stores tell of an attempt. -/
def attemptKind (a : Attempt) : Outcome × Option String := (a.outcome, a.error.map TaskError.type)

def rowKind (a : AttemptRow) : Outcome × Option String := (a.outcome, a.errorType)

/-- The rows are those of the attempts. -/
structure SimAttempts (atts : List Attempt) (rows : List AttemptRow) : Prop where
  kinds : rows.map rowKind = atts.map attemptKind
  numbered : Numbered rows

namespace SimAttempts
variable {atts : List Attempt} {rows : List AttemptRow}

theorem nil : SimAttempts [] [] := ⟨rfl, rfl⟩

theorem length (h : SimAttempts atts rows) : rows.length = atts.length := by
  simpa using congrArg List.length h.kinds

theorem append (h : SimAttempts atts rows) {att : Attempt} {row : AttemptRow}
    (hkind : rowKind row = attemptKind att) (hno : row.attemptNo = rows.length + 1) :
    SimAttempts (atts ++ [att]) (rows ++ [row]) where
  kinds := by
    rw [List.map_append, List.map_append, h.kinds]
    simp [hkind]
  numbered := by
    have hold := h.numbered
    unfold Numbered at hold ⊢
    rw [List.map_append, hold, List.length_append, List.length_singleton, List.range_succ,
      List.map_append]
    simp [hno]

theorem mem_numbers (h : SimAttempts atts rows) {a : AttemptRow} (ha : a ∈ rows) :
    1 ≤ a.attemptNo ∧ a.attemptNo ≤ rows.length := by
  have hmem : a.attemptNo ∈ rows.map AttemptRow.attemptNo := List.mem_map_of_mem ha
  rw [h.numbered] at hmem
  obtain ⟨i, hi, heq⟩ := List.mem_map.mp hmem
  rw [List.mem_range] at hi
  omega

theorem sorted (h : SimAttempts atts rows) :
    rows.Pairwise fun a b => a.attemptNo ≤ b.attemptNo := by
  have hpair : (rows.map AttemptRow.attemptNo).Pairwise (· ≤ ·) := by
    rw [h.numbered, List.pairwise_map]
    refine List.pairwise_lt_range.imp ?_
    intro i j hij
    omega
  exact List.pairwise_map.mp hpair

/-- The largest number is that of the last attempt. -/
theorem max_eq (h : SimAttempts atts rows) :
    (rows.map AttemptRow.attemptNo).max?.getD 0 = rows.length := by
  cases hm : (rows.map AttemptRow.attemptNo).max? with
  | none =>
    rw [List.max?_eq_none_iff, List.map_eq_nil_iff] at hm
    rw [hm]
    rfl
  | some m =>
    obtain ⟨hmem, hle⟩ := List.max?_eq_some_iff.mp hm
    obtain ⟨a, ha, rfl⟩ := List.mem_map.mp hmem
    have hbound := h.mem_numbers ha
    have hlast : (rows.length : Int) ∈ rows.map AttemptRow.attemptNo := by
      rw [h.numbered]
      refine List.mem_map.mpr ⟨rows.length - 1, ?_, ?_⟩
      · rw [List.mem_range]
        omega
      · omega
    have := hle _ hlast
    simp only [Option.getD_some]
    omega

end SimAttempts

/-! ## One task -/

section
variable (ρ : ClaimToken → ClaimToken)

/-- The token column of a record. -/
def tokenColumn (token : ClaimToken) : Option ClaimToken :=
  if token = "" then none else some (ρ token)

/-- The columns both tables have. -/
structure SimRow (r : Record) (row : TaskRow) : Prop where
  queue : row.queue = r.env.queue
  handlerRef : row.handlerRef = r.env.handlerRef
  status : row.status = r.env.status
  attemptCount : row.attemptCount = r.env.attemptCount
  redriveCount : row.redriveCount = r.env.redriveCount
  nextAttemptAt : row.nextAttemptAt = r.env.nextAttemptAt
  leaseExpiresAt : row.leaseExpiresAt = r.env.leaseExpiresAt
  claimToken : row.claimToken = tokenColumn ρ r.token

/-- The error type a dead letter is filed under. -/
def finalType (atts : List Attempt) : Option String := atts.getLast?.bind errType

/-- The record of a task in the memstore, and what the tables hold about it. -/
inductive Sim : Option Record → View → Prop
  | absent : Sim none ⟨none, none, []⟩
  | live (r : Record) (row : TaskRow) (atts : List AttemptRow) (hrow : SimRow ρ r row)
      (halive : r.env.status ≠ .dead) (hatts : SimAttempts r.env.attempts atts)
      (hdue : r.env.status = .pending ∨ r.env.status = .inFlight →
        r.env.nextAttemptAt.isSome = true) :
      Sim (some r) ⟨some row, none, atts⟩
  | dead (r : Record) (d : DlqRow) (atts : List AttemptRow) (hrow : SimRow ρ r d.row)
      (hdead : r.env.status = .dead) (hatts : SimAttempts r.env.attempts atts)
      (hat : d.deadLetteredAt = r.terminalAt) (htype : d.errorType = finalType r.env.attempts) :
      Sim (some r) ⟨none, some d, atts⟩

end

variable {ρ : ClaimToken → ClaimToken}

theorem kind_of_attempt (id : TaskID) (att : Attempt) :
    rowKind (attemptRowFromAttempt id att) = attemptKind att := rfl

@[simp] theorem tokenColumn_empty : tokenColumn ρ "" = none := if_pos rfl

theorem tokenColumn_of_ne {token : ClaimToken} (h : token ≠ "") :
    tokenColumn ρ token = some (ρ token) := if_neg h

theorem finalType_append (atts : List Attempt) (att : Attempt) :
    finalType (atts ++ [att]) = errType att := by
  simp [finalType]

namespace Sim
variable {r : Record} {row : TaskRow} {d : DlqRow} {atts : List AttemptRow}

/-- A task the memstore holds and knows not to be DEAD has a live row. -/
theorem live_row {v : View} (h : Sim ρ (some r) v) (hst : r.env.status ≠ .dead) :
    ∃ row, v = ⟨some row, none, v.attempts⟩ ∧ SimRow ρ r row := by
  cases h with
  | live _ row _ hrow => exact ⟨row, rfl, hrow⟩
  | dead _ _ _ _ hdead => exact absurd hdead hst

theorem attempts {v : View} (h : Sim ρ (some r) v) : SimAttempts r.env.attempts v.attempts := by
  cases h with
  | live _ _ _ _ _ hatts => exact hatts
  | dead _ _ _ _ _ hatts => exact hatts

/-! ### What the calls do to one task -/

theorem admitted {task : Envelope} (h : task.SubmitShaped) :
    Sim ρ (some { env := task }) ⟨some (taskRowFromEnvelope task), none, []⟩ := by
  refine .live _ _ _ ⟨rfl, rfl, rfl, rfl, rfl, rfl, rfl, ?_⟩ ?_ ?_ fun _ => h.due
  · exact tokenColumn_empty.symm
  · simp [h.pending]
  · rw [show ({ env := task } : Record).env.attempts = [] from h.no_attempts]
    exact SimAttempts.nil

/-- A claim of a due task; the database records a reclaimed lease one past the others. -/
theorem claim (h : Sim ρ (some r) ⟨some row, none, atts⟩) {now : Time} (lease : Duration)
    {token : ClaimToken} (htoken : token ≠ "") (hdue : MemStore.isDue r now = true)
    {reclaim : AttemptRow} (hno : reclaim.attemptNo = atts.length + 1)
    (hkind : rowKind reclaim = (.leaseExpired, some MemStore.leaseExpiredType)) :
    Sim ρ (some (r.claim now lease token))
      ⟨some (row.claim now lease (ρ token)), none,
        atts ++ if row.status = .inFlight then [reclaim] else []⟩ := by
  cases h with
  | live _ _ _ hrow halive hatts hnext =>
    have hst : r.env.status = .pending ∨ r.env.status = .inFlight := by
      unfold MemStore.isDue at hdue
      split at hdue <;> simp_all
    have hnext' := hnext hst
    rw [hrow.status]
    rcases hst with hst | hst
    · have hclaim : r.claim now lease token = { r with
          env := { r.env with status := .inFlight, leaseExpiresAt := some (now + lease) }
          token := token
          claimedAt := now } := by simp [Record.claim, hst]
      rw [hclaim, if_neg (by simp [hst]), List.append_nil]
      refine .live _ _ _ ⟨hrow.queue, hrow.handlerRef, rfl, ?_, hrow.redriveCount,
        hrow.nextAttemptAt, rfl, (tokenColumn_of_ne htoken).symm⟩ (by simp) hatts fun _ => hnext'
      simp [TaskRow.claim, hrow.status, hst, hrow.attemptCount]
    · have hclaim : r.claim now lease token = { r with
          env := { r.env with
            status := .inFlight
            leaseExpiresAt := some (now + lease)
            attempts := r.env.attempts ++ [MemStore.leaseExpiredAttempt r now]
            attemptCount := r.env.attemptCount + 1 }
          token := token
          claimedAt := now } := by simp [Record.claim, hst, MemStore.appendAttempt]
      rw [hclaim, if_pos hst]
      refine .live _ _ _ ⟨hrow.queue, hrow.handlerRef, rfl, ?_, hrow.redriveCount,
        hrow.nextAttemptAt, rfl, (tokenColumn_of_ne htoken).symm⟩ (by simp) ?_ fun _ => hnext'
      · simp [TaskRow.claim, hrow.status, hst, hrow.attemptCount]
      · exact hatts.append hkind hno

theorem extendLease (h : Sim ρ (some r) ⟨some row, none, atts⟩) (now : Time) (lease : Duration) :
    Sim ρ (some (r.extendLease now lease)) ⟨some (row.extendLease now lease), none, atts⟩ := by
  cases h with
  | live _ _ _ hrow halive hatts hnext =>
    exact .live _ _ _ { hrow with leaseExpiresAt := rfl } halive hatts hnext

section Outcome
variable (h : Sim ρ (some r) ⟨some row, none, atts⟩) {att : Attempt} {a : AttemptRow}
  (hkind : rowKind a = attemptKind att) (hno : a.attemptNo = atts.length + 1)
include h hkind hno

theorem reschedule (nextAt : Time) :
    Sim ρ (some (r.reschedule att nextAt)) ⟨some (row.reschedule nextAt), none, atts ++ [a]⟩ := by
  cases h with
  | live _ _ _ hrow halive hatts hnext =>
    refine .live _ _ _ ⟨hrow.queue, hrow.handlerRef, rfl, ?_, hrow.redriveCount, rfl, rfl, ?_⟩
      ?_ (hatts.append hkind hno) fun _ => rfl
    · exact congrArg (· + 1) hrow.attemptCount
    · exact tokenColumn_empty.symm
    · exact fun hc => by cases hc

theorem complete (now : Time) :
    Sim ρ (some (r.complete att now)) ⟨some row.complete, none, atts ++ [a]⟩ := by
  cases h with
  | live _ _ _ hrow halive hatts hnext =>
    refine .live _ _ _ ⟨hrow.queue, hrow.handlerRef, rfl, ?_, hrow.redriveCount, rfl, rfl, ?_⟩
      ?_ (hatts.append hkind hno) ?_
    · exact congrArg (· + 1) hrow.attemptCount
    · exact tokenColumn_empty.symm
    · exact fun hc => by cases hc
    · rintro (hc | hc) <;> cases hc

theorem deadLetter (now : Time) (seq : Nat) :
    Sim ρ (some (r.deadLetter att now seq))
      ⟨none, some (row.deadLetter now (errType att)), atts ++ [a]⟩ := by
  cases h with
  | live _ _ _ hrow halive hatts hnext =>
    refine .dead _ _ _ ⟨hrow.queue, hrow.handlerRef, rfl, ?_, hrow.redriveCount, rfl, rfl, ?_⟩
      rfl (hatts.append hkind hno) rfl (finalType_append _ _).symm
    · exact congrArg (· + 1) hrow.attemptCount
    · exact tokenColumn_empty.symm

end Outcome

theorem redrive (h : Sim ρ (some r) ⟨none, some d, atts⟩) (htoken : r.token = "") (now : Time) :
    Sim ρ (some (r.redrive now)) ⟨some (d.redrive now), none, atts⟩ := by
  cases h with
  | dead _ _ _ hrow hdead hatts hat htype =>
    refine .live _ _ _ ⟨hrow.queue, hrow.handlerRef, rfl, rfl, ?_, rfl, rfl, ?_⟩ ?_ hatts
      fun _ => rfl
    · exact congrArg (· + 1) hrow.redriveCount
    · rw [show (r.redrive now).token = "" from htoken]
      exact tokenColumn_empty.symm
    · exact fun hc => by cases hc

end Sim

end Rdq.Refinement
