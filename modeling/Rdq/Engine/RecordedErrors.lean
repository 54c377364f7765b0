import Mathlib.Data.Nat.Digits.Defs
import Rdq.Core.Truncate
import Rdq.Engine.Process

/-!
# The size of recorded errors

The envelope limits an error's message to 4 KiB and its stack to 64 KiB, with a trailing
marker on a value that was cut. `core/envelope/validate.go` has `TruncateError` for the
writers; `core/engine/worker.go` builds its attempts without it. So an attempt is within
the limits exactly if the text it was made from is.
-/

namespace Rdq.Engine

open Foundation

/-- The size of a string in bytes. -/
def byteSize (s : String) : Nat := (utf8Bytes s.toList).length

@[simp] theorem byteSize_append (s t : String) : byteSize (s ++ t) = byteSize s + byteSize t := by
  simp [byteSize]

theorem byteSize_le (s : String) : byteSize s ≤ 4 * s.length := by
  have hchar (c : Char) : (String.utf8EncodeChar c).length ≤ 4 := by
    rw [← List.length_map (f := UInt8.toNat), ← utf8, utf8_eq]
    split_ifs <;> simp
  have hlist (l : List Char) : (utf8Bytes l).length ≤ 4 * l.length := by
    induction l with
    | nil => rfl
    | cons c l ih =>
      have := hchar c
      rw [utf8Bytes_cons, List.length_append, List.length_cons]
      omega
  exact hlist s.toList

/-- `text` is what a limit leaves of `full`: it is within the limit, and if it was cut it
ends in the marker. -/
def Limited (limit : Nat) (full text : String) : Prop :=
  byteSize text ≤ limit ∧ (text = full ∨ truncationMarker <:+ utf8Bytes text.toList)

theorem limited_self_iff {limit : Nat} {text : String} :
    Limited limit text text ↔ byteSize text ≤ limit :=
  and_iff_left (Or.inl rfl)

/-- An error recorded within the limits of the envelope. -/
def TaskErrorLimited (full recorded : TaskError) : Prop :=
  Limited maxMessageBytes full.message recorded.message ∧
    Limited maxStackBytes full.stack recorded.stack

/-- The attempt of a `Reschedule` or `DeadLetter` call. -/
def OutcomeCall.failed? : OutcomeCall → Option Attempt
  | .complete _ => none
  | .reschedule att _ => some att
  | .deadLetter att => some att

namespace Worker
variable {ε : Type} [HandlerError ε] (w : Worker ε)

/-- `Worker.process` up to its storage call. `now` is the clock reading of a task that is
not run; `started` and `finished` are those around the handler. -/
def process (task : Envelope) (now started finished : Time) (result : Option ε) (draw : Nat) :
    OutcomeCall :=
  match w.route task with
  | .deadLetter e => deadLetterCall task e now
  | .run _ => w.conclude task started finished result draw

variable {task : Envelope}

/-- A run of the fleet that is not to be run comes to this call when it is routed. -/
theorem process_of_route {now : Time} {call : OutcomeCall}
    (h : WorkerCode.route w task now = some call) (started finished : Time) (result : Option ε)
    (draw : Nat) : w.process task now started finished result draw = call := by
  simp only [WorkerCode.route] at h
  unfold process
  cases hroute : w.route task with
  | run handler =>
    rw [hroute] at h
    cases h
  | deadLetter e =>
    rw [hroute] at h
    exact Option.some.inj h

/-- Any other run comes to it when its handler returned. -/
theorem conclude_eq_process {now : Time} (h : WorkerCode.route w task now = none)
    (started finished : Time) (result : Option ε) (draw : Nat) :
    WorkerCode.conclude w task started finished (result, draw) =
      some (w.process task now started finished result draw) := by
  simp only [WorkerCode.route] at h
  unfold process
  cases hroute : w.route task with
  | run handler => rfl
  | deadLetter e =>
    rw [hroute] at h
    cases h

/-- What went wrong with a task, in full. -/
def failure? (task : Envelope) (result : Option ε) : Option TaskError :=
  match w.route task with
  | .deadLetter e => some e
  | .run _ =>
    result.map fun err =>
      { type := HandlerError.errorType err, message := HandlerError.text err }

/-- Every attempt passed to `Reschedule` or `DeadLetter` has its error within the limits. -/
def RecordsLimited (task : Envelope) (now started finished : Time) (result : Option ε)
    (draw : Nat) : Prop :=
  ∀ att, (w.process task now started finished result draw).failed? = some att →
    ∃ full e, w.failure? task result = some full ∧ att.error = some e ∧ TaskErrorLimited full e

/-- The registered handler refuses the version of the task. -/
def Mismatch (task : Envelope) (h : Handler) : Prop :=
  task.handlerVersion ≠ "" ∧ task.handlerVersion ≠ h.version ∧
    w.spec.versionPolicy = .deadLetter

instance (task : Envelope) (h : Handler) : Decidable (w.Mismatch task h) :=
  inferInstanceAs (Decidable (_ ∧ _))

/-- What the message of a failure is made of fits: the quoted names of a routing failure
beside the fixed words, or the text of the handler's error. -/
def MessageFits (task : Envelope) (result : Option ε) : Prop :=
  w.spec.maxAttempts ≤ task.attemptCount ∨
    match w.registry.lookup task.handlerRef with
    | none => byteSize (quote w.unicodePrint task.handlerRef) + 38 ≤ maxMessageBytes
    | some h =>
      if w.Mismatch task h then
        byteSize (quote w.unicodePrint task.handlerVersion) +
          byteSize (quote w.unicodePrint h.version) +
          byteSize (quote w.unicodePrint task.handlerRef) + 68 ≤ maxMessageBytes
      else ∀ err, result = some err → byteSize (HandlerError.text err) ≤ maxMessageBytes

/-- The engine records an error as it is. -/
theorem error_of_failed? {now started finished : Time} {result : Option ε} {draw : Nat}
    {att : Attempt} (h : (w.process task now started finished result draw).failed? = some att) :
    ∃ full, w.failure? task result = some full ∧ att.error = some full := by
  unfold process at h
  unfold failure?
  cases hroute : w.route task with
  | deadLetter e =>
    rw [hroute] at h
    cases h
    exact ⟨e, rfl, rfl⟩
  | run handler =>
    rw [hroute] at h
    cases result with
    | none => cases h
    | some err =>
      refine ⟨_, rfl, ?_⟩
      simp only [conclude] at h
      split_ifs at h <;> cases h <;> rfl

/-- A run that fails passes an attempt on. -/
theorem failed?_isSome {result : Option ε} {full : TaskError}
    (h : w.failure? task result = some full) (now started finished : Time) (draw : Nat) :
    ∃ att, (w.process task now started finished result draw).failed? = some att := by
  unfold process
  unfold failure? at h
  cases hroute : w.route task with
  | deadLetter e => exact ⟨_, rfl⟩
  | run handler =>
    rw [hroute] at h
    obtain ⟨err, rfl, -⟩ := Option.map_eq_some_iff.mp h
    simp only [conclude]
    split_ifs
    · exact ⟨_, rfl⟩
    · exact ⟨_, rfl⟩

theorem recordsLimited_iff {now started finished : Time} {result : Option ε} {draw : Nat} :
    w.RecordsLimited task now started finished result draw ↔
      ∀ full, w.failure? task result = some full → byteSize full.message ≤ maxMessageBytes ∧
        byteSize full.stack ≤ maxStackBytes := by
  constructor
  · intro h full hfull
    obtain ⟨att, hatt⟩ := w.failed?_isSome hfull now started finished draw
    obtain ⟨recorded, hrecorded, herror⟩ := w.error_of_failed? hatt
    obtain ⟨full', e, hfull', he, hlim⟩ := h att hatt
    obtain rfl := Option.some.inj (hfull.symm.trans hfull')
    obtain rfl := Option.some.inj (hfull.symm.trans hrecorded)
    obtain rfl := Option.some.inj (herror.symm.trans he)
    exact ⟨limited_self_iff.mp hlim.1, limited_self_iff.mp hlim.2⟩
  · intro h att hatt
    obtain ⟨full, hfull, herror⟩ := w.error_of_failed? hatt
    obtain ⟨hmessage, hstack⟩ := h full hfull
    exact ⟨full, full, hfull, herror, limited_self_iff.mpr hmessage, limited_self_iff.mpr hstack⟩

/-- A number of Go's `int` range has at most 19 digits. -/
theorem byteSize_toString_le {n : Int} (h0 : 0 ≤ n) (hint : n < 2 ^ 63) :
    byteSize (toString n) ≤ 76 := by
  obtain ⟨k, rfl⟩ := Int.eq_ofNat_of_zero_le h0
  have hlen : (Nat.repr k).length ≤ 19 := Nat.repr_length k 19 (by decide) (by omega)
  have := byteSize_le (Nat.repr k)
  calc byteSize (toString (k : Int)) = byteSize (Nat.repr k) := rfl
    _ ≤ 76 := by omega

omit [HandlerError ε] in
/-- The message of a handler that refuses the version. -/
theorem resolve_of_mismatch {h : Handler} (hl : w.registry.lookup task.handlerRef = some h)
    (hm : w.Mismatch task h) :
    w.registry.resolve w.unicodePrint task w.spec.versionPolicy = .deadLetter
      { type := errorTypeVersionMismatch
        message := "handler_version " ++ quote w.unicodePrint task.handlerVersion ++
          " does not match registered handler " ++ quote w.unicodePrint h.version ++
          " for handler_ref " ++ quote w.unicodePrint task.handlerRef } := by
  obtain ⟨hne, hversion, hpolicy⟩ := hm
  simp [Registry.resolve, hl, hne, hversion, hpolicy]

omit [HandlerError ε] in
theorem resolve_of_not_mismatch {h : Handler} (hl : w.registry.lookup task.handlerRef = some h)
    (hm : ¬ w.Mismatch task h) :
    w.registry.resolve w.unicodePrint task w.spec.versionPolicy = .run h := by
  simp only [Registry.resolve, hl]
  split_ifs with hversion
  · rfl
  · cases hpolicy : w.spec.versionPolicy with
    | runLatest => rfl
    | deadLetter =>
      simp only [Bool.or_eq_true, decide_eq_true_eq, not_or] at hversion
      exact absurd ⟨hversion.1, hversion.2, hpolicy⟩ hm

/-- The attempts the engine passes on are within the limits of the envelope exactly if
the texts they are made of fit. -/
theorem recorded_errors_limited_iff (hint : w.spec.maxAttempts < 2 ^ 63) (task : Envelope)
    (now started finished : Time) (result : Option ε) (draw : Nat) :
    w.RecordsLimited task now started finished result draw ↔ w.MessageFits task result := by
  have hstack : byteSize "" ≤ maxStackBytes := by decide
  rw [recordsLimited_iff]
  unfold failure? route MessageFits
  by_cases hguard : w.spec.maxAttempts ≤ task.attemptCount
  · refine iff_of_true ?_ (Or.inl hguard)
    rw [if_pos hguard]
    rintro full ⟨⟩
    have hdigits := byteSize_toString_le (by have := w.spec.maxAttempts_pos; omega) hint
    have hhead : byteSize "max_attempts (" = 14 := by decide
    have htail : byteSize ") reached without a successful attempt" = 38 := by decide
    simp only [byteSize_append, hhead, htail]
    exact ⟨by rw [maxMessageBytes]; omega, hstack⟩
  · rw [if_neg hguard, or_iff_right hguard]
    cases hl : w.registry.lookup task.handlerRef with
    | none =>
      have hhead : byteSize "no handler registered for handler_ref " = 38 := by decide
      simp only [Registry.resolve, hl, Option.some.injEq, forall_eq', byteSize_append, hhead]
      rw [and_iff_left hstack, Nat.add_comm]
    | some h =>
      by_cases hm : w.Mismatch task h
      · have h1 : byteSize "handler_version " = 16 := by decide
        have h2 : byteSize " does not match registered handler " = 35 := by decide
        have h3 : byteSize " for handler_ref " = 17 := by decide
        simp only [w.resolve_of_mismatch hl hm, if_pos hm, Option.some.injEq, forall_eq',
          byteSize_append, h1, h2, h3]
        rw [and_iff_left hstack]
        omega
      · simp only [w.resolve_of_not_mismatch hl hm, if_neg hm]
        cases result with
        | none => simp
        | some err =>
          simp only [Option.map_some, Option.some.injEq, forall_eq']
          exact and_iff_left hstack

/-- A run of a worker within Go's integers, on a short error. -/
theorem recorded_errors_limited_oneShot :
    oneShotWorker.RecordsLimited (.submitted "t" "q" "h" 0) 0 0 1 (some ⟨"boom"⟩) 0 := by
  have hlookup : oneShotWorker.registry.lookup (Envelope.submitted "t" "q" "h" 0).handlerRef =
      some ⟨"v1"⟩ := by decide
  apply (oneShotWorker.recorded_errors_limited_iff (by decide) _ 0 0 1 _ 0).mpr
  right
  simp only [hlookup]
  rw [if_neg (by decide)]
  rintro err ⟨⟩
  decide

/-- An error text of 4097 bytes is recorded in full. -/
theorem long_error_recorded : ¬ oneShotWorker.RecordsLimited (.submitted "t" "q" "h" 0) 0 0 1
    (some ⟨String.ofList (List.replicate 4097 'x')⟩) 0 := by
  rw [recordsLimited_iff]
  intro h
  have hsize (n : Nat) : (utf8Bytes (List.replicate n 'x')).length = n := by
    induction n with
    | zero => rfl
    | succ n ih =>
      rw [List.replicate_succ, utf8Bytes_cons, List.length_append, ih, Nat.add_comm]
      rfl
  have hmessage := (h _ rfl).1
  change (utf8Bytes (String.ofList (List.replicate 4097 'x')).toList).length ≤ _ at hmessage
  rw [String.toList_ofList, hsize] at hmessage
  exact absurd hmessage (by decide)

end Worker

end Rdq.Engine
