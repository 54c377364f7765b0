import Rdq.Core.Wire

/-!
# Reading back the known fields

What decoding gives for each known field of an error, an attempt and an envelope that
an encoder wrote: the value itself, a raw text as the encoder passed it on, and a time
as far as it was written. Nothing is assumed of the encoder but how its times read.
-/

namespace Rdq.Wire

open Foundation JsonText

/-! ## Maps -/

section Maps

variable {α : Type} {c : Reader α} {write : α → Except MarshalError Cst} {f : α → α}

theorem mapM_entries {entries : List (String × α)}
    (h : ∀ x ∈ entries, c.Back (write x.2) (some (f x.2))) :
    ∃ ms, (entries.mapM fun x => (write x.2).map fun v => (x.1, v)) = .ok ms ∧
      (∀ m ∈ ms, m.2.strip = m.2) ∧
      (ms.mapM fun x => (c.read x.2 c.zero).map fun y => (x.1, y)) =
        some (entries.map fun x => (x.1, f x.2)) := by
  induction entries with
  | nil => exact ⟨[], rfl, by simp, rfl⟩
  | cons x entries ih =>
    obtain ⟨⟨v, hv, hstrip, hread⟩, hrest⟩ := List.forall_mem_cons.mp h
    obtain ⟨ms, hms, hstrips, hreads⟩ := ih hrest
    refine ⟨(x.1, v) :: ms, ?_, List.forall_mem_cons.mpr ⟨hstrip, hstrips⟩, ?_⟩
    · rw [List.mapM_cons, hv, hms]
      rfl
    · rw [List.mapM_cons, hread, hreads]
      rfl

theorem readMap_objectOf (c : Reader α) (html : Bool) (ms : List (String × Cst))
    (m : StringMap α) :
    readMap c (Schema.objectOf html ms) m =
      (ms.mapM fun x => (c.read x.2 c.zero).map fun y => (x.1, y)).map m.insertAll := by
  have hfields := Schema.fields?_objectOf html ms
  have hne := Cst.object_ne_null (ms.map fun m => (quote html m.1, m.2))
  change Schema.objectOf html ms ≠ .null at hne
  generalize Schema.objectOf html ms = v at hfields hne
  cases v with
  | null => exact absurd rfl hne
  | _ => simp only [readMap, hfields, Option.bind_some]

/-- A map is read back entry by entry. -/
theorem back_map {m : StringMap α} (html : Bool)
    (h : ∀ x ∈ m.entries, c.Back (write x.2) (some (f x.2))) :
    (mapReader c).Back (writeMap html write m) (some (m.mapValues f)) := by
  obtain ⟨ms, hms, hstrips, hreads⟩ := mapM_entries h
  refine ⟨Schema.objectOf html ms, congrArg (Except.map _) hms,
    Schema.strip_objectOf html hstrips, ?_⟩
  calc (mapReader c).read (Schema.objectOf html ms) (mapReader c).zero
      = some (StringMap.empty.insertAll (m.mapValues f).entries) := by
        change readMap c (Schema.objectOf html ms) StringMap.empty = _
        rw [readMap_objectOf, hreads]
        rfl
    _ = some (m.mapValues f) := by rw [StringMap.insertAll_entries]

end Maps

/-- A map of strings is read back as it is. -/
theorem back_headers (html : Bool) (m : StringMap String) :
    (mapReader stringReader).Back (writeMap html (writeString html) m) (some m) := by
  have h := back_map (c := stringReader) (f := id) (m := m) html fun x _ => back_string html x.2
  rwa [StringMap.mapValues_id] at h

theorem back_stringPointer (html : Bool) (s? : Option String) :
    (pointerReader stringReader).Back
      (writePointer (writeString html) s? : Except MarshalError Cst) (some s?) := by
  cases s? with
  | none => exact back_none stringReader _
  | some s => exact back_some (back_string html s) (fun h => by cases h)

/-! ## Errors -/

/-- A raw text as an encoder passes it on; a text that is not JSON stays. -/
def passRaw (post : Cst → Cst) (text : Bytes) : Bytes :=
  match embed post text with
  | some v => v.text
  | none => text

theorem passRaw_nil (post : Cst → Cst) : passRaw post [] = [] := rfl

/-- The encoder makes no whitespace. -/
def Compacts (post : Cst → Cst) : Prop := ∀ t : Cst, (post t.strip).strip = post t.strip

theorem compacts_id : Compacts id := Cst.strip_strip

theorem back_passRaw {post : Cst → Cst} (hpost : Compacts post) {text : Bytes}
    (h : (parse text).isSome = true) :
    rawReader.Back (writeRaw post MarshalError.detail text) (some (passRaw post text)) := by
  obtain ⟨d, hd⟩ := Option.isSome_iff_exists.mp h
  have hembed : embed post text = some (post d.value.strip) := by rw [embed, hd]; rfl
  have hback := back_raw MarshalError.detail hembed (hpost d.value)
  simpa only [passRaw, hembed] using hback

/-- The detail of the error is JSON, or is missing. -/
def Error.Valid (e : Error) : Prop := e.detail = [] ∨ (parse e.detail).isSome = true

def Error.pass (post : Cst → Cst) (e : Error) : Error :=
  { e with detail := passRaw post e.detail }

theorem error_fieldBack {enc : Encoder} (hpost : Compacts enc.raw) {e : Error} (h : e.Valid)
    (i : ErrorField) :
    errorSchema.FieldBack (errorWriter enc) e.fields i (some ((e.pass enc.raw).fields i)) := by
  cases i with
  | type => exact errorSchema.fieldBack_of_written rfl (back_string enc.html e.type)
  | message => exact errorSchema.fieldBack_of_written rfl (back_string enc.html e.message)
  | detail =>
    rcases h with h | h
    · have hpass : (e.pass enc.raw).detail = [] := by rw [Error.pass, h, passRaw_nil]
      change errorSchema.FieldBack (errorWriter enc) e.fields .detail
        (some (e.pass enc.raw).detail)
      rw [hpass]
      exact errorSchema.fieldBack_of_omitted (List.isEmpty_iff.mpr h)
    · have homit : e.detail.isEmpty = false := by
        rw [List.isEmpty_eq_false_iff]
        rintro hnil
        rw [hnil] at h
        cases h
      exact errorSchema.fieldBack_of_written homit (back_passRaw hpost h)
  | stack =>
    exact errorSchema.fieldBack_of_back (fun homit => String.isEmpty_iff.mp homit)
      (back_string enc.html e.stack)

theorem back_error {enc : Encoder} (hpost : Compacts enc.raw) {e : Error} (h : e.Valid)
    (fold : Bool) : (errorReader fold).Back (writeError enc e) (some (e.pass enc.raw)) := by
  obtain ⟨v, hv, hstrip, hread⟩ := errorSchema.back_struct (error_fieldBack hpost h) fold enc.html
  rw [errorSchema.collect_order fun _ => rfl] at hread
  refine ⟨v, hv, hstrip, ?_⟩
  have hzero : errorSchema.zero = ({} : Error).fields := by
    funext i
    cases i <;> rfl
  change errorSchema.readStruct fold v errorSchema.zero = _ at hread
  rw [hzero] at hread
  calc (errorReader fold).read v {}
      = (errorSchema.readStruct fold v ({} : Error).fields).map Error.ofFields := rfl
    _ = some (e.pass enc.raw) := by rw [hread]; rfl

theorem writeError_ne_null (enc : Encoder) (e : Error) : writeError enc e ≠ .ok .null := by
  unfold writeError Schema.writeStruct
  cases errorSchema.members (errorWriter enc) e.fields with
  | error err => exact fun h => by cases h
  | ok ms => exact fun h => Cst.object_ne_null _ (Except.ok.inj h)

/-! ## Attempts -/

/-- The encoder writes the time as a text, and this is what is read. -/
def Encoder.TimeBack (enc : Encoder) (t : Time) (y : Option Time) : Prop :=
  timeReader.Back (enc.time t) y ∧ enc.time t ≠ .ok .null

theorem back_timePointer {enc : Encoder} {f : Time → Option Time} {t? : Option Time}
    (h : ∀ t ∈ t?, enc.TimeBack t (f t)) :
    (pointerReader timeReader).Back (writePointer enc.time t?) (t?.elim (some none)
      fun t => (f t).map some) := by
  cases t? with
  | none => exact back_none timeReader enc.time
  | some t => exact back_some (h t rfl).1 (h t rfl).2

def Attempt.times (a : Attempt) : List Time := a.startedAt :: a.finishedAt.toList

/-- The error of the attempt can be written. -/
def Attempt.ErrorValid (a : Attempt) : Prop := ∀ e ∈ a.error, e.Valid

/-- What is read for each field of an attempt, given what is read for a time. -/
def Attempt.back (post : Cst → Cst) (f : Time → Option Time) (a : Attempt) :
    (i : AttemptField) → Option i.Value
  | .attemptNo => some a.attemptNo
  | .startedAt => f a.startedAt
  | .finishedAt => a.finishedAt.elim (some none) fun t => (f t).map some
  | .outcome => some a.outcome
  | .error => some (a.error.map (Error.pass post))

theorem attempt_fieldBack {enc : Encoder} (hpost : Compacts enc.raw) {f : Time → Option Time}
    {a : Attempt} (htime : ∀ t ∈ a.times, enc.TimeBack t (f t)) (h : a.ErrorValid)
    (fold : Bool) (i : AttemptField) :
    (attemptSchema fold).FieldBack (attemptWriter enc) a.fields i (a.back enc.raw f i) := by
  have hstart := htime a.startedAt List.mem_cons_self
  have hfinish : ∀ t ∈ a.finishedAt, enc.TimeBack t (f t) := fun t ht =>
    htime t (List.mem_cons_of_mem _ (Option.mem_toList.mpr ht))
  cases i with
  | attemptNo => exact (attemptSchema fold).fieldBack_of_written rfl (back_int a.attemptNo)
  | startedAt => exact (attemptSchema fold).fieldBack_of_written rfl hstart.1
  | finishedAt => exact (attemptSchema fold).fieldBack_of_written rfl (back_timePointer hfinish)
  | outcome => exact (attemptSchema fold).fieldBack_of_written rfl (back_string enc.html a.outcome)
  | error =>
    rcases a with ⟨no, start, finish, outcome, error, residual⟩
    cases error with
    | none => exact (attemptSchema fold).fieldBack_of_omitted rfl
    | some e =>
      apply (attemptSchema fold).fieldBack_of_written rfl
      exact back_some (back_error hpost (h e rfl) fold) (writeError_ne_null enc e)

/-! ## Envelopes -/

def Envelope.times (e : Envelope) : List Time :=
  e.nextAttemptAt.toList ++ (e.leaseExpiresAt.toList ++ [e.createdAt])

/-- What is read for each field of an envelope, given what is read for a time and what for
an attempt. -/
def Envelope.back (f : Time → Option Time) (g : Attempt → Option Attempt) (e : Envelope) :
    (i : EnvelopeField) → Option i.Value
  | .nextAttemptAt => e.nextAttemptAt.elim (some none) fun t => (f t).map some
  | .leaseExpiresAt => e.leaseExpiresAt.elim (some none) fun t => (f t).map some
  | .createdAt => f e.createdAt
  | .attempts => e.attempts.mapM g
  | i => some (e.fields i)

theorem envelope_fieldBack {enc : Encoder} {f : Time → Option Time} {e : Envelope}
    (htime : ∀ t ∈ e.times, enc.TimeBack t (f t)) {attempt : Reader Attempt}
    {write : Attempt → Except MarshalError Cst} {g : Attempt → Option Attempt}
    (hattempts : ∀ a ∈ e.attempts, attempt.Back (write a) (g a)) (i : EnvelopeField) :
    (envelopeSchema attempt).FieldBack (envelopeWriter enc write) e.fields i (e.back f g i) := by
  have hnext : ∀ t ∈ e.nextAttemptAt, enc.TimeBack t (f t) := fun t ht =>
    htime t (List.mem_append_left _ (Option.mem_toList.mpr ht))
  have hlease : ∀ t ∈ e.leaseExpiresAt, enc.TimeBack t (f t) := fun t ht =>
    htime t (List.mem_append_right _ (List.mem_append_left _ (Option.mem_toList.mpr ht)))
  have hcreated : enc.TimeBack e.createdAt (f e.createdAt) := htime _ (by simp [Envelope.times])
  let S := envelopeSchema attempt
  cases i with
  | envelopeVersion => exact S.fieldBack_of_written rfl (back_int e.envelopeVersion)
  | id => exact S.fieldBack_of_written rfl (back_string enc.html e.id)
  | queue => exact S.fieldBack_of_written rfl (back_string enc.html e.queue)
  | handlerRef => exact S.fieldBack_of_written rfl (back_string enc.html e.handlerRef)
  | handlerVersion =>
    exact S.fieldBack_of_back (fun homit => String.isEmpty_iff.mp homit)
      (back_string enc.html e.handlerVersion)
  | payload => exact S.fieldBack_of_written rfl (back_bytes e.payload)
  | payloadContentType =>
    exact S.fieldBack_of_written rfl (back_string enc.html e.payloadContentType)
  | payloadRef =>
    exact S.fieldBack_of_back (fun homit => Option.isNone_iff_eq_none.mp homit)
      (back_stringPointer enc.html e.payloadRef)
  | headers =>
    exact S.fieldBack_of_back (fun homit => StringMap.isEmpty_iff.mp homit)
      (back_headers enc.html e.headers)
  | status => exact S.fieldBack_of_written rfl (back_string enc.html e.status)
  | attemptCount => exact S.fieldBack_of_written rfl (back_int e.attemptCount)
  | redriveCount => exact S.fieldBack_of_written rfl (back_int e.redriveCount)
  | nextAttemptAt => exact S.fieldBack_of_written rfl (back_timePointer hnext)
  | leaseExpiresAt => exact S.fieldBack_of_written rfl (back_timePointer hlease)
  | createdAt => exact S.fieldBack_of_written rfl hcreated.1
  | attempts =>
    cases homit : e.attempts.isEmpty with
    | true =>
      have hnil : e.attempts = [] := List.isEmpty_iff.mp homit
      change S.FieldBack (envelopeWriter enc write) e.fields .attempts (e.attempts.mapM g)
      rw [hnil]
      exact S.fieldBack_of_omitted homit
    | false => exact S.fieldBack_of_written homit (back_slice hattempts)

end Rdq.Wire
