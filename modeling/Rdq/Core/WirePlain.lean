import Rdq.Core.WireStable
import Rdq.Foundation.JsonHtml
import Rdq.Foundation.Rfc3339

/-!
# Envelopes written by their tags

`json.Marshal` of an `envelope.Envelope` as it stands, without the codec: the unknown
fields are tagged `json:"-"`, raw texts lose their whitespace and have the characters of
HTML escaped, and times are written as `time.Time` writes itself. What the codec's
decoder reads from such a text is the envelope as far as it was sent, and a client that
reads by the tags gets the same.
-/

namespace Rdq.Wire

open Foundation JsonText

/-! ## The encoder -/

/-- `time.Time.MarshalJSON` of a time in UTC. -/
def writeNano (t : Time) : Except MarshalError Cst :=
  if FourDigits t then .ok (writeText (formatRFC3339Nano ⟨t, 0⟩)) else .error .year

/-- The encoder with its defaults. -/
def plain : Encoder := ⟨true, Cst.html, writeNano⟩

/-- An `Attempt` by its tags. -/
def writePlainAttempt (a : Attempt) : Except MarshalError Cst :=
  (attemptSchema true).writeStruct true (attemptWriter plain) a.fields

/-- An `Envelope` by its tags. -/
def writePlain (e : Envelope) : Except MarshalError Cst :=
  (wireSchema true).writeStruct true (envelopeWriter plain writePlainAttempt) e.fields

/-- The attempt as far as it is written. -/
def Attempt.sent (a : Attempt) : Attempt :=
  { a with error := a.error.map (Error.pass Cst.html), residual := StringMap.empty }

/-- The envelope as far as it is written. -/
def Envelope.sent (e : Envelope) : Envelope :=
  { e with attempts := e.attempts.map Attempt.sent, residual := StringMap.empty }

/-- Every time and every error detail of the attempt can be written. -/
def Attempt.Sendable (a : Attempt) : Prop := a.Timely ∧ a.ErrorValid

/-- Every time and every error detail of the envelope can be written. -/
def Envelope.Sendable (e : Envelope) : Prop :=
  (∀ t ∈ e.times, FourDigits t) ∧ ∀ a ∈ e.attempts, a.Sendable

/-! ## What can be written is read back -/

theorem compacts_html : Compacts Cst.html := by
  intro t
  rw [Cst.strip_html, Cst.strip_strip]

theorem timeBack_plain {t : Time} (h : FourDigits t) : plain.TimeBack t (some t) := by
  have hwrite : plain.time t = .ok (writeText (formatRFC3339Nano ⟨t, 0⟩)) := if_pos h
  have hwall : FourDigits (Zoned.wall ⟨t, 0⟩) := by simpa [Zoned.wall] using h
  have hparse : parseRFC3339 (formatRFC3339Nano ⟨t, 0⟩) = some t := by
    rw [parseRFC3339_eq_map, parseZoned_formatRFC3339Nano hwall (by simp)]
    rfl
  constructor
  · have hback := back_text (ε := MarshalError) zeroTime parseRFC3339 (formatRFC3339Nano ⟨t, 0⟩)
    rw [hparse, ← hwrite] at hback
    exact hback
  · rw [hwrite]
    exact fun h => by cases h

/-- A struct written without unknown fields has none to capture. -/
theorem captureResidual_written {ι : Type} (S : Schema ι) {ms : List (String × Cst)}
    (hms : ∀ m ∈ ms, S.known m.1 = true) (html : Bool) :
    captureResidual S.known (Schema.objectOf html ms) = some StringMap.empty := by
  have hdrop : ((ms.map fun x => (x.1, x.2.text)).filter fun x => !S.known x.1) = [] := by
    apply List.filter_eq_nil_iff.mpr
    intro x hx
    obtain ⟨y, hy, rfl⟩ := List.mem_map.mp hx
    simp [hms y hy]
  rw [captureResidual, readMap_objectOf, mapM_rawReader, Option.map_some, Option.map_some,
    StringMap.select_insertAll, hdrop]
  rfl

theorem elim_some_map (t? : Option Time) :
    (t?.elim (some none) fun t => (some t).map some) = some t? := by
  cases t? <;> rfl

variable {a : Attempt} {e : Envelope} {v : Cst}

/-- The known fields of an attempt that was written. -/
theorem readMembers_plainAttempt (h : a.Sendable) :
    ∃ ms, (attemptSchema true).members (attemptWriter plain) a.fields = .ok ms ∧
      (∀ m ∈ ms, m.2.strip = m.2) ∧
      (attemptSchema true).readMembers true ms (attemptSchema true).zero = some a.sent.fields := by
  let S := attemptSchema true
  have htimes : ∀ t ∈ a.times, plain.TimeBack t (some t) := fun t ht => timeBack_plain (h.1 t ht)
  obtain ⟨ms, hms, hstrip, hread⟩ := S.readMembers_members
    (attempt_fieldBack compacts_html htimes h.2 true) true
  refine ⟨ms, hms, hstrip, hread.trans ?_⟩
  apply S.collect_order
  intro i
  cases i with
  | finishedAt => exact elim_some_map a.finishedAt
  | _ => rfl

theorem back_plainAttempt (h : a.Sendable) :
    (attemptReader true).Back (writePlainAttempt a) (some a.sent) := by
  obtain ⟨ms, hms, hstrip, hread⟩ := readMembers_plainAttempt h
  have hcapture := captureResidual_written (attemptSchema true)
    (fun m hm => (attemptSchema true).known_of_mem_writeFields hms hm) true
  refine ⟨Schema.objectOf true ms, congrArg (Except.map _) hms,
    Schema.strip_objectOf true hstrip, ?_⟩
  change Attempt.unmarshalJSON true (Schema.objectOf true ms) = _
  rw [Attempt.unmarshalJSON, (attemptSchema true).readStruct_objectOf, hread, hcapture]
  rfl

/-- The known fields of an envelope that was written, given how its attempts are read. -/
theorem readMembers_plain (h : e.Sendable) {attempt : Reader Attempt}
    (hattempt : ∀ a ∈ e.attempts, attempt.Back (writePlainAttempt a) (some a.sent)) :
    ∃ ms, (wireSchema true).members (envelopeWriter plain writePlainAttempt) e.fields = .ok ms ∧
      (∀ m ∈ ms, m.2.strip = m.2) ∧
      (envelopeSchema attempt).readMembers true ms (envelopeSchema attempt).zero =
        some e.sent.fields := by
  let S := envelopeSchema attempt
  have htimes : ∀ t ∈ e.times, plain.TimeBack t (some t) := fun t ht => timeBack_plain (h.1 t ht)
  obtain ⟨ms, hms, hstrip, hread⟩ := S.readMembers_members
    (envelope_fieldBack htimes hattempt) true
  have hattempts : (e.attempts.mapM fun a => some a.sent) = some (e.attempts.map Attempt.sent) :=
    List.mapM_pure
  refine ⟨ms, hms, hstrip, hread.trans ?_⟩
  apply S.collect_order
  intro i
  cases i with
  | nextAttemptAt => exact elim_some_map e.nextAttemptAt
  | leaseExpiresAt => exact elim_some_map e.leaseExpiresAt
  | attempts => exact hattempts
  | _ => rfl

/-- An envelope that can be written is read back as far as it was sent. -/
theorem unmarshal_plain (h : e.Sendable) :
    ∃ v, writePlain e = .ok v ∧ v.strip = v ∧ Envelope.unmarshalJSON true v = some e.sent := by
  obtain ⟨ms, hms, hstrip, hread⟩ :=
    readMembers_plain h fun a ha => back_plainAttempt (h.2 a ha)
  have hcapture := captureResidual_written (wireSchema true)
    (fun m hm => (wireSchema true).known_of_mem_writeFields hms hm) true
  refine ⟨Schema.objectOf true ms, congrArg (Except.map _) hms,
    Schema.strip_objectOf true hstrip, ?_⟩
  rw [Envelope.unmarshalJSON, (wireSchema true).readStruct_objectOf, hread, hcapture]
  rfl

/-! ## Reading by the tags -/

/-- An `Attempt` by its tags. -/
def plainAttemptReader : Reader Attempt :=
  ⟨{}, fun v a => ((attemptSchema true).readStruct true v a.fields).map
    fun r => Attempt.ofFields r a.residual⟩

/-- The struct `Envelope` by its tags. -/
@[reducible] def plainSchema : Schema EnvelopeField := envelopeSchema plainAttemptReader

/-- An `Envelope` by its tags. -/
def plainReader : Reader Envelope :=
  ⟨{}, fun v e => (plainSchema.readStruct true v e.fields).map
    fun r => Envelope.ofFields r e.residual⟩

theorem back_plainAttemptReader (h : a.Sendable) :
    plainAttemptReader.Back (writePlainAttempt a) (some a.sent) := by
  obtain ⟨ms, hms, hstrip, hread⟩ := readMembers_plainAttempt h
  have hzero : (attemptSchema true).zero = ({} : Attempt).fields := by
    funext i
    cases i <;> rfl
  refine ⟨Schema.objectOf true ms, congrArg (Except.map _) hms,
    Schema.strip_objectOf true hstrip, ?_⟩
  rw [hzero] at hread
  change ((attemptSchema true).readStruct true (Schema.objectOf true ms) ({} : Attempt).fields).map
    _ = _
  rw [(attemptSchema true).readStruct_objectOf, hread]
  rfl

/-- An envelope that is written and read by its tags. -/
theorem back_plainReader (h : e.Sendable) :
    plainReader.Back (writePlain e) (some e.sent) := by
  obtain ⟨ms, hms, hstrip, hread⟩ :=
    readMembers_plain h fun a ha => back_plainAttemptReader (h.2 a ha)
  have hzero : plainSchema.zero = ({} : Envelope).fields := by
    funext i
    cases i <;> rfl
  refine ⟨Schema.objectOf true ms, congrArg (Except.map _) hms,
    Schema.strip_objectOf true hstrip, ?_⟩
  rw [hzero] at hread
  change (plainSchema.readStruct true (Schema.objectOf true ms) ({} : Envelope).fields).map _ = _
  rw [plainSchema.readStruct_objectOf, hread]
  rfl

/-! ## What cannot be written -/

theorem fourDigits_of_writeNano {t : Time} (h : writeNano t = .ok v) :
    FourDigits t := by
  by_contra hyear
  rw [writeNano, if_neg hyear] at h
  cases h

theorem fourDigits_of_writePointer {t? : Option Time} (h : writePointer writeNano t? = .ok v) :
    ∀ t ∈ t?, FourDigits t := by
  intro t ht
  rw [Option.mem_def.mp ht] at h
  exact fourDigits_of_writeNano h

theorem valid_of_writeError {enc : Encoder} {e : Error} (h : writeError enc e = .ok v) :
    e.Valid := by
  by_cases hnil : e.detail = []
  · exact Or.inl hnil
  · right
    have homit : e.detail.isEmpty = false := List.isEmpty_eq_false_iff.mpr hnil
    obtain ⟨u, hu⟩ := errorSchema.written_of_writeStruct h (i := .detail) homit
    change writeRaw enc.raw MarshalError.detail e.detail = .ok u at hu
    cases hparse : parse e.detail with
    | some d => rfl
    | none =>
      have hembed : embed enc.raw e.detail = none := by rw [embed, hparse]; rfl
      simp only [writeRaw, if_neg hnil, hembed] at hu
      cases hu

theorem sendable_of_writePlainAttempt (h : writePlainAttempt a = .ok v) : a.Sendable := by
  have hwritten {i : AttemptField} := (attemptSchema true).written_of_writeStruct h (i := i)
  constructor
  · obtain ⟨u, hstart⟩ := hwritten (i := .startedAt) rfl
    obtain ⟨u', hfinish⟩ := hwritten (i := .finishedAt) rfl
    refine List.forall_mem_cons.mpr ⟨fourDigits_of_writeNano hstart, ?_⟩
    intro t ht
    exact fourDigits_of_writePointer hfinish t (Option.mem_toList.mp ht)
  · intro e he
    have homit : a.error.isNone = false := by rw [Option.mem_def.mp he]; rfl
    obtain ⟨u, herror⟩ := hwritten (i := .error) homit
    change writePointer (writeError plain) a.error = .ok u at herror
    rw [Option.mem_def.mp he] at herror
    exact valid_of_writeError herror

theorem sendable_of_writePlain (h : writePlain e = .ok v) :
    e.Sendable := by
  have hwritten {i : EnvelopeField} := (wireSchema true).written_of_writeStruct h (i := i)
  constructor
  · obtain ⟨u, hnext⟩ := hwritten (i := .nextAttemptAt) rfl
    obtain ⟨u', hlease⟩ := hwritten (i := .leaseExpiresAt) rfl
    obtain ⟨u'', hcreated⟩ := hwritten (i := .createdAt) rfl
    intro t ht
    rcases List.mem_append.mp ht with ht | ht
    · exact fourDigits_of_writePointer hnext t (Option.mem_toList.mp ht)
    · rcases List.mem_append.mp ht with ht | ht
      · exact fourDigits_of_writePointer hlease t (Option.mem_toList.mp ht)
      · rw [List.mem_singleton.mp ht]
        exact fourDigits_of_writeNano hcreated
  · intro a ha
    have homit : e.attempts.isEmpty = false :=
      List.isEmpty_eq_false_iff.mpr (List.ne_nil_of_mem ha)
    obtain ⟨u, hattempts⟩ := hwritten (i := .attempts) homit
    change writeSlice writePlainAttempt e.attempts = .ok u at hattempts
    obtain ⟨b, bs, hbs⟩ := List.exists_cons_of_ne_nil (List.ne_nil_of_mem ha)
    rw [hbs] at ha hattempts
    obtain ⟨vs, hvs, -⟩ := map_eq_ok.mp hattempts
    obtain ⟨u', hu'⟩ := mapM_ok_of_mem hvs ha
    exact sendable_of_writePlainAttempt hu'

/-! ## When nothing is lost -/

/-- The text is missing, or is compact JSON in which no character of HTML stands. -/
def CalmText (text : Bytes) : Prop := text = [] ∨ CompactText text ∧ hasHtml text = false

instance (text : Bytes) : Decidable (CalmText text) :=
  inferInstanceAs (Decidable (_ ∨ compact text = some text ∧ _))

theorem passRaw_html {text : Bytes} {d : Document} (h : parse text = some d) :
    passRaw Cst.html text = escapeHTML d.value.strip.text := by
  have hembed : embed Cst.html text = some d.value.strip.html := by rw [embed, h]; rfl
  simp only [passRaw, hembed, Cst.text_html]

/-- A text that is written comes back as it was exactly when it is calm. -/
theorem passRaw_html_eq_iff {text : Bytes} (h : text = [] ∨ (parse text).isSome = true) :
    passRaw Cst.html text = text ↔ CalmText text := by
  rcases h with rfl | h
  · exact ⟨fun _ => Or.inl rfl, fun _ => rfl⟩
  · obtain ⟨d, hd⟩ := Option.isSome_iff_exists.mp h
    rw [passRaw_html hd]
    constructor
    · intro hback
      -- the text is that of a tree, so it is the tree that was parsed
      have htree : d = ⟨.none, d.value.strip.html, .none⟩ := by
        have hparse := parse_value d.value.strip.html
        rw [Cst.text_html, hback, hd] at hparse
        exact Option.some.inj hparse
      have hstrip : d.value.strip = d.value := by
        rw [congrArg Document.value htree, Cst.strip_html, Cst.strip_strip]
      have htext : d.value.strip.text = text := by
        calc d.value.strip.text
            = d.value.text := by rw [hstrip]
          _ = d.value.strip.html.text := congrArg Cst.text (congrArg Document.value htree)
          _ = text := (Cst.text_html _).trans hback
      right
      constructor
      · rw [CompactText, compact, hd]
        exact congrArg some htext
      · rw [htext] at hback
        exact (escapeHTML_eq_self_iff text).mp hback
    · rintro (rfl | ⟨hcompact, hcalm⟩)
      · cases h
      · rw [CompactText, compact, hd] at hcompact
        have htext : d.value.strip.text = text := Option.some.inj hcompact
        rw [htext]
        exact (escapeHTML_eq_self_iff text).mpr hcalm

theorem Error.pass_html_eq_iff {e : Error} (h : e.Valid) :
    e.pass Cst.html = e ↔ CalmText e.detail := by
  rw [← passRaw_html_eq_iff h]
  constructor
  · intro heq
    exact congrArg Error.detail heq
  · intro heq
    rw [Error.pass, heq]

/-- Nothing of the attempt is lost: it has no unknown fields, and its error detail is calm. -/
def Attempt.Whole (a : Attempt) : Prop :=
  a.residual = StringMap.empty ∧ ∀ e ∈ a.error, CalmText e.detail

theorem Attempt.sent_eq_iff (h : a.ErrorValid) : a.sent = a ↔ a.Whole := by
  have herror : a.error.map (Error.pass Cst.html) = a.error ↔
      ∀ e ∈ a.error, CalmText e.detail := by
    rcases a with ⟨no, start, finish, outcome, error, residual⟩
    cases error with
    | none => simp
    | some e => simpa using Error.pass_html_eq_iff (h e rfl)
  rw [Attempt.Whole, ← herror]
  constructor
  · intro heq
    exact ⟨(congrArg Attempt.residual heq).symm, congrArg Attempt.error heq⟩
  · rintro ⟨hresidual, herror⟩
    rw [Attempt.sent, herror, ← hresidual]

/-- Nothing of the envelope is lost. -/
structure Envelope.Whole (e : Envelope) : Prop where
  times : e.Timely
  residual : e.residual = StringMap.empty
  attempts : ∀ a ∈ e.attempts, a.Whole

theorem CalmText.valid {text : Bytes} (h : CalmText text) :
    text = [] ∨ (parse text).isSome = true := h.imp_right fun h => h.1.valid

theorem Attempt.Whole.errorValid (h : a.Whole) : a.ErrorValid :=
  fun e he => (h.2 e he).valid

theorem map_sent_eq_iff {attempts : List Attempt} :
    attempts.map Attempt.sent = attempts ↔ ∀ a ∈ attempts, a.sent = a := by
  have h := List.map_inj_left (l := attempts) (f := Attempt.sent) (g := id)
  rwa [List.map_id] at h

theorem Envelope.sendable_and_sent_iff (e : Envelope) :
    e.Sendable ∧ e.sent = e ↔ e.Whole := by
  constructor
  · rintro ⟨hsend, heq⟩
    have hattempts : e.attempts.map Attempt.sent = e.attempts := congrArg Envelope.attempts heq
    refine ⟨⟨hsend.1, fun a ha => (hsend.2 a ha).1⟩, (congrArg Envelope.residual heq).symm, ?_⟩
    intro a ha
    exact (Attempt.sent_eq_iff (hsend.2 a ha).2).mp (map_sent_eq_iff.mp hattempts a ha)
  · intro h
    have hvalid : ∀ a ∈ e.attempts, a.ErrorValid := fun a ha => (h.attempts a ha).errorValid
    refine ⟨⟨h.times.1, fun a ha => ⟨h.times.2 a ha, hvalid a ha⟩⟩, ?_⟩
    have hattempts : e.attempts.map Attempt.sent = e.attempts :=
      map_sent_eq_iff.mpr fun a ha => (Attempt.sent_eq_iff (hvalid a ha)).mpr (h.attempts a ha)
    rw [Envelope.sent, hattempts, ← h.residual]

end Rdq.Wire
