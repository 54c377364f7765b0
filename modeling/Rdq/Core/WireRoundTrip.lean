import Rdq.Core.WireResidual

/-!
# The round trip of the codec

Decoding what `Marshal` writes gives the envelope to the millisecond and with the
whitespace of its raw texts out, and then reads those unknown fields whose key matches
a known name up to letter case over the fields they match. A time outside the years
0 to 9999 makes the text unreadable. So the round trip and the stability of the
canonical bytes hold exactly when these second readings change nothing.
-/

namespace Rdq.Wire

open Foundation JsonText

/-! ## Times -/

/-- What is read for a time that was written. -/
def rereadTime (t : Time) : Option Time := if FourDigits t then some (truncMillis t) else none

theorem timeBack_canonical (t : Time) : canonical.TimeBack t (rereadTime t) := by
  constructor
  · have hback := back_text (ε := MarshalError) zeroTime parseRFC3339 (formatMillis t)
    have hparse : parseRFC3339 (formatMillis t) = rereadTime t := by
      unfold rereadTime
      split
      · rename_i h
        exact parseRFC3339_formatMillis h
      · rename_i h
        exact parseRFC3339_formatMillis_eq_none h
    rw [hparse] at hback
    exact hback
  · exact fun h => by cases h

/-! ## Normal forms -/

/-- The attempt to the millisecond, without whitespace in its raw texts. -/
def Attempt.normal (a : Attempt) : Attempt where
  attemptNo := a.attemptNo
  startedAt := truncMillis a.startedAt
  finishedAt := a.finishedAt.map truncMillis
  outcome := a.outcome
  error := a.error.map (Error.pass id)
  residual := compactValues a.residual

/-- The envelope to the millisecond, without whitespace in its raw texts. -/
def Envelope.normal (e : Envelope) : Envelope :=
  { e with
    nextAttemptAt := e.nextAttemptAt.map truncMillis
    leaseExpiresAt := e.leaseExpiresAt.map truncMillis
    createdAt := truncMillis e.createdAt
    attempts := e.attempts.map Attempt.normal
    residual := compactValues e.residual }

/-- Every time of the attempt lies in the years 0 to 9999. -/
def Attempt.Timely (a : Attempt) : Prop := ∀ t ∈ a.times, FourDigits t

instance (a : Attempt) : Decidable a.Timely := inferInstanceAs (Decidable (∀ t ∈ a.times, _))

/-- Every time of the envelope and its attempts lies in the years 0 to 9999. -/
def Envelope.Timely (e : Envelope) : Prop :=
  (∀ t ∈ e.times, FourDigits t) ∧ ∀ a ∈ e.attempts, a.Timely

instance (e : Envelope) : Decidable e.Timely :=
  inferInstanceAs (Decidable ((∀ t ∈ e.times, _) ∧ ∀ a ∈ e.attempts, a.Timely))

/-! ## Reading the unknown fields over the known ones -/

/-- The unknown fields of an attempt whose key matches a known name are read into the field
they match, in key order. -/
def Attempt.reread (fold : Bool) (a : Attempt) : Option Attempt :=
  ((attemptSchema fold).readMembers fold (residualMembers a.residual) a.fields).map
    fun r => Attempt.ofFields r a.residual

/-- The same for each attempt of an envelope, and then for the envelope itself. -/
def Envelope.reread (fold : Bool) (e : Envelope) : Option Envelope := do
  let attempts ← e.attempts.mapM (Attempt.reread fold)
  let r ← (wireSchema fold).readMembers fold (residualMembers e.residual)
    { e with attempts := attempts }.fields
  return Envelope.ofFields r e.residual

/-! ## What can be written -/

/-- The raw texts of the attempt are JSON, and its unknown fields have unknown names. -/
structure Attempt.Encodable (a : Attempt) : Prop where
  error : a.ErrorValid
  values : ValuesValid a.residual
  keys : ∀ x ∈ a.residual.entries, (attemptSchema true).known x.1 = false

/-- The same for the envelope and each of its attempts. -/
structure Envelope.Encodable (e : Envelope) : Prop where
  attempts : ∀ a ∈ e.attempts, a.Encodable
  values : ValuesValid e.residual
  keys : ∀ x ∈ e.residual.entries, (wireSchema true).known x.1 = false

/-! ## Attempts -/

theorem rereadTime_of_fourDigits {t : Time} (h : FourDigits t) :
    rereadTime t = some (truncMillis t) := if_pos h

theorem rereadTime_eq_none {t : Time} (h : ¬FourDigits t) : rereadTime t = none := if_neg h

theorem elim_rereadTime {t? : Option Time} (h : ∀ t ∈ t?, FourDigits t) :
    (t?.elim (some none) fun t => (rereadTime t).map some) = some (t?.map truncMillis) := by
  cases t? with
  | none => rfl
  | some t => simp [rereadTime_of_fourDigits (h t rfl)]

theorem elim_rereadTime_eq_none {t? : Option Time} {t : Time} (ht : t ∈ t?)
    (h : ¬FourDigits t) : (t?.elim (some none) fun t => (rereadTime t).map some) = none := by
  cases ht
  simp [rereadTime_eq_none h]

theorem collect_attempt (a : Attempt) (fold : Bool) :
    (attemptSchema fold).collect (a.back id rereadTime) (attemptSchema fold).order
      (attemptSchema fold).zero = if a.Timely then some a.normal.fields else none := by
  split
  · rename_i h
    obtain ⟨hstart, hfinish⟩ := List.forall_mem_cons.mp h
    apply (attemptSchema fold).collect_order
    intro i
    cases i with
    | startedAt => exact rereadTime_of_fourDigits hstart
    | finishedAt => exact elim_rereadTime fun t ht => hfinish t (Option.mem_toList.mpr ht)
    | _ => rfl
  · rename_i h
    unfold Attempt.Timely at h
    push Not at h
    obtain ⟨t, ht, hyear⟩ := h
    rcases List.mem_cons.mp ht with rfl | ht
    · exact (attemptSchema fold).collect_none (i := .startedAt) (rereadTime_eq_none hyear)
        ((attemptSchema fold).complete _) _
    · exact (attemptSchema fold).collect_none (i := .finishedAt)
        (elim_rereadTime_eq_none (Option.mem_toList.mp ht) hyear)
        ((attemptSchema fold).complete _) _

/-- What is read for an attempt that was written. -/
def rereadAttempt (fold : Bool) (a : Attempt) : Option Attempt :=
  if a.Timely then a.normal.reread fold else none

theorem back_attempt {a : Attempt} (h : a.Encodable) (fold : Bool) :
    (attemptReader fold).Back (writeAttempt a) (rereadAttempt fold a) := by
  have hfields := attempt_fieldBack (f := rereadTime) compacts_id
    (fun t _ => timeBack_canonical t) h.error fold
  obtain ⟨ms, v, hms, htext, hstrip, hread, hcapture⟩ := read_written (attemptSchema fold) hfields
    .attemptNo rfl rfl h.values h.keys fold
  have hmarshal : a.marshalJSON = .ok v.text := by
    have hmembers : (attemptSchema true).members (attemptWriter canonical) a.fields = .ok ms := hms
    rw [Attempt.marshalJSON, hmembers]
    exact htext
  refine ⟨v, ?_, hstrip, ?_⟩
  · rw [writeAttempt, hmarshal, embedResult_text hstrip]
  · change Attempt.unmarshalJSON fold v = _
    rw [Attempt.unmarshalJSON, hread, hcapture]
    change ((attemptSchema fold).collect (a.back id rereadTime) _ _).bind _ >>= _ = _
    rw [collect_attempt, rereadAttempt]
    split
    · rw [Attempt.reread]
      change _ = ((attemptSchema fold).readMembers fold
        (residualMembers (compactValues a.residual)) a.normal.fields).map _
      rw [residualMembers_compactValues, Option.bind_some]
      cases (attemptSchema fold).readMembers fold (residualMembers a.residual) a.normal.fields with
      | none => rfl
      | some r => rfl
    · rfl

/-! ## Envelopes -/

theorem mapM_rereadAttempt {attempts : List Attempt} (h : ∀ a ∈ attempts, a.Timely)
    (fold : Bool) :
    attempts.mapM (rereadAttempt fold) =
      (attempts.map Attempt.normal).mapM (Attempt.reread fold) := by
  induction attempts with
  | nil => rfl
  | cons a attempts ih =>
    obtain ⟨ha, hrest⟩ := List.forall_mem_cons.mp h
    rw [List.mapM_cons, List.map_cons, List.mapM_cons, ih hrest, rereadAttempt, if_pos ha]

theorem mapM_rereadAttempt_eq_none {attempts : List Attempt} {a : Attempt} (ha : a ∈ attempts)
    (h : ¬a.Timely) (fold : Bool) : attempts.mapM (rereadAttempt fold) = none := by
  induction attempts with
  | nil => cases ha
  | cons b attempts ih =>
    rw [List.mapM_cons]
    rcases List.mem_cons.mp ha with rfl | ha
    · rw [rereadAttempt, if_neg h]
      rfl
    · rw [ih ha]
      cases rereadAttempt fold b with
      | none => rfl
      | some b => rfl

/-- The known fields of an envelope, read back: none when a time is not readable. -/
theorem collect_envelope (e : Envelope) (fold : Bool) :
    (wireSchema fold).collect (e.back rereadTime (rereadAttempt fold)) (wireSchema fold).order
      (wireSchema fold).zero =
        if e.Timely then
          (e.normal.attempts.mapM (Attempt.reread fold)).map fun attempts =>
            { e.normal with attempts := attempts }.fields
        else none := by
  have hcomplete := (wireSchema fold).complete
  split
  · rename_i h
    have hnext : ∀ t ∈ e.nextAttemptAt, FourDigits t := fun t ht =>
      h.1 t (List.mem_append_left _ (Option.mem_toList.mpr ht))
    have hlease : ∀ t ∈ e.leaseExpiresAt, FourDigits t := fun t ht =>
      h.1 t (List.mem_append_right _ (List.mem_append_left _ (Option.mem_toList.mpr ht)))
    have hcreated : FourDigits e.createdAt := h.1 _ (by simp [Envelope.times])
    have hattempts := mapM_rereadAttempt h.2 fold
    change _ = (e.attempts.map Attempt.normal).mapM (Attempt.reread fold) at hattempts
    change _ = ((e.attempts.map Attempt.normal).mapM (Attempt.reread fold)).map _
    cases hreread : (e.attempts.map Attempt.normal).mapM (Attempt.reread fold) with
    | none =>
      exact (wireSchema fold).collect_none (i := .attempts) (hattempts.trans hreread)
        (hcomplete _) _
    | some attempts =>
      apply (wireSchema fold).collect_order
      intro i
      cases i with
      | nextAttemptAt => exact elim_rereadTime hnext
      | leaseExpiresAt => exact elim_rereadTime hlease
      | createdAt => exact rereadTime_of_fourDigits hcreated
      | attempts => exact hattempts.trans hreread
      | _ => rfl
  · rename_i h
    rcases not_and_or.mp h with h | h
    · push Not at h
      obtain ⟨t, ht, hyear⟩ := h
      rcases List.mem_append.mp ht with ht | ht
      · exact (wireSchema fold).collect_none (i := .nextAttemptAt)
          (elim_rereadTime_eq_none (Option.mem_toList.mp ht) hyear) (hcomplete _) _
      · rcases List.mem_append.mp ht with ht | ht
        · exact (wireSchema fold).collect_none (i := .leaseExpiresAt)
            (elim_rereadTime_eq_none (Option.mem_toList.mp ht) hyear) (hcomplete _) _
        · rw [List.mem_singleton.mp ht] at hyear
          exact (wireSchema fold).collect_none (i := .createdAt) (rereadTime_eq_none hyear)
            (hcomplete _) _
    · push Not at h
      obtain ⟨a, ha, hyear⟩ := h
      exact (wireSchema fold).collect_none (i := .attempts)
        (mapM_rereadAttempt_eq_none ha hyear fold) (hcomplete _) _

/-- Which struct reads the attempts does not matter for writing. -/
theorem envelope_members_eq {ε : Type} (attempt attempt' : Reader Attempt)
    (w : (envelopeSchema attempt).Writer ε) (r : (envelopeSchema attempt).Record) :
    (envelopeSchema attempt).members w r = (envelopeSchema attempt').members w r := rfl

theorem envelope_known_eq (attempt attempt' : Reader Attempt) :
    (envelopeSchema attempt).known = (envelopeSchema attempt').known := rfl

/-- `Marshal` succeeds, and its bytes decode to the normal form of the envelope with the
unknown fields read over it; they do not decode when a time is outside the years 0 to
9999. -/
theorem decode_marshal {e : Envelope} (h : e.Encodable) (fold : Bool) :
    ∃ text, marshal e = .ok text ∧
      decode fold text = if e.Timely then e.normal.reread fold else none := by
  have hfields := envelope_fieldBack (f := rereadTime) (fun t _ => timeBack_canonical t)
    fun a ha => back_attempt (h.attempts a ha) fold
  have hkeys : ∀ x ∈ e.residual.entries, (wireSchema fold).known x.1 = false := by
    rw [envelope_known_eq (attemptReader fold) (attemptReader true)]
    exact h.keys
  obtain ⟨ms, v, hms, htext, hstrip, hread, hcapture⟩ := read_written (wireSchema fold) hfields
    .envelopeVersion rfl rfl h.values hkeys fold
  have hmarshal : e.marshalJSON = .ok v.text := by
    have hmembers : (wireSchema true).members (envelopeWriter canonical writeAttempt) e.fields =
      .ok ms := (envelope_members_eq (attemptReader true) (attemptReader fold) _ _).trans hms
    rw [Envelope.marshalJSON, hmembers]
    exact htext
  refine ⟨v.text, by rw [marshal, hmarshal, embedResult_text hstrip]; rfl, ?_⟩
  rw [decode, parse_value]
  change Envelope.unmarshalJSON fold v = _
  rw [Envelope.unmarshalJSON, hread, hcapture, collect_envelope]
  split
  · rw [Envelope.reread]
    change _ = (e.normal.attempts.mapM (Attempt.reread fold)) >>= fun attempts =>
      (wireSchema fold).readMembers fold (residualMembers (compactValues e.residual))
        { e.normal with attempts := attempts }.fields >>= _
    rw [residualMembers_compactValues]
    cases e.normal.attempts.mapM (Attempt.reread fold) with
    | none => rfl
    | some attempts =>
      change (wireSchema fold).readMembers fold (residualMembers e.residual)
          { e.normal with attempts := attempts }.fields >>= _ =
        (wireSchema fold).readMembers fold (residualMembers e.residual)
          { e.normal with attempts := attempts }.fields >>= _
      rfl
  · rfl

/-! ## Exact names -/

theorem key_of_mem_residualMembers {m : StringMap Bytes} {x : String × Cst}
    (h : x ∈ residualMembers m) : ∃ y ∈ m.entries, x.1 = y.1 := by
  obtain ⟨y, hy, hmap⟩ := List.mem_filterMap.mp h
  obtain ⟨d, -, rfl⟩ := Option.map_eq_some_iff.mp hmap
  exact ⟨y, hy, rfl⟩

/-- Unknown fields that match no name are not read. -/
theorem readMembers_residual {ι : Type} [DecidableEq ι] (S : Schema ι) {fold : Bool}
    {m : StringMap Bytes} (h : ∀ x ∈ m.entries, S.field? fold x.1 = none) (r : S.Record) :
    S.readMembers fold (residualMembers m) r = some r := by
  apply S.readMembers_of_unmatched
  intro x hx
  obtain ⟨y, hy, hkey⟩ := key_of_mem_residualMembers hx
  rw [hkey]
  exact h y hy

theorem Attempt.reread_of_unmatched {fold : Bool} {a : Attempt}
    (h : ∀ x ∈ a.residual.entries, (attemptSchema fold).field? fold x.1 = none) :
    a.reread fold = some a := by
  rw [Attempt.reread, readMembers_residual (attemptSchema fold) h]
  rfl

/-- Nothing changes when no unknown field matches a known name. -/
theorem Envelope.reread_of_unmatched {fold : Bool} {e : Envelope}
    (hattempts : ∀ a ∈ e.attempts, ∀ x ∈ a.residual.entries,
      (attemptSchema fold).field? fold x.1 = none)
    (h : ∀ x ∈ e.residual.entries, (wireSchema fold).field? fold x.1 = none) :
    e.reread fold = some e := by
  have hmap : e.attempts.mapM (Attempt.reread fold) = some e.attempts := by
    generalize e.attempts = attempts at hattempts
    induction attempts with
    | nil => rfl
    | cons a attempts ih =>
      obtain ⟨ha, hrest⟩ := List.forall_mem_cons.mp hattempts
      rw [List.mapM_cons, Attempt.reread_of_unmatched ha, ih hrest]
      rfl
  have hread := readMembers_residual (wireSchema fold) h e.fields
  rw [Envelope.reread, hmap]
  change (wireSchema fold).readMembers fold (residualMembers e.residual) e.fields >>= _ = _
  rw [hread]
  rfl

theorem known_compactValues {known : String → Bool} {m : StringMap Bytes}
    (h : ∀ x ∈ m.entries, known x.1 = false) :
    ∀ x ∈ (compactValues m).entries, known x.1 = false := by
  intro x hx
  obtain ⟨y, hy, rfl⟩ := List.mem_map.mp hx
  exact h y hy

/-- Without folding, unknown fields match nothing. -/
theorem Envelope.reread_false {e : Envelope} (h : e.Encodable) :
    e.normal.reread false = some e.normal := by
  apply Envelope.reread_of_unmatched
  · intro a ha x hx
    obtain ⟨b, hb, rfl⟩ := List.mem_map.mp ha
    exact (attemptSchema false).field?_false (known_compactValues (h.attempts b hb).keys x hx)
  · intro x hx
    have hkey := known_compactValues h.keys x hx
    rw [envelope_known_eq (attemptReader true) (attemptReader false)] at hkey
    exact (wireSchema false).field?_false hkey

/-- With exact names only, the bytes of an envelope determine its normal form. -/
theorem normal_eq_of_marshal_eq {e e' : Envelope} (h : e.Encodable) (h' : e'.Encodable)
    (htimely : e.Timely) (heq : marshal e' = marshal e) : e'.normal = e.normal := by
  obtain ⟨text, htext, hdecode⟩ := decode_marshal h false
  obtain ⟨text', htext', hdecode'⟩ := decode_marshal h' false
  have hsame : text' = text := Except.ok.inj (htext'.symm.trans (heq.trans htext))
  rw [if_pos htimely, Envelope.reread_false h] at hdecode
  rw [hsame, hdecode] at hdecode'
  split at hdecode'
  · rw [Envelope.reread_false h'] at hdecode'
    exact (Option.some.inj hdecode').symm
  · cases hdecode'

end Rdq.Wire
