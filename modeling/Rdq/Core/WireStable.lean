import Rdq.Core.WireRoundTrip

/-!
# Stability of the canonical bytes

An envelope and its normal form have the same bytes, and whatever was decoded can be
encoded. With the round trip this says when decoding and encoding again changes
nothing: on envelopes whose unknown fields, where their key matches a known name up to
letter case, repeat the known values.
-/

namespace Rdq.Wire

open Foundation JsonText

/-! ## Normal forms are written alike -/

theorem embed_passRaw (text : Bytes) : embed id (passRaw id text) = embed id text := by
  cases h : parse text with
  | none => rw [passRaw_of_invalid h]
  | some d =>
    rw [passRaw_of_parse h, embed_text, embed, h, Cst.strip_strip]
    rfl

theorem compact_eq_embed (text : Bytes) : compact text = (embed id text).map Cst.text := by
  rw [compact, embed, Option.map_map]
  rfl

theorem passRaw_eq_nil_iff {post : Cst → Cst} {text : Bytes} :
    passRaw post text = [] ↔ text = [] := by
  cases h : embed post text with
  | none => simp only [passRaw, h]
  | some v =>
    obtain ⟨b, s, hv, -⟩ := v.text_eq_cons
    simp only [passRaw, h, hv, reduceCtorEq, false_iff]
    rintro rfl
    rw [embed_nil] at h
    cases h

theorem writeRaw_passRaw (invalid : MarshalError) (text : Bytes) :
    writeRaw id invalid (passRaw id text) = writeRaw id invalid text := by
  simp only [writeRaw, passRaw_eq_nil_iff, embed_passRaw]

theorem writeError_pass (e : Error) :
    writeError canonical (e.pass id) = writeError canonical e := by
  have hfields : ∀ i, errorSchema.writeField (errorWriter canonical) (e.pass id).fields i =
      errorSchema.writeField (errorWriter canonical) e.fields i := by
    intro i
    cases i with
    | detail =>
      have homit : (passRaw id e.detail).isEmpty = e.detail.isEmpty := by
        rw [Bool.eq_iff_iff, List.isEmpty_iff, List.isEmpty_iff, passRaw_eq_nil_iff]
      exact errorSchema.writeField_congr homit (writeRaw_passRaw MarshalError.detail e.detail)
    | _ => rfl
  rw [writeError, writeError, Schema.writeStruct, Schema.writeStruct,
    errorSchema.members_congr hfields]

theorem writeTime_truncMillis (t : Time) : writeTime (truncMillis t) = writeTime t := by
  rw [writeTime, formatMillis_truncMillis, writeTime]

theorem writePointer_map {α : Type} {write : α → Except MarshalError Cst} {f : α → α}
    (h : ∀ x, write (f x) = write x) (x? : Option α) :
    writePointer write (x?.map f) = writePointer write x? := by
  cases x? with
  | none => rfl
  | some x => exact h x

theorem residualPair_passRaw (key : String) (text : Bytes) :
    residualPair (key, passRaw id text) = residualPair (key, text) := by
  simp only [residualPair, compact_eq_embed, embed_passRaw]

theorem appendResidual_compactValues (known : Bytes) (m : StringMap Bytes) :
    appendResidual known (compactValues m) = appendResidual known m := by
  have hpairs : (compactValues m).entries.mapM residualPair = m.entries.mapM residualPair := by
    rw [compactValues, StringMap.entries_mapValues, List.mapM_map]
    congr 1
    funext x
    exact residualPair_passRaw x.1 x.2
  have hnil : (compactValues m).entries = [] ↔ m.entries = [] := List.map_eq_nil_iff
  simp only [appendResidual, hnil, hpairs]

theorem writeAttempt_normal (a : Attempt) : writeAttempt a.normal = writeAttempt a := by
  have hfields : ∀ i, (attemptSchema true).writeField (attemptWriter canonical) a.normal.fields i =
      (attemptSchema true).writeField (attemptWriter canonical) a.fields i := by
    intro i
    let S := attemptSchema true
    cases i with
    | startedAt => exact S.writeField_congr rfl (writeTime_truncMillis a.startedAt)
    | finishedAt =>
      exact S.writeField_congr rfl (writePointer_map writeTime_truncMillis a.finishedAt)
    | error =>
      exact S.writeField_congr Option.isNone_map (writePointer_map writeError_pass a.error)
    | _ => rfl
  rw [writeAttempt, writeAttempt, Attempt.marshalJSON, Attempt.marshalJSON,
    (attemptSchema true).members_congr hfields]
  congr 2
  funext known
  exact appendResidual_compactValues _ a.residual

theorem writeSlice_map {α : Type} {write : α → Except MarshalError Cst} {f : α → α}
    (h : ∀ x, write (f x) = write x) (xs : List α) :
    writeSlice write (xs.map f) = writeSlice write xs := by
  have hmap : (xs.map f).mapM write = xs.mapM write := by
    rw [List.mapM_map]
    exact congrArg (List.mapM · xs) (funext h)
  cases xs with
  | nil => rfl
  | cons x xs => exact congrArg (Except.map Cst.array) hmap

/-- An envelope and its normal form have the same bytes. -/
theorem marshal_normal (e : Envelope) : marshal e.normal = marshal e := by
  have hfields : ∀ i,
      (wireSchema true).writeField (envelopeWriter canonical writeAttempt) e.normal.fields i =
        (wireSchema true).writeField (envelopeWriter canonical writeAttempt) e.fields i := by
    intro i
    let S := wireSchema true
    cases i with
    | nextAttemptAt =>
      exact S.writeField_congr rfl (writePointer_map writeTime_truncMillis e.nextAttemptAt)
    | leaseExpiresAt =>
      exact S.writeField_congr rfl (writePointer_map writeTime_truncMillis e.leaseExpiresAt)
    | createdAt => exact S.writeField_congr rfl (writeTime_truncMillis e.createdAt)
    | attempts =>
      exact S.writeField_congr List.isEmpty_map (writeSlice_map writeAttempt_normal e.attempts)
    | _ => rfl
  rw [marshal, marshal, Envelope.marshalJSON, Envelope.marshalJSON,
    (wireSchema true).members_congr hfields]
  congr 3
  funext known
  exact appendResidual_compactValues _ e.residual

/-! ## What was decoded can be encoded -/

theorem isSome_parse_text (v : Cst) : (parse v.text).isSome = true := by
  rw [parse_value]
  rfl

theorem captured_valid {known : String → Bool} {v : Cst} {m : StringMap Bytes}
    (h : captureResidual known v = some m) :
    ValuesValid m ∧ ∀ x ∈ m.entries, known x.1 = false := by
  obtain ⟨all, hall, rfl⟩ := Option.map_eq_some_iff.mp h
  have hvalid : ValuesValid all := by
    unfold readMap at hall
    split at hall
    · cases hall
      intro x hx
      cases hx
    · obtain ⟨ms, -, hms⟩ := Option.bind_eq_some_iff.mp hall
      obtain ⟨ys, hys, rfl⟩ := Option.map_eq_some_iff.mp hms
      intro x hx
      rcases StringMap.mem_insertAll hx with hx | hx
      · cases hx
      · have hmapped : ys = ms.map fun x => (x.1, x.2.text) :=
          Option.some.inj (hys.symm.trans (mapM_rawReader ms))
        rw [hmapped] at hx
        obtain ⟨y, -, rfl⟩ := List.mem_map.mp hx
        exact isSome_parse_text y.2
  refine ⟨fun x hx => hvalid x (List.mem_filter.mp hx).1, ?_⟩
  intro x hx
  simpa using (List.mem_filter.mp hx).2

/-- An error keeps a valid detail. -/
theorem Error.Valid.read {fold : Bool} {v : Cst} {e e' : Error} (h : e.Valid)
    (hread : (errorReader fold).read v e = some e') : e'.Valid := by
  obtain ⟨r, hr, rfl⟩ := Option.map_eq_some_iff.mp hread
  refine errorSchema.readStruct_field (i := .detail)
    (P := fun text : Bytes => text = [] ∨ (parse text).isSome = true) ?_ hr h
  intro v x y _ hy
  cases hy
  exact Or.inr (isSome_parse_text v)

theorem Attempt.Encodable.decoded {fold : Bool} {v : Cst} {a : Attempt}
    (h : Attempt.unmarshalJSON fold v = some a) : a.Encodable := by
  obtain ⟨r, hr, h⟩ := Option.bind_eq_some_iff.mp h
  obtain ⟨residual, hresidual, h⟩ := Option.bind_eq_some_iff.mp h
  cases h
  obtain ⟨hvalues, hkeys⟩ := captured_valid hresidual
  refine ⟨?_, hvalues, hkeys⟩
  refine (attemptSchema fold).readStruct_field (i := .error)
    (P := fun e? : Option Error => ∀ e ∈ e?, e.Valid) ?_ hr fun e he => by cases he
  intro v x y hx hy
  rcases readPointer_cases hy with rfl | ⟨e, rfl, he⟩
  · intro e he
    cases he
  · intro e' he'
    cases he'
    apply Error.Valid.read (e := Option.getD x {}) ?_ he
    cases x with
    | none => exact Or.inl rfl
    | some e => exact hx e rfl

theorem Envelope.Encodable.decoded {fold : Bool} {data : Bytes} {e : Envelope}
    (h : decode fold data = some e) : e.Encodable := by
  obtain ⟨d, -, h⟩ := Option.bind_eq_some_iff.mp h
  obtain ⟨r, hr, h⟩ := Option.bind_eq_some_iff.mp h
  obtain ⟨residual, hresidual, h⟩ := Option.bind_eq_some_iff.mp h
  cases h
  obtain ⟨hvalues, hkeys⟩ := captured_valid hresidual
  rw [envelope_known_eq (attemptReader fold) (attemptReader true)] at hkeys
  refine ⟨?_, hvalues, hkeys⟩
  refine (wireSchema fold).readStruct_field (i := .attempts)
    (P := fun xs : List Attempt => ∀ a ∈ xs, a.Encodable) ?_ hr fun a ha => by cases ha
  intro v x y _ hy a ha
  obtain ⟨u, hu⟩ := mem_readSlice hy ha
  exact Attempt.Encodable.decoded hu

/-! ## The two laws of the codec -/

/-- The text is one JSON value without whitespace. -/
def CompactText (text : Bytes) : Prop := compact text = some text

theorem CompactText.valid {text : Bytes} (h : CompactText text) :
    (parse text).isSome = true := by
  obtain ⟨d, hd, -⟩ := Option.map_eq_some_iff.mp h
  rw [hd]
  rfl

theorem CompactText.passRaw_eq {text : Bytes} (h : CompactText text) : passRaw id text = text := by
  obtain ⟨d, hd, htext⟩ := Option.map_eq_some_iff.mp h
  exact (passRaw_of_parse hd).trans htext

/-- The time is a whole millisecond in the years 0 to 9999. -/
def MillisTime (t : Time) : Prop := FourDigits t ∧ t % 1000000 = 0

/-- An attempt in canonical form: whole milliseconds, compact raw texts, and unknown fields
that have no known name. -/
structure Attempt.Canonical (a : Attempt) : Prop where
  times : ∀ t ∈ a.times, MillisTime t
  detail : ∀ e ∈ a.error, e.detail = [] ∨ CompactText e.detail
  values : ∀ x ∈ a.residual.entries, CompactText x.2
  keys : ∀ x ∈ a.residual.entries, ∀ i : AttemptField, x.1 ≠ i.name

/-- An envelope in canonical form, with its attempts. -/
structure Envelope.Canonical (e : Envelope) : Prop where
  times : ∀ t ∈ e.times, MillisTime t
  attempts : ∀ a ∈ e.attempts, a.Canonical
  values : ∀ x ∈ e.residual.entries, CompactText x.2
  keys : ∀ x ∈ e.residual.entries, ∀ i : EnvelopeField, x.1 ≠ i.name

theorem compactValues_of_compact {m : StringMap Bytes}
    (h : ∀ x ∈ m.entries, CompactText x.2) : compactValues m = m := by
  apply StringMap.ext_entries
  calc (compactValues m).entries
      = m.entries.map fun x => (x.1, passRaw id x.2) := rfl
    _ = m.entries.map fun x => x :=
        List.map_congr_left fun x hx => Prod.ext rfl (h x hx).passRaw_eq
    _ = m.entries := List.map_id' m.entries

theorem map_truncMillis {t? : Option Time} (h : ∀ t ∈ t?, MillisTime t) :
    t?.map truncMillis = t? := by
  cases t? with
  | none => rfl
  | some t => exact congrArg some (truncMillis_of_dvd (h t rfl).2)

theorem Attempt.Canonical.encodable {a : Attempt} (h : a.Canonical) : a.Encodable where
  error e he := (h.detail e he).imp_right CompactText.valid
  values x hx := (h.values x hx).valid
  keys x hx := by
    by_contra hknown
    obtain ⟨i, hi⟩ := (attemptSchema true).known_iff.mp (by simpa using hknown)
    exact h.keys x hx i hi.symm

theorem Attempt.Canonical.normal_eq {a : Attempt} (h : a.Canonical) : a.normal = a := by
  obtain ⟨hstart, hfinish⟩ := List.forall_mem_cons.mp h.times
  have herror : a.error.map (Error.pass id) = a.error := by
    have hdetail := h.detail
    cases herr : a.error with
    | none => rfl
    | some e =>
      have hpass : passRaw id e.detail = e.detail := by
        rcases hdetail e herr with h | h
        · rw [h, passRaw_nil]
        · exact h.passRaw_eq
      rw [Option.map_some, Error.pass, hpass]
  rw [Attempt.normal, truncMillis_of_dvd hstart.2,
    map_truncMillis fun t ht => hfinish t (Option.mem_toList.mpr ht), herror,
    compactValues_of_compact h.values]

theorem Envelope.Canonical.encodable {e : Envelope} (h : e.Canonical) : e.Encodable where
  attempts a ha := (h.attempts a ha).encodable
  values x hx := (h.values x hx).valid
  keys x hx := by
    by_contra hknown
    obtain ⟨i, hi⟩ := (wireSchema true).known_iff.mp (by simpa using hknown)
    exact h.keys x hx i hi.symm

theorem Envelope.Canonical.timely {e : Envelope} (h : e.Canonical) : e.Timely :=
  ⟨fun t ht => (h.times t ht).1, fun a ha t ht => ((h.attempts a ha).times t ht).1⟩

theorem Envelope.Canonical.normal_eq {e : Envelope} (h : e.Canonical) : e.normal = e := by
  have hnext : ∀ t ∈ e.nextAttemptAt, MillisTime t := fun t ht =>
    h.times t (List.mem_append_left _ (Option.mem_toList.mpr ht))
  have hlease : ∀ t ∈ e.leaseExpiresAt, MillisTime t := fun t ht =>
    h.times t (List.mem_append_right _ (List.mem_append_left _ (Option.mem_toList.mpr ht)))
  have hcreated : MillisTime e.createdAt := h.times _ (by simp [Envelope.times])
  have hattempts : e.attempts.map Attempt.normal = e.attempts := by
    calc e.attempts.map Attempt.normal
        = e.attempts.map fun a => a :=
          List.map_congr_left fun a ha => (h.attempts a ha).normal_eq
      _ = e.attempts := List.map_id' e.attempts
  rw [Envelope.normal, map_truncMillis hnext, map_truncMillis hlease,
    truncMillis_of_dvd hcreated.2, hattempts, compactValues_of_compact h.values]

/-- An envelope in canonical form comes back from its bytes exactly when its unknown fields,
read over the fields they match up to letter case, change nothing. -/
theorem round_trip_of_canonical {e : Envelope} (h : e.Canonical) :
    (∃ text, marshal e = .ok text ∧ unmarshal text = some e) ↔ e.reread true = some e := by
  obtain ⟨text, htext, hdecode⟩ := decode_marshal h.encodable true
  rw [if_pos h.timely, h.normal_eq] at hdecode
  constructor
  · rintro ⟨text', htext', hround⟩
    have hsame : text' = text := Except.ok.inj (htext'.symm.trans htext)
    rw [← hdecode, ← hsame]
    exact hround
  · intro hreread
    exact ⟨text, htext, hdecode.trans hreread⟩

/-- The bytes of a decoded envelope are stable exactly when its times lie in the years 0 to
9999 and its unknown fields, read over the fields they match, change nothing that is
written. -/
theorem stable_of_unmarshal {data : Bytes} {e : Envelope} (h : unmarshal data = some e) :
    (∃ text e', marshal e = .ok text ∧ unmarshal text = some e' ∧ marshal e' = .ok text) ↔
      e.Timely ∧ (e.normal.reread true).map Envelope.normal = some e.normal := by
  have hencodable := Envelope.Encodable.decoded h
  obtain ⟨text, htext, hdecode⟩ := decode_marshal hencodable true
  constructor
  · rintro ⟨text', e', htext', hround, hagain⟩
    have hsame : text' = text := Except.ok.inj (htext'.symm.trans htext)
    rw [hsame] at hround hagain
    have hread : (if e.Timely then e.normal.reread true else none) = some e' :=
      hdecode.symm.trans hround
    split at hread
    · rename_i htimely
      have hnormal := normal_eq_of_marshal_eq hencodable (Envelope.Encodable.decoded hround)
        htimely (hagain.trans htext.symm)
      exact ⟨htimely, by rw [hread, Option.map_some, hnormal]⟩
    · cases hread
  · rintro ⟨htimely, hreread⟩
    obtain ⟨e', he', hnormal⟩ := Option.map_eq_some_iff.mp hreread
    rw [if_pos htimely] at hdecode
    refine ⟨text, e', htext, hdecode.trans he', ?_⟩
    calc marshal e' = marshal e'.normal := (marshal_normal e').symm
      _ = marshal e.normal := by rw [hnormal]
      _ = .ok text := (marshal_normal e).trans htext

/-- The round trip of `Marshal` and `Unmarshal`, and the stability of the canonical bytes. -/
theorem codec_round_trip_iff (e : Envelope) (data : Bytes) :
    (e.Canonical →
      ((∃ text, marshal e = .ok text ∧ unmarshal text = some e) ↔ e.reread true = some e)) ∧
    ∀ d : Envelope, unmarshal data = some d →
      ((∃ text e', marshal d = .ok text ∧ unmarshal text = some e' ∧ marshal e' = .ok text) ↔
        d.Timely ∧ (d.normal.reread true).map Envelope.normal = some d.normal) :=
  ⟨fun h => round_trip_of_canonical h, fun _ h => stable_of_unmarshal h⟩

/-- An envelope with an unknown field `ID`. -/
def shadowedId : Envelope where
  id := "y"
  residual := ⟨[("ID", [34, 120, 34])], List.pairwise_singleton _ _⟩

theorem shadowedId_canonical : shadowedId.Canonical where
  times := by
    intro t ht
    simp only [shadowedId, Envelope.times, Option.toList_none, List.nil_append,
      List.mem_singleton] at ht
    subst ht
    exact ⟨by decide, by decide⟩
  attempts := by
    intro a ha
    cases ha
  values := by
    intro x hx
    rw [List.mem_singleton.mp hx]
    rfl
  keys := by
    intro x hx i
    rw [List.mem_singleton.mp hx]
    cases i <;> decide

theorem shadowedId_reread : shadowedId.reread true = some { shadowedId with id := "x" } := by
  rfl

/-- The members of the document with `ID` in front of `id`. -/
def shadowingMembers : List (String × Cst) :=
  [("ID", .str (quote false "x")), ("id", .str (quote false "y"))]

def shadowingDocument : Bytes := (Schema.objectOf false shadowingMembers).text

/-- The document is read as the envelope: the later `id` counts, and `ID` is kept. -/
theorem unmarshal_shadowingDocument : unmarshal shadowingDocument = some shadowedId := by
  have hupper : (wireSchema true).field? true "ID" = some .id := by rfl
  have hlower : (wireSchema true).field? true "id" = some .id :=
    (wireSchema true).field?_name true .id
  have hfields : (wireSchema true).readMembers true shadowingMembers (wireSchema true).zero =
      some shadowedId.fields := by
    simp only [shadowingMembers, Schema.readMembers, List.foldlM_cons, List.foldlM_nil,
      Schema.readMember, hupper, hlower]
    change some (Function.update (Function.update (wireSchema true).zero .id "x") .id "y") = _
    apply congrArg some
    funext i
    cases i <;> rfl
  have hresidual : captureResidual (wireSchema true).known
      (Schema.objectOf false shadowingMembers) = some shadowedId.residual := by
    rw [captureResidual, readMap_objectOf, mapM_rawReader, Option.map_some, Option.map_some,
      StringMap.select_insertAll]
    rfl
  rw [unmarshal, decode, shadowingDocument, parse_value]
  change Envelope.unmarshalJSON true (Schema.objectOf false shadowingMembers) = _
  rw [Envelope.unmarshalJSON, Schema.readStruct_objectOf, hfields, hresidual]
  rfl

/-- An unknown field `ID` replaces the id when the bytes are read again. -/
theorem shadowed_id_replaced :
    shadowedId.Canonical ∧
    (¬∃ text, marshal shadowedId = .ok text ∧ unmarshal text = some shadowedId) ∧
    unmarshal shadowingDocument = some shadowedId ∧
    ¬∃ text e', marshal shadowedId = .ok text ∧ unmarshal text = some e' ∧
      marshal e' = .ok text := by
  refine ⟨shadowedId_canonical, ?_, unmarshal_shadowingDocument, ?_⟩
  · rw [round_trip_of_canonical shadowedId_canonical, shadowedId_reread]
    intro h
    have hid : "x" = "y" := congrArg Envelope.id (Option.some.inj h)
    revert hid
    decide
  · rw [stable_of_unmarshal unmarshal_shadowingDocument, shadowedId_canonical.normal_eq,
      shadowedId_reread]
    rintro ⟨-, h⟩
    have hid : "x" = "y" := congrArg Envelope.id (Option.some.inj h)
    revert hid
    decide

end Rdq.Wire
