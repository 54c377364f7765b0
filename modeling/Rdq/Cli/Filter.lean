import Rdq.Foundation.Rfc3339
import Rdq.Foundation.UrlQuery
import Rdq.Server.ListBody

/-!
# The filters of the command line

`buildFilter` of `cli/cmd/dlq.go`, and the two ways in which `apiTransport` of
`cli/cmd/transport.go` sends a filter to the server: as the query of a listing, with its
bounds in `time.RFC3339`, and as the JSON body of a redrive or a purge, with its bounds as
`time.Time` writes itself. Each is followed to what the server reads from it.

## Implementation notes

The bounds of a filter are used as parameters of queries only, so the server's reading of a
bound is cut to the microseconds of a `timestamptz`. Texts are UTF-8. How the errors of
libraries are worded is a parameter.
-/

namespace Rdq.Cli

open Foundation Foundation.JsonText Foundation.GoJson
open Postgres (timestamptz)
open Server (Runtime ListQuery SelectorRequest)

/-! ## Flags -/

structure FilterFlags where
  errorType : String := ""
  handlerRef : String := ""
  fromStr : String := ""
  toStr : String := ""

/-- A `DLQFilter` whose bounds know their zones. -/
structure Filter where
  errorType : String
  handlerRef : String
  after : Option Zoned
  before : Option Zoned
deriving DecidableEq, Repr

/-- The bounds that are set. -/
def Filter.bounds (f : Filter) : List Zoned := f.after.toList ++ f.before.toList

/-- A time flag; `parseErrorText` words the error of `time.Parse`. -/
def boundFlag (parseErrorText : String → String) (name value : String) :
    Except String (Option Zoned) :=
  if value = "" then .ok none
  else
    match parseZoned value.toList with
    | some z => .ok (some z)
    | none => .error (name ++ ": must be RFC3339 time: " ++ parseErrorText value)

def FilterFlags.buildFilter (parseErrorText : String → String) (ff : FilterFlags) :
    Except String Filter := do
  let after ← boundFlag parseErrorText "--from" ff.fromStr
  let before ← boundFlag parseErrorText "--to" ff.toStr
  return {
    errorType := ff.errorType, handlerRef := ff.handlerRef, after := after, before := before }

theorem boundFlag_spec {parseErrorText : String → String} {name value : String} {z : Zoned}
    (h : boundFlag parseErrorText name value = .ok (some z)) :
    FourDigits z.wall ∧ z.offset.natAbs ≤ 1500 := by
  unfold boundFlag at h
  split at h
  · cases h
  · split at h
    · rename_i hparse
      cases h
      exact parseZoned_spec hparse
    · cases h

/-- The bounds of a filter of the command line were read from texts. -/
theorem bounds_of_buildFilter {parseErrorText : String → String} {ff : FilterFlags} {f : Filter}
    (h : ff.buildFilter parseErrorText = .ok f) :
    ∀ z ∈ f.bounds, FourDigits z.wall ∧ z.offset.natAbs ≤ 1500 := by
  obtain ⟨after, hafter, h⟩ := bind_eq_ok.mp h
  obtain ⟨before, hbefore, h⟩ := bind_eq_ok.mp h
  cases h
  intro z hz
  rcases List.mem_append.mp hz with hz | hz
  · have hset : after = some z := Option.mem_toList.mp hz
    rw [hset] at hafter
    exact boundFlag_spec hafter
  · have hset : before = some z := Option.mem_toList.mp hz
    rw [hset] at hbefore
    exact boundFlag_spec hbefore

/-! ## The filter of a query -/

/-- The filter as `DLQList` and the selections bind it. -/
def Filter.params (f : Filter) : DLQFilter where
  errorType := f.errorType
  handlerRef := f.handlerRef
  deadLetteredAfter := f.after.map fun z => timestamptz z.instant
  deadLetteredBefore := f.before.map fun z => timestamptz z.instant

/-- The filter with its bounds cut to the second. -/
def Filter.wholeSeconds (f : Filter) : DLQFilter where
  errorType := f.errorType
  handlerRef := f.handlerRef
  deadLetteredAfter := f.after.map fun z => truncSeconds z.instant
  deadLetteredBefore := f.before.map fun z => truncSeconds z.instant

/-- A bound as the server reads it. -/
def readBound (text : String) : Option Time := (parseRFC3339 text.toList).map timestamptz

/-- The server with the time package of Go. -/
def goRuntime (decodeErrorText : DecodeError → String) (storageErrorText : StorageError → String) :
    Runtime where
  unmarshalTime := readBound
  parseRFC3339 := readBound
  decodeErrorText := decodeErrorText
  storageErrorText := storageErrorText

theorem timestamptz_truncSeconds (t : Int) : timestamptz (truncSeconds t) = truncSeconds t := by
  have h : truncSeconds t % 1000 = 0 := by
    unfold truncSeconds
    omega
  rw [timestamptz, h, Int.sub_zero]

/-! ## Listing -/

/-- A bound as a query parameter. -/
def boundText (bound : Option Zoned) : String :=
  bound.elim "" fun z => String.ofList (formatRFC3339 z)

/-- The parameters of a listing. -/
def Filter.listQuery (f : Filter) (limit : Int) (after : String) : ListQuery where
  errorType := f.errorType
  handlerRef := f.handlerRef
  fromParam := boundText f.after
  toParam := boundText f.before
  limit := if 0 < limit then String.ofList (formatInt limit) else ""
  cursor := after

/-- The parameters under their names, in key order. -/
def queryPairs (q : ListQuery) : List (Bytes × Bytes) :=
  [(bytesOf "cursor", bytesOf q.cursor), (bytesOf "error_type", bytesOf q.errorType),
    (bytesOf "from", bytesOf q.fromParam), (bytesOf "handler_ref", bytesOf q.handlerRef),
    (bytesOf "limit", bytesOf q.limit), (bytesOf "to", bytesOf q.toParam)]

/-- The query of the request; parameters that are not given are left out. -/
def requestQuery (q : ListQuery) : Bytes :=
  UrlQuery.encodeQuery ((queryPairs q).filter fun pair => pair.2 ≠ [])

/-- The parameters the server reads, if they are texts. -/
def readQuery (raw : Bytes) : Option ListQuery := do
  let values := UrlQuery.parseQuery raw
  let errorType ← ofBytes? (UrlQuery.get values (bytesOf "error_type"))
  let handlerRef ← ofBytes? (UrlQuery.get values (bytesOf "handler_ref"))
  let fromParam ← ofBytes? (UrlQuery.get values (bytesOf "from"))
  let toParam ← ofBytes? (UrlQuery.get values (bytesOf "to"))
  let limit ← ofBytes? (UrlQuery.get values (bytesOf "limit"))
  let cursor ← ofBytes? (UrlQuery.get values (bytesOf "cursor"))
  return { errorType := errorType, handlerRef := handlerRef, fromParam := fromParam,
           toParam := toParam, limit := limit, cursor := cursor }

/-- The parameters arrive as they were sent. -/
theorem readQuery_requestQuery (q : ListQuery) : readQuery (requestQuery q) = some q := by
  have hkeys : ((queryPairs q).map Prod.fst).Nodup := by
    change [bytesOf "cursor", bytesOf "error_type", bytesOf "from", bytesOf "handler_ref",
      bytesOf "limit", bytesOf "to"].Nodup
    decide
  have hget {key value : Bytes} (h : (key, value) ∈ queryPairs q) :
      UrlQuery.get (UrlQuery.parseQuery (requestQuery q)) key = value := by
    rw [requestQuery, UrlQuery.parseQuery_encodeQuery]
    exact UrlQuery.get_filter_of_mem hkeys h
  have hread (name text : String) (h : (bytesOf name, bytesOf text) ∈ queryPairs q) :
      ofBytes? (UrlQuery.get (UrlQuery.parseQuery (requestQuery q)) (bytesOf name)) =
        some text := by
    rw [hget h, ofBytes?_bytesOf]
  unfold readQuery
  simp only [hread "error_type" q.errorType (by simp [queryPairs]),
    hread "handler_ref" q.handlerRef (by simp [queryPairs]),
    hread "from" q.fromParam (by simp [queryPairs]), hread "to" q.toParam (by simp [queryPairs]),
    hread "limit" q.limit (by simp [queryPairs]), hread "cursor" q.cursor (by simp [queryPairs]),
    Option.bind_eq_bind, Option.bind_some, Option.pure_def]

section Reading

variable (decodeErrorText : DecodeError → String) (storageErrorText : StorageError → String)

theorem boundText_ne_empty (z : Zoned) : boundText (some z) ≠ "" := by
  intro h
  have hnil := congrArg String.toList h
  change (String.ofList (formatRFC3339 z)).toList = [] at hnil
  rw [String.toList_ofList] at hnil
  exact List.append_ne_nil_of_right_ne_nil _ (List.cons_ne_nil _ _) hnil

theorem readBound_boundText (z : Zoned) :
    readBound (boundText (some z)) =
      ((parseZoned (formatRFC3339 z)).map Zoned.instant).map timestamptz := by
  rw [readBound, ← parseRFC3339_eq_map]
  exact congrArg (fun text => (parseRFC3339 text).map timestamptz) (String.toList_ofList ..)

/-- A bound of a listing is read to the second. -/
theorem timeParam_boundText (name : String) {bound : Option Zoned}
    (h : ∀ z ∈ bound, FourDigits z.wall ∧ z.offset.natAbs < 1500) :
    (goRuntime decodeErrorText storageErrorText).timeParam name (boundText bound) =
      .ok (bound.map fun z => truncSeconds z.instant) := by
  cases bound with
  | none => rfl
  | some z =>
    obtain ⟨hyear, hzone⟩ := h z rfl
    have hread : (goRuntime decodeErrorText storageErrorText).parseRFC3339 (boundText (some z)) =
        some (truncSeconds z.instant) := by
      change readBound (boundText (some z)) = _
      rw [readBound_boundText, parseZoned_formatRFC3339 hyear hzone]
      exact congrArg some (timestamptz_truncSeconds z.instant)
    simp only [Runtime.timeParam, if_neg (boundText_ne_empty z), hread, Option.map_some]

/-- A zone of a day and an hour can be given to the command line, and is refused by the
server. -/
theorem timeParam_boundText_error (name : String) {z : Zoned} (hyear : FourDigits z.wall)
    (hzone : z.offset.natAbs = 1500) :
    (goRuntime decodeErrorText storageErrorText).timeParam name (boundText (some z)) =
      .error (name ++ ": must be RFC3339 time") := by
  have hread : (goRuntime decodeErrorText storageErrorText).parseRFC3339 (boundText (some z)) =
      none := by
    change readBound (boundText (some z)) = _
    rw [readBound_boundText, parseZoned_formatRFC3339_eq_none hyear (by omega) (by omega)]
    rfl
  simp only [Runtime.timeParam, if_neg (boundText_ne_empty z), hread]

variable {f : Filter} (hbounds : ∀ z ∈ f.bounds, FourDigits z.wall ∧ z.offset.natAbs ≤ 1500)

include hbounds in
/-- The filter the server makes of a listing, if it accepts the zones. -/
theorem listFilter_listQuery (hzones : ∀ z ∈ f.bounds, z.offset.natAbs < 1500) :
    (goRuntime decodeErrorText storageErrorText).listFilter f.errorType f.handlerRef
      (boundText f.after) (boundText f.before) = .ok f.wholeSeconds := by
  have hafter : ∀ z ∈ f.after, FourDigits z.wall ∧ z.offset.natAbs < 1500 := fun z hz =>
    have hmem : z ∈ f.bounds := List.mem_append_left _ (Option.mem_toList.mpr hz)
    ⟨(hbounds z hmem).1, hzones z hmem⟩
  have hbefore : ∀ z ∈ f.before, FourDigits z.wall ∧ z.offset.natAbs < 1500 := fun z hz =>
    have hmem : z ∈ f.bounds := List.mem_append_right _ (Option.mem_toList.mpr hz)
    ⟨(hbounds z hmem).1, hzones z hmem⟩
  unfold Runtime.listFilter
  rw [timeParam_boundText _ _ "from" hafter, timeParam_boundText _ _ "to" hbefore]
  rfl

include hbounds in
/-- The server refuses the listing for any other zone. -/
theorem listFilter_listQuery_error (hzones : ¬∀ z ∈ f.bounds, z.offset.natAbs < 1500) :
    ∃ detail, (goRuntime decodeErrorText storageErrorText).listFilter f.errorType f.handlerRef
      (boundText f.after) (boundText f.before) = .error detail := by
  push Not at hzones
  obtain ⟨z, hz, hzone⟩ := hzones
  obtain ⟨hyear, hle⟩ := hbounds z hz
  have heq : z.offset.natAbs = 1500 := Nat.le_antisymm hle hzone
  unfold Runtime.listFilter
  rcases List.mem_append.mp hz with hz | hz
  · rw [Option.mem_toList.mp hz, timeParam_boundText_error _ _ "from" hyear heq]
    exact ⟨_, rfl⟩
  · rw [Option.mem_toList.mp hz, timeParam_boundText_error _ _ "to" hyear heq]
    cases (goRuntime decodeErrorText storageErrorText).timeParam "from" (boundText f.after) with
    | error detail => exact ⟨detail, rfl⟩
    | ok after => exact ⟨_, rfl⟩

end Reading

/-! ## Redrive and purge -/

/-- Why `time.Time.MarshalJSON` fails. -/
inductive TimeError
  | year
  | zone
deriving DecidableEq, Repr

/-- `time.Time.MarshalJSON`. -/
def marshalTime (z : Zoned) : Except TimeError Cst :=
  if ¬FourDigits z.wall then .error .year
  else if 1440 ≤ z.offset.natAbs then .error .zone
  else .ok (writeText (formatRFC3339Nano z))

/-- A bound in JSON, left out when it is nil. -/
def boundMember (name : String) (bound : Option Zoned) : Except TimeError (List (String × Cst)) :=
  bound.elim (.ok []) fun z => (marshalTime z).map fun v => [(name, v)]

/-- A text in JSON, left out when it is empty. -/
def textMember (name value : String) : List (String × Cst) :=
  if value = "" then [] else [(name, .str (quote true value))]

def Filter.members (f : Filter) : Except TimeError (List (String × Cst)) := do
  let after ← boundMember "dead_lettered_after" f.after
  let before ← boundMember "dead_lettered_before" f.before
  return textMember "error_type" f.errorType ++
    (textMember "handler_ref" f.handlerRef ++ (after ++ before))

/-- The body of a redrive or a purge by the filter. -/
def Filter.mutateBody (f : Filter) : Except TimeError Bytes :=
  f.members.map fun ms => (Schema.objectOf true [("filter", Schema.objectOf true ms)]).text

/-- The value the server decodes. -/
def readBody (body : Bytes) : Option Json := (firstValue body).map Cst.json

section Decoding

variable {σ : Type} {fields : List (JsonField σ)} {name : String}

theorem decodeMembers_one {field : JsonField σ} (hfield : lookup fields name = some field)
    (v : Json) (s : σ) : decodeMembers false fields s [(name, v)] = field.set v s := by
  simp only [decodeMembers, List.foldlM_cons, List.foldlM_nil, decodeMember, hfield]
  cases field.set v s <;> rfl

theorem decode_textMember {put : String → σ → σ}
    (hfield : lookup fields name = some (stringField name put)) (value : String) (s : σ) :
    decodeMembers false fields s ((textMember name value).map fun m => (m.1, m.2.json)) =
      .ok (if value = "" then s else put value s) := by
  unfold textMember
  split
  · rfl
  · rw [List.map_singleton, decodeMembers_one hfield, Cst.json, unquote_quote]
    rfl

theorem marshalTime_ok {z : Zoned} (hyear : FourDigits z.wall) (hzone : z.offset.natAbs < 1440) :
    marshalTime z = .ok (writeText (formatRFC3339Nano z)) := by
  rw [marshalTime, if_neg (not_not.mpr hyear), if_neg (Nat.not_le.mpr hzone)]

theorem readBound_nano {z : Zoned} (hyear : FourDigits z.wall) (hzone : z.offset.natAbs < 1440) :
    readBound (String.ofList (formatRFC3339Nano z)) = some (timestamptz z.instant) := by
  rw [readBound, String.toList_ofList, parseRFC3339_eq_map,
    parseZoned_formatRFC3339Nano hyear (by omega)]
  rfl

theorem decode_boundMember {put : Option Time → σ → σ}
    (hfield : lookup fields name = some (parsedField name readBound put)) {bound : Option Zoned}
    (h : ∀ z ∈ bound, FourDigits z.wall ∧ z.offset.natAbs < 1440) (s : σ) :
    ∃ ms, boundMember name bound = .ok ms ∧
      decodeMembers false fields s (ms.map fun m => (m.1, m.2.json)) =
        .ok (bound.elim s fun z => put (some (timestamptz z.instant)) s) := by
  cases bound with
  | none => exact ⟨[], rfl, rfl⟩
  | some z =>
    obtain ⟨hyear, hzone⟩ := h z rfl
    refine ⟨[(name, writeText (formatRFC3339Nano z))], ?_, ?_⟩
    · change (marshalTime z).map _ = _
      rw [marshalTime_ok hyear hzone]
      rfl
    · rw [List.map_singleton, decodeMembers_one hfield, writeText, Cst.json, unquote_quote]
      simp only [parsedField, readBound_nano hyear hzone, Option.elim_some]

end Decoding

variable (decodeErrorText : DecodeError → String) (storageErrorText : StorageError → String)
variable {f : Filter} (hbounds : ∀ z ∈ f.bounds, FourDigits z.wall ∧ z.offset.natAbs ≤ 1500)

include hbounds in
/-- The filter the server reads from a body, if the zones can be written. -/
theorem readSelector_mutateBody (hzones : ∀ z ∈ f.bounds, z.offset.natAbs < 1440) :
    ∃ body, f.mutateBody = .ok body ∧
      (goRuntime decodeErrorText storageErrorText).readSelector (readBody body) =
        .ok { filter := some f.params } := by
  let fields := (goRuntime decodeErrorText storageErrorText).filterFields
  have hafter : ∀ z ∈ f.after, FourDigits z.wall ∧ z.offset.natAbs < 1440 := fun z hz =>
    have hmem : z ∈ f.bounds := List.mem_append_left _ (Option.mem_toList.mpr hz)
    ⟨(hbounds z hmem).1, hzones z hmem⟩
  have hbefore : ∀ z ∈ f.before, FourDigits z.wall ∧ z.offset.natAbs < 1440 := fun z hz =>
    have hmem : z ∈ f.bounds := List.mem_append_right _ (Option.mem_toList.mpr hz)
    ⟨(hbounds z hmem).1, hzones z hmem⟩
  -- the members are stored one after another, starting from the empty filter
  let typed : DLQFilter := { errorType := f.errorType }
  let texts : DLQFilter := { typed with handlerRef := f.handlerRef }
  let lower : DLQFilter := { texts with deadLetteredAfter := f.params.deadLetteredAfter }
  have htyped : decodeMembers false fields {}
      ((textMember "error_type" f.errorType).map fun m => (m.1, m.2.json)) = .ok typed := by
    have hfield : lookup fields "error_type" = some Server.errorTypeField := rfl
    rw [decode_textMember hfield]
    split
    · rename_i hempty
      exact congrArg (fun x : String => Except.ok ({ errorType := x } : DLQFilter)) hempty.symm
    · rfl
  have htexts : decodeMembers false fields typed
      ((textMember "handler_ref" f.handlerRef).map fun m => (m.1, m.2.json)) = .ok texts := by
    have hfield : lookup fields "handler_ref" = some Server.handlerRefField := rfl
    rw [decode_textMember hfield]
    split
    · rename_i hempty
      exact congrArg (fun x : String => Except.ok { typed with handlerRef := x }) hempty.symm
    · rfl
  obtain ⟨as, has, hlower⟩ : ∃ as, boundMember "dead_lettered_after" f.after = .ok as ∧
      decodeMembers false fields texts (as.map fun m => (m.1, m.2.json)) = .ok lower := by
    have hfield : lookup fields "dead_lettered_after" = some (parsedField "dead_lettered_after"
      readBound fun t f => { f with deadLetteredAfter := t }) := rfl
    obtain ⟨as, has, hdecode⟩ := decode_boundMember hfield hafter texts
    refine ⟨as, has, hdecode.trans ?_⟩
    simp only [lower, Filter.params]
    cases f.after <;> rfl
  obtain ⟨bs, hbs, hparams⟩ : ∃ bs, boundMember "dead_lettered_before" f.before = .ok bs ∧
      decodeMembers false fields lower (bs.map fun m => (m.1, m.2.json)) = .ok f.params := by
    have hfield : lookup fields "dead_lettered_before" = some (parsedField "dead_lettered_before"
      readBound fun t f => { f with deadLetteredBefore := t }) := rfl
    obtain ⟨bs, hbs, hdecode⟩ := decode_boundMember hfield hbefore lower
    refine ⟨bs, hbs, hdecode.trans ?_⟩
    simp only [lower, texts, typed, Filter.params]
    cases f.before <;> rfl
  let ms := textMember "error_type" f.errorType ++
    (textMember "handler_ref" f.handlerRef ++ (as ++ bs))
  have hmembers : f.members = .ok ms := by
    rw [Filter.members, has, hbs]
    rfl
  have hfilter : decodeMembers false fields {} (ms.map fun m => (m.1, m.2.json)) =
      .ok f.params := by
    simp only [ms, List.map_append, decodeMembers_append]
    rw [htyped]
    change (decodeMembers false fields typed _ >>= _) = _
    rw [htexts]
    change (decodeMembers false fields texts _ >>= _) = _
    rw [hlower]
    exact hparams
  refine ⟨(Schema.objectOf true [("filter", Schema.objectOf true ms)]).text, ?_, ?_⟩
  · rw [Filter.mutateBody, hmembers]
    rfl
  · have hbody : readBody (Schema.objectOf true [("filter", Schema.objectOf true ms)]).text =
        some (.obj [("filter", .obj (ms.map fun m => (m.1, m.2.json)))]) := by
      rw [readBody, firstValue_text, Option.map_some, Schema.json_objectOf, List.map_singleton,
        Schema.json_objectOf]
    have hfield : lookup (Server.selectorFields false fields) "filter" =
        some (structField "filter" false fields {} SelectorRequest.filter
          fun f req => { req with filter := f }) := rfl
    rw [hbody]
    change decodeMembers false (Server.selectorFields false fields) {} [("filter", _)] = _
    rw [decodeMembers_one hfield]
    change (decodeMembers false fields {} _).map _ = _
    rw [hfilter]
    rfl

include hbounds in
/-- Without a body nothing is sent. -/
theorem mutateBody_error (hzones : ¬∀ z ∈ f.bounds, z.offset.natAbs < 1440) :
    ∃ e, f.mutateBody = .error e := by
  push Not at hzones
  obtain ⟨z, hz, hzone⟩ := hzones
  have htime : marshalTime z = .error .zone := by
    rw [marshalTime, if_neg (not_not.mpr (hbounds z hz).1), if_pos hzone]
  have hmember (name : String) : boundMember name (some z) = .error .zone := by
    change (marshalTime z).map _ = _
    rw [htime]
    rfl
  unfold Filter.mutateBody Filter.members
  rcases List.mem_append.mp hz with hz | hz
  · rw [Option.mem_toList.mp hz, hmember]
    exact ⟨_, rfl⟩
  · rw [Option.mem_toList.mp hz, hmember]
    cases boundMember "dead_lettered_after" f.after with
    | error e => exact ⟨e, rfl⟩
    | ok as => exact ⟨_, rfl⟩

end Rdq.Cli
