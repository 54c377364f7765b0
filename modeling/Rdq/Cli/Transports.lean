import Rdq.Cli.Filter
import Rdq.Foundation.PageWalk
import Rdq.Server.FilterHonoured

/-!
# The two transports of the command line

`DLQList`, `Redrive` and `Purge` of `apiTransport` and `DLQList` of `directTransport`
(`cli/cmd/transport.go`), with a server over the same database.

A redrive or a purge sends the bounds of its filter as they are, and so does the direct
listing. The listing over the API sends them in `time.RFC3339`, which has no fractions of a
second. The main result says for which filters and dead letters all of them are about the
same tasks.

## Implementation notes

The queue of a request is the one the server finds in its path. The count of an answer
arrives as it was sent. Nothing else changes the database during a walk.
-/

namespace Rdq.Cli

open Foundation Foundation.PageWalk
open Postgres (Database DlqRow TaskRow Collation Memory ListFault ListError Shown Instant
  cursorText cursorParams decodeDLQCursor envelopeFromRows pageSize timestamptz)
open Server (Action Backend Response ListResponse handleDLQList handleDLQMutate limitParam
  wireEnvelope listBody readList)

/-! ## The calls -/

/-- Why a call of `apiTransport` fails. -/
inductive TransportError
  | body (e : TimeError)
  | server (status : Nat) (detail : String)
  | noResponse
  | decode
deriving DecidableEq, Repr

/-- What the store and the server take from their surroundings. -/
structure Site (ι : Type*) where
  collation : Collation ι
  memory : Memory
  decodeErrorText : GoJson.DecodeError → String
  storageErrorText : StorageError → String
  listErrorText : ListError → String

namespace Site
variable {ι : Type*} (site : Site ι)

def runtime : Server.Runtime := goRuntime site.decodeErrorText site.storageErrorText

section Calls
variable [LinearOrder ι] (db : Database) (later : TaskID → Database) (queue : String) (f : Filter)

/-- `directTransport.DLQList`. -/
def directDLQList (limit : Int) (after : String) : Except ListFault (List Envelope × String) :=
  db.dlqList site.collation site.memory later queue f.params after limit

/-- `apiTransport.DLQList`. -/
def apiDLQList (limit : Int) (after : String) :
    Except TransportError (List Wire.Envelope × String) :=
  match readQuery (requestQuery (f.listQuery limit after)) with
  | none => .error (.server 500 "")
  | some q =>
    match handleDLQList site.collation site.memory site.runtime site.listErrorText (some db)
        later queue q with
    | none => .error .noResponse
    | some (.problem code detail) =>
      .error (.server (ListResponse.problem code detail).status detail)
    | some (.page tasks next) =>
      match readList (listBody (tasks.map wireEnvelope) next) with
      | none => .error .decode
      | some page => .ok page

end Calls

/-- `apiTransport.dlqMutate` with a filter, and the store after it. -/
def dlqMutate (db : Database) (action : Action) (queue : String) (f : Filter) (now : Time) :
    Option Backend × Except TransportError Nat :=
  match f.mutateBody with
  | .error e => (some (.postgres db), .error (.body e))
  | .ok body =>
    match handleDLQMutate site.runtime (some (.postgres db)) action queue (readBody body) now with
    | (b, .count n) => (b, .ok n)
    | (b, .problem code detail) =>
      (b, .error (.server (Response.problem code detail).status detail))

/-- The tasks that `Redrive` or `Purge` affects. -/
def affected (db : Database) (action : Action) (queue : String) (f : Filter) (now : Time) :
    Set TaskID :=
  {id | ∃ b ∈ (site.dlqMutate db action queue f now).1, (Backend.postgres db).Touched b id}

end Site

/-! ## Walking a listing -/

variable {g : DLQFilter} {action : Action} {f : Filter}

section Walk
variable {ι : Type*} [LinearOrder ι] {site : Site ι} {db : Database} {later : TaskID → Database}
variable {queue : String} {limit : Int}

variable (site db queue) in
/-- The rows that are left at a cursor. -/
def Left (g : DLQFilter) (cursor : String) (rows : List DlqRow) : Prop :=
  ∃ params : Option (Time × TaskID), (∀ p ∈ params, Instant p.1) ∧
    decodeDLQCursor cursor = .ok (params.map fun p => (p.1, bytesOf p.2)) ∧
    rows = db.dlqOrdered site.collation queue g params

theorem left_empty (g : DLQFilter) :
    Left site db queue g "" (db.dlqOrdered site.collation queue g none) :=
  ⟨none, fun _ hp => (Option.not_mem_none _ hp).elim, rfl, rfl⟩

variable (later) in
/-- A page of the store, and what it leaves. -/
theorem dlqList_left (hg : g.includeAttempts = false)
    (hrows : ∀ d ∈ db.dlq.rows, Instant d.deadLetteredAt)
    (hmakes : (pageSize limit + 1) * site.memory.rowSize ≤ site.memory.maxAlloc) {cursor : String}
    {rows : List DlqRow} (hleft : Left site db queue g cursor rows) :
    ∃ next, db.dlqList site.collation site.memory later queue g cursor limit =
        .ok ((rows.take (pageSize limit)).map fun d => envelopeFromRows d.row [], next) ∧
      (next = "" ↔ rows.length ≤ pageSize limit) ∧
      (pageSize limit < rows.length → Left site db queue g next (rows.drop (pageSize limit))) := by
  obtain ⟨params, hinst, hcursor, rfl⟩ := hleft
  have hpos := (Postgres.pageSize_spec limit).1
  refine ⟨_, ?_, Postgres.cursorText_eq_empty_iff hpos, ?_⟩
  · rw [Postgres.dlqList_eq hcursor (Postgres.cursorParams_bytesOf params) hmakes]
    simp only [hg, Bool.false_eq_true, if_false]
  · intro hmore
    rw [if_pos hmore]
    cases hlast :
      ((db.dlqOrdered site.collation queue g params).take (pageSize limit)).getLast? with
    | none =>
      rw [List.getLast?_eq_none_iff, List.take_eq_nil_iff] at hlast
      rcases hlast with hzero | hnil
      · omega
      · rw [hnil] at hmore
        cases hmore
    | some d =>
      have hmem := Postgres.mem_dlqOrdered.mp (List.mem_of_mem_take (List.mem_of_getLast? hlast))
      have hd := hrows d hmem.1
      refine ⟨some (d.deadLetteredAt, d.id), ?_, ?_, ?_⟩
      · rintro p ⟨rfl⟩
        exact hd
      · exact Postgres.decodeDLQCursor_encodeDLQCursor hd.2 d.id
      · exact (Postgres.dlqOrdered_after hinst hlast hd).symm

variable (later) in
/-- The direct transport delivers everything. -/
theorem serves_direct (hrows : ∀ d ∈ db.dlq.rows, Instant d.deadLetteredAt)
    (hmakes : (pageSize limit + 1) * site.memory.rowSize ≤ site.memory.maxAlloc) :
    Serves (site.directDLQList db later queue f limit) (pageSize limit)
      (Left site db queue f.params) (fun _ => True) fun d => envelopeFromRows d.row [] where
  delivered := fun hleft _ => dlqList_left later rfl hrows hmakes hleft
  refused := fun _ hnot => absurd (fun _ _ => trivial) hnot

theorem limitParam_listQuery (f : Filter) (after : String) (hlimit : limit < 2 ^ 63) :
    limitParam (f.listQuery limit after).limit = .ok (max limit 0) := by
  change limitParam (if 0 < limit then String.ofList (formatInt limit) else "") = _
  by_cases hpos : 0 < limit
  · obtain ⟨htoInt, hparse⟩ := parseInt64_formatInt_of_range (i := limit) (by omega)
    have hne : String.ofList (formatInt limit) ≠ "" := by
      intro hempty
      have hnil := congrArg String.toList hempty
      rw [String.toList_ofList] at hnil
      exact formatInt_ne_nil limit hnil
    have hnotle : ¬ Int64.ofInt limit ≤ 0 := by
      rw [Int64.le_iff_toInt_le, htoInt]
      exact not_le.mpr hpos
    rw [if_pos hpos, limitParam, if_neg hne, String.toList_ofList, hparse, max_eq_left hpos.le]
    simp only [if_neg hnotle, htoInt]
  · rw [if_neg hpos, max_eq_right (not_lt.mp hpos)]
    rfl

theorem pageSize_max (limit : Int) : pageSize (max limit 0) = pageSize limit := by
  unfold pageSize
  by_cases hpos : 0 < limit
  · rw [max_eq_left hpos.le]
  · rw [max_eq_right (not_lt.mp hpos), if_pos le_rfl, if_pos (not_lt.mp hpos)]

/-- A page that the server finds is read by the client if it can be written. -/
theorem apiDLQList_of_page {after next : String} {tasks : List Envelope}
    (h : handleDLQList site.collation site.memory site.runtime site.listErrorText (some db) later
      queue (f.listQuery limit after) = some (.page tasks next)) :
    site.apiDLQList db later queue f limit after =
      (readList (listBody (tasks.map wireEnvelope) next)).elim (.error .decode) .ok := by
  unfold Site.apiDLQList
  rw [readQuery_requestQuery]
  simp only [h]
  cases readList (listBody (tasks.map wireEnvelope) next) <;> rfl

/-- The envelope of a row in a listing. -/
def rowEnvelope (d : DlqRow) : Wire.Envelope := wireEnvelope (envelopeFromRows d.row [])

section Api
variable {f : Filter} (hbounds : ∀ z ∈ f.bounds, FourDigits z.wall ∧ z.offset.natAbs ≤ 1500)

variable (later) in
include hbounds in
/-- The API delivers the rows it can write, of those between the bounds cut to the second. -/
theorem serves_api (hzones : ∀ z ∈ f.bounds, z.offset.natAbs < 1500)
    (hrows : ∀ d ∈ db.dlq.rows, Instant d.deadLetteredAt)
    (hmakes : (pageSize limit + 1) * site.memory.rowSize ≤ site.memory.maxAlloc) :
    Serves (site.apiDLQList db later queue f limit) (pageSize limit)
      (Left site db queue f.wholeSeconds) (fun d => (rowEnvelope d).Sendable)
      fun d => (rowEnvelope d).sent := by
  have hlimit : limit < 2 ^ 63 := by
    have hle : pageSize limit + 1 ≤ (pageSize limit + 1) * site.memory.rowSize :=
      Nat.le_mul_of_pos_right _ site.memory.rowSize_pos
    have hlt := site.memory.maxAlloc_lt
    have hsize : limit ≤ pageSize limit := by
      unfold pageSize
      split <;> omega
    omega
  have hmax : (pageSize (max limit 0) + 1) * site.memory.rowSize ≤ site.memory.maxAlloc := by
    rwa [pageSize_max]
  have hpage {cursor : String} {rows : List DlqRow}
      (hleft : Left site db queue f.wholeSeconds cursor rows) :
      ∃ next, site.apiDLQList db later queue f limit cursor =
          (readList (listBody ((rows.take (pageSize limit)).map rowEnvelope) next)).elim
            (.error .decode) .ok ∧
        (next = "" ↔ rows.length ≤ pageSize limit) ∧ (pageSize limit < rows.length →
          Left site db queue f.wholeSeconds next (rows.drop (pageSize limit))) := by
    obtain ⟨next, hlist, hrest⟩ := dlqList_left later rfl hrows hmax hleft
    rw [pageSize_max] at hlist hrest
    have hanswer : handleDLQList site.collation site.memory site.runtime site.listErrorText
        (some db) later queue (f.listQuery limit cursor) = some (.page _ next) :=
      (Server.handleDLQList_page
        (listFilter_listQuery site.decodeErrorText site.storageErrorText hbounds hzones)
        (limitParam_listQuery f cursor hlimit)).mpr hlist
    refine ⟨next, ?_, hrest⟩
    rw [apiDLQList_of_page hanswer, List.map_map]
    rfl
  constructor
  · intro cursor rows hleft hgood
    obtain ⟨next, hcall, hrest⟩ := hpage hleft
    have hsend : ∀ e ∈ (rows.take (pageSize limit)).map rowEnvelope, e.Sendable :=
      List.forall_mem_map.mpr hgood
    rw [Server.readList_listBody hsend, List.map_map] at hcall
    exact ⟨next, hcall, hrest⟩
  · intro cursor rows hleft hbad page hok
    obtain ⟨next, hcall, -⟩ := hpage hleft
    rw [Server.readList_listBody_eq_none (mt List.forall_mem_map.mp hbad), hok] at hcall
    cases hcall

include hbounds in
/-- With any other zone there is no page. -/
theorem apiDLQList_error (hzones : ¬∀ z ∈ f.bounds, z.offset.natAbs < 1500) (after : String)
    (page : List Wire.Envelope × String) :
    site.apiDLQList db later queue f limit after ≠ .ok page := by
  obtain ⟨detail, herr⟩ :=
    listFilter_listQuery_error site.decodeErrorText site.storageErrorText hbounds hzones
  have hanswer : handleDLQList site.collation site.memory site.runtime site.listErrorText (some db)
      later queue (f.listQuery limit after) = some (.problem .invalidTask detail) :=
    Server.handleDLQList_invalid herr
  unfold Site.apiDLQList
  rw [readQuery_requestQuery]
  simp only [hanswer]
  intro hok
  cases hok

end Api

end Walk

/-! ## What an action affects -/

section Affected
variable {ι : Type*} {site : Site ι} {db : Database} {queue : String} (now : Time)

/-- A purge takes every row the filter shows. So does a redrive, unless one of these tasks is
live as well: then it fails as a whole. -/
theorem touched_iff {id : TaskID} :
    (Backend.postgres db).Touched
        ((Backend.postgres db).perform action queue { filter := some g } now).1 id ↔
      id ∈ DlqRow.id '' Shown queue g db ∧
        (action = .redrive → ∀ d ∈ Shown queue g db, db.task.find? d.id = none) := by
  have hrow {d : DlqRow} (hd : d ∈ Shown queue g db) :
      d ∈ db.dlq.rows.filter (Postgres.dlqSelects queue { filter := some g }) :=
    List.mem_filter.mpr hd
  have hview (db' : Database) {d : DlqRow} (hd : d ∈ Shown queue g db)
      (hgone : (db'.view d.id).dlq = none) :
      (Backend.postgres db).stored d.id ≠ (Backend.postgres db').stored d.id := by
    intro heq
    have hdlq := congrArg Postgres.View.dlq (Sum.inr.inj heq)
    rw [hgone] at hdlq
    cases (KeyedTable.find?_key_of_mem hd.1).symm.trans hdlq
  constructor
  · intro h
    constructor
    · obtain ⟨d, hd, hsel⟩ := Server.row_of_touched h
      exact ⟨d, ⟨KeyedTable.mem_of_find? hd, hsel⟩, KeyedTable.key_of_find? hd⟩
    · rintro rfl
      by_contra hlive
      have hnot : ¬∀ d ∈ db.dlq.rows.filter (Postgres.dlqSelects queue { filter := some g }),
          db.task.find? d.id = none := fun hfree => hlive fun d hd => hfree d (hrow hd)
      apply h
      change _ = (Backend.postgres (db.redrive queue { filter := some g } now).1).stored id
      rw [Database.redrive, if_neg hnot]
  · rintro ⟨⟨d, hd, rfl⟩, hfree⟩
    cases action with
    | redrive =>
      have hall : ∀ d ∈ db.dlq.rows.filter (Postgres.dlqSelects queue { filter := some g }),
          db.task.find? d.id = none := fun d hd => hfree rfl d (List.mem_filter.mp hd)
      apply hview (db.redrive queue { filter := some g } now).1 hd
      rw [(Postgres.view_redrive db hall).1 d (hrow hd)]
    | purge =>
      apply hview (db.purge queue { filter := some g }).1 hd
      rw [(Postgres.view_purge db queue _).1 d (hrow hd)]

theorem dlqMutate_fst {body : JsonText.Bytes} (hbody : f.mutateBody = .ok body) :
    (site.dlqMutate db action queue f now).1 =
      (handleDLQMutate site.runtime (some (.postgres db)) action queue (readBody body) now).1 := by
  unfold Site.dlqMutate
  simp only [hbody]
  split <;> rename_i hanswer <;> rw [hanswer]

variable {f : Filter} (hbounds : ∀ z ∈ f.bounds, FourDigits z.wall ∧ z.offset.natAbs ≤ 1500)

include hbounds in
/-- What a filter that can be written affects. -/
theorem mem_affected_iff {id : TaskID} (hzones : ∀ z ∈ f.bounds, z.offset.natAbs < 1440) :
    id ∈ site.affected db action queue f now ↔
      id ∈ DlqRow.id '' Shown queue f.params db ∧
        (action = .redrive → ∀ d ∈ Shown queue f.params db, db.task.find? d.id = none) := by
  obtain ⟨body, hbody, hread⟩ :=
    readSelector_mutateBody site.decodeErrorText site.storageErrorText hbounds hzones
  have hafter : (site.dlqMutate db action queue f now).1 =
      some ((Backend.postgres db).perform action queue { filter := some f.params } now).1 := by
    rw [dlqMutate_fst now hbody]
    exact Server.handleDLQMutate_fst hread (.inl rfl)
  rw [← touched_iff now]
  change (∃ b ∈ (site.dlqMutate db action queue f now).1, (Backend.postgres db).Touched b id) ↔ _
  rw [hafter]
  simp

include hbounds in
/-- A filter that cannot be written affects nothing. -/
theorem affected_eq_empty (hzones : ¬∀ z ∈ f.bounds, z.offset.natAbs < 1440) :
    site.affected db action queue f now = ∅ := by
  obtain ⟨e, he⟩ := mutateBody_error hbounds hzones
  ext id
  simp [Site.affected, Site.dlqMutate, he, Backend.Touched]

end Affected

/-! ## Bounds cut to the second -/

/-- The texts of the filter, as far as they are set, are those of the row. -/
def Filter.TextsMatch (f : Filter) (d : DlqRow) : Prop :=
  (f.handlerRef = "" ∨ d.row.handlerRef = f.handlerRef) ∧
    (f.errorType = "" ∨ d.errorType = some f.errorType)

/-- The time lies between one of the bounds and the start of its second, and on the right
side of the other one. -/
def Filter.Slips (f : Filter) (t : Time) : Prop :=
  (∃ a ∈ f.after, truncSeconds a.instant ≤ t ∧ t < timestamptz a.instant ∧
    ∀ b ∈ f.before, t < truncSeconds b.instant) ∨
  ∃ b ∈ f.before, truncSeconds b.instant ≤ t ∧ t < timestamptz b.instant ∧
    ∀ a ∈ f.after, timestamptz a.instant ≤ t

theorem truncSeconds_le_timestamptz (t : Int) : truncSeconds t ≤ timestamptz t := by
  unfold truncSeconds timestamptz
  omega

/-- Cutting the bounds makes a difference for the times that slip. -/
theorem admits_iff_not_slips (f : Filter) (t : Time) :
    (f.wholeSeconds.Admits t ↔ f.params.Admits t) ↔ ¬f.Slips t := by
  have hle := truncSeconds_le_timestamptz
  -- the bounds as numbers, with those of the second below them
  have hlower (a' a : Int) (h : a' ≤ a) (t : Int) :
      ((a' ≤ t ↔ a ≤ t) ↔ ¬(a' ≤ t ∧ t < a)) := by omega
  have hupper (b' b : Int) (h : b' ≤ b) (t : Int) :
      ((t < b' ↔ t < b) ↔ ¬(b' ≤ t ∧ t < b)) := by omega
  have hboth (a' a b' b : Int) (ha : a' ≤ a) (hb : b' ≤ b) (t : Int) :
      ((a' ≤ t ∧ t < b' ↔ a ≤ t ∧ t < b) ↔
        ¬((a' ≤ t ∧ t < a ∧ t < b') ∨ b' ≤ t ∧ t < b ∧ a ≤ t)) := by omega
  obtain ⟨errorType, handlerRef, after, before⟩ := f
  cases after with
  | none =>
    cases before with
    | none => simp [DLQFilter.Admits, Filter.wholeSeconds, Filter.params, Filter.Slips]
    | some b =>
      simpa [DLQFilter.Admits, Filter.wholeSeconds, Filter.params, Filter.Slips] using
        hupper _ _ (hle b.instant) t
  | some a =>
    cases before with
    | none =>
      simpa [DLQFilter.Admits, Filter.wholeSeconds, Filter.params, Filter.Slips] using
        hlower _ _ (hle a.instant) t
    | some b =>
      simpa [DLQFilter.Admits, Filter.wholeSeconds, Filter.params, Filter.Slips] using
        hboth _ _ _ _ (hle a.instant) (hle b.instant) t

theorem mem_shown_iff {queue : String} {db : Database} {d : DlqRow} :
    d ∈ Shown queue g db ↔ d ∈ db.dlq.rows ∧ d.row.queue = queue ∧ g.Matches d.letter :=
  and_congr_right' (Postgres.dlqSelects_filter_iff queue g d)

/-- No dead letter of the queue that matches in its texts slips. -/
def Filter.Steady (f : Filter) (queue : String) (db : Database) : Prop :=
  ∀ d ∈ db.dlq.rows, d.row.queue = queue → f.TextsMatch d → ¬f.Slips d.deadLetteredAt

/-- The API and the store show the same tasks. -/
theorem image_shown_eq_iff {queue : String} {db : Database} :
    DlqRow.id '' Shown queue f.wholeSeconds db = DlqRow.id '' Shown queue f.params db ↔
      f.Steady queue db := by
  have hmem (g : DLQFilter) {d : DlqRow} (hd : d ∈ db.dlq.rows) :
      d.id ∈ DlqRow.id '' Shown queue g db ↔ d ∈ Shown queue g db := by
    constructor
    · rintro ⟨d', hd', hid⟩
      rwa [← db.dlq.eq_of_key_eq hd'.1 hd hid]
    · intro h
      exact ⟨d, h, rfl⟩
  have hsame {d : DlqRow} (hd : d ∈ db.dlq.rows) :
      (d ∈ Shown queue f.wholeSeconds db ↔ d ∈ Shown queue f.params db) ↔
        (d.row.queue = queue → f.TextsMatch d → ¬f.Slips d.deadLetteredAt) := by
    have hwhole : f.wholeSeconds.Matches d.letter ↔
        f.TextsMatch d ∧ f.wholeSeconds.Admits d.deadLetteredAt := and_assoc.symm
    have hparams : f.params.Matches d.letter ↔
        f.TextsMatch d ∧ f.params.Admits d.deadLetteredAt := and_assoc.symm
    rw [mem_shown_iff, mem_shown_iff, hwhole, hparams, ← admits_iff_not_slips]
    tauto
  constructor
  · intro h d hd
    refine (hsame hd).mp ?_
    rw [← hmem _ hd, ← hmem _ hd, h]
  · intro h
    ext id
    constructor
    · rintro ⟨d, hd, rfl⟩
      exact ⟨d, ((hsame hd.1).mpr (h d hd.1)).mp hd, rfl⟩
    · rintro ⟨d, hd, rfl⟩
      exact ⟨d, ((hsame hd.1).mpr (h d hd.1)).mpr hd, rfl⟩

/-! ## What the command line lists and acts on -/

/-- Both listings reach their end with the tasks that a redrive and a purge affect. -/
def Site.ListsWhatItActsOn {ι : Type*} [LinearOrder ι] (site : Site ι) (db : Database)
    (later : TaskID → Database) (queue : String) (f : Filter) (limit : Int) : Prop :=
  ∃ tasks : Set TaskID,
    (∃ listed, Listing (site.apiDLQList db later queue f limit) "" listed ∧
      tasks = {id | ∃ e ∈ listed, e.id = id}) ∧
    (∃ listed, Listing (site.directDLQList db later queue f limit) "" listed ∧
      tasks = {id | ∃ e ∈ listed, e.id = id}) ∧
    ∀ action now, site.affected db action queue f now = tasks

/-- The times of a dead letter in a listing. -/
def rowTimes (d : DlqRow) : List Time :=
  d.row.nextAttemptAt.toList ++ (d.row.leaseExpiresAt.toList ++ [d.row.createdAt])

/-- The listings and actions agree: the server can read the zones of a listing, no dead letter
slips, and the selected ones can be written, named in a body and moved. -/
structure Consistent (f : Filter) (queue : String) (db : Database) : Prop where
  zones : ∀ z ∈ f.bounds, z.offset.natAbs < 1500
  steady : f.Steady queue db
  selected : ∀ d ∈ Shown queue f.params db, (∀ z ∈ f.bounds, z.offset.natAbs < 1440) ∧
    db.task.find? d.id = none ∧ ∀ t ∈ rowTimes d, FourDigits t

theorem sendable_rowEnvelope_iff (d : DlqRow) :
    (rowEnvelope d).Sendable ↔ ∀ t ∈ rowTimes d, FourDigits t := by
  apply and_iff_left
  intro a ha
  cases ha

section Main
variable {ι : Type*} [LinearOrder ι] {site : Site ι} {db : Database} {later : TaskID → Database}
variable {queue : String} {f : Filter} {limit : Int}

theorem mem_dlqOrdered_none {col : Collation ι} {d : DlqRow} :
    d ∈ db.dlqOrdered col queue g none ↔ d ∈ Shown queue g db := by
  rw [Postgres.mem_dlqOrdered_iff fun _ hp => (Option.not_mem_none _ hp).elim]
  exact and_iff_left (WithBot.bot_lt_coe _)

theorem listed_ids {col : Collation ι} {β : Type*} (out : DlqRow → β) (ident : β → TaskID)
    (hident : ∀ d, ident (out d) = d.id) :
    {id | ∃ e ∈ (db.dlqOrdered col queue g none).map out, ident e = id} =
      DlqRow.id '' Shown queue g db := by
  ext id
  constructor
  · rintro ⟨e, he, rfl⟩
    obtain ⟨d, hd, rfl⟩ := List.mem_map.mp he
    exact ⟨d, mem_dlqOrdered_none.mp hd, (hident d).symm⟩
  · rintro ⟨d, hd, rfl⟩
    exact ⟨out d, List.mem_map_of_mem (mem_dlqOrdered_none.mpr hd), hident d⟩

variable (hrows : ∀ d ∈ db.dlq.rows, Instant d.deadLetteredAt)
  (hmakes : (pageSize limit + 1) * site.memory.rowSize ≤ site.memory.maxAlloc)

include hrows hmakes in
/-- The direct transport lists what the filter shows. -/
theorem direct_lists (tasks : Set TaskID) :
    (∃ listed, Listing (site.directDLQList db later queue f limit) "" listed ∧
      tasks = {id | ∃ e ∈ listed, e.id = id}) ↔ tasks = DlqRow.id '' Shown queue f.params db := by
  have hpos := (Postgres.pageSize_spec limit).1
  simp only [listing_iff hpos (serves_direct later hrows hmakes) (left_empty f.params),
    implies_true, and_true, exists_eq_left]
  rw [listed_ids (fun d => envelopeFromRows d.row []) Envelope.id fun _ => rfl]

include hrows hmakes in
/-- The API lists what is shown between the bounds cut to the second, if it can write it. -/
theorem api_lists (hbounds : ∀ z ∈ f.bounds, FourDigits z.wall ∧ z.offset.natAbs ≤ 1500)
    (tasks : Set TaskID) :
    (∃ listed, Listing (site.apiDLQList db later queue f limit) "" listed ∧
      tasks = {id | ∃ e ∈ listed, e.id = id}) ↔
    (∀ z ∈ f.bounds, z.offset.natAbs < 1500) ∧
      (∀ d ∈ Shown queue f.wholeSeconds db, ∀ t ∈ rowTimes d, FourDigits t) ∧
      tasks = DlqRow.id '' Shown queue f.wholeSeconds db := by
  have hpos := (Postgres.pageSize_spec limit).1
  by_cases hzones : ∀ z ∈ f.bounds, z.offset.natAbs < 1500
  · simp only [listing_iff hpos (serves_api later hbounds hzones hrows hmakes)
      (left_empty f.wholeSeconds), and_assoc, exists_eq_left]
    rw [listed_ids (fun d => (rowEnvelope d).sent) Wire.Envelope.id fun _ => rfl]
    simp only [mem_dlqOrdered_none, sendable_rowEnvelope_iff]
    exact (and_iff_right hzones).symm
  · refine iff_of_false ?_ fun h => hzones h.1
    rintro ⟨listed, hlisting, -⟩
    cases hlisting with
    | last hcall => exact apiDLQList_error hbounds hzones _ _ hcall
    | more hcall => exact apiDLQList_error hbounds hzones _ _ hcall

end Main

/-- For every filter of the command line: the tasks listed over the API, those listed from the
database and those a redrive or a purge over the API affects are the same exactly if the zones
of the bounds can be sent, no matching dead letter lies between a bound and the start of its
second, and the selected ones are not live as well and have times that can be written. -/
theorem lists_what_it_acts_on_iff {ι : Type*} [LinearOrder ι] (site : Site ι)
    (parseErrorText : String → String) (ff : FilterFlags) (f : Filter)
    (hf : ff.buildFilter parseErrorText = .ok f) (db : Database) (later : TaskID → Database)
    (queue : String) (limit : Int) (hrows : ∀ d ∈ db.dlq.rows, Instant d.deadLetteredAt)
    (hmakes : (pageSize limit + 1) * site.memory.rowSize ≤ site.memory.maxAlloc) :
    site.ListsWhatItActsOn db later queue f limit ↔ Consistent f queue db := by
  have hbounds := bounds_of_buildFilter hf
  unfold Site.ListsWhatItActsOn
  simp only [api_lists hrows hmakes hbounds, direct_lists hrows hmakes]
  constructor
  · rintro ⟨tasks, ⟨hzones, htimes, hapi⟩, hdirect, hacts⟩
    have hsteady := image_shown_eq_iff.mp (hapi.symm.trans hdirect)
    refine ⟨hzones, hsteady, fun d hd => ?_⟩
    have hid : d.id ∈ tasks := hdirect ▸ ⟨d, hd, rfl⟩
    -- a selected dead letter is affected, so the filter was sent
    have hsent : ∀ z ∈ f.bounds, z.offset.natAbs < 1440 := by
      by_contra hzone
      rw [← hacts .redrive 0, affected_eq_empty 0 hbounds hzone] at hid
      exact hid
    have hredriven := hid
    rw [← hacts .redrive 0, mem_affected_iff 0 hbounds hsent] at hredriven
    refine ⟨hsent, hredriven.2 rfl d hd, ?_⟩
    rw [hapi] at hid
    obtain ⟨d', hd', hkey⟩ := hid
    rw [← db.dlq.eq_of_key_eq hd'.1 hd.1 hkey]
    exact htimes d' hd'
  · intro h
    have hsame := image_shown_eq_iff.mpr h.steady
    refine ⟨_, ⟨h.zones, ?_, hsame.symm⟩, rfl, ?_⟩
    · intro d hd
      obtain ⟨d', hd', hkey⟩ : d.id ∈ DlqRow.id '' Shown queue f.params db := hsame ▸ ⟨d, hd, rfl⟩
      rw [← db.dlq.eq_of_key_eq hd'.1 hd.1 hkey]
      exact (h.selected d' hd').2.2
    · intro action now
      by_cases hsent : ∀ z ∈ f.bounds, z.offset.natAbs < 1440
      · ext id
        rw [mem_affected_iff now hbounds hsent]
        exact and_iff_left fun _ d hd => (h.selected d hd).2.1
      · -- nothing is sent, and nothing is selected
        rw [affected_eq_empty now hbounds hsent]
        symm
        rw [Set.image_eq_empty, Set.eq_empty_iff_forall_notMem]
        exact fun d hd => hsent (h.selected d hd).1

/-! ## A bound in the middle of a second -/

def exampleSite : Site String where
  collation := Postgres.codePoints
  memory := Postgres.megabyte
  decodeErrorText := fun _ => ""
  storageErrorText := fun _ => ""
  listErrorText := fun _ => ""

/-- The start of the second of the bound. -/
def newYear : Time := 63902822400000000000

def fromHalfSecond : FilterFlags := { fromStr := "2026-01-01T00:00:00.5Z" }

def halfSecond : Filter where
  errorType := ""
  handlerRef := ""
  after := some ⟨newYear + 500000000, 0⟩
  before := none

/-- A queue with one dead letter, so many milliseconds after the start of the second. -/
def deadAfter (millis : Int) : Database :=
  Server.oneDeadLetter (Server.deadAt {} (newYear + millis * 1000000))

theorem buildFilter_fromHalfSecond : fromHalfSecond.buildFilter (fun _ => "") = .ok halfSecond := by
  decide +kernel

theorem instants_deadAfter {millis : Int} (h : 0 ≤ millis ∧ millis < 1000) :
    ∀ d ∈ (deadAfter millis).dlq.rows, Instant d.deadLetteredAt := by
  intro d hd
  rw [List.mem_singleton.mp hd]
  have hmicros : (63902822400000000000 + millis * 1000000 : Int) % 1000 = 0 := by omega
  have hnanos : (-2 ^ 63 : Int) ≤ 63902822400000000000 + millis * 1000000 - 62135596800000000000 ∧
      63902822400000000000 + millis * 1000000 - 62135596800000000000 < (2 ^ 63 : Int) := by omega
  exact ⟨hmicros, hnanos⟩

/-- A dead letter of the second half of the second is no exception. -/
theorem consistent_late : Consistent halfSecond "orders" (deadAfter 700) where
  zones := by decide
  steady := by
    intro d hd _ _
    rw [List.mem_singleton.mp hd]
    rintro (⟨a, ha, -, hlt, -⟩ | ⟨b, hb, -⟩)
    · cases ha
      exact absurd hlt (by decide)
    · cases hb
  selected := by
    intro d hd
    rw [List.mem_singleton.mp hd.1]
    exact ⟨by decide, rfl, by decide +kernel⟩

theorem lists_what_it_acts_on_late :
    exampleSite.ListsWhatItActsOn (deadAfter 700) (fun _ => deadAfter 700) "orders" halfSecond 0 :=
  (lists_what_it_acts_on_iff exampleSite (fun _ => "") fromHalfSecond halfSecond
    buildFilter_fromHalfSecond (deadAfter 700) (fun _ => deadAfter 700) "orders" 0
    (instants_deadAfter (by decide)) (by decide)).mpr consistent_late

/-- One of the first half is listed over the API only, and neither action affects it. -/
theorem early_listed_by_api_only :
    fromHalfSecond.buildFilter (fun _ => "") = .ok halfSecond ∧
      (∃ listed, Listing (exampleSite.apiDLQList (deadAfter 200) (fun _ => deadAfter 200) "orders"
          halfSecond 0) "" listed ∧ {"t1"} = {id | ∃ e ∈ listed, e.id = id}) ∧
      (∃ listed, Listing (exampleSite.directDLQList (deadAfter 200) (fun _ => deadAfter 200)
          "orders" halfSecond 0) "" listed ∧ (∅ : Set TaskID) = {id | ∃ e ∈ listed, e.id = id}) ∧
      ∀ action now, exampleSite.affected (deadAfter 200) action "orders" halfSecond now = ∅ := by
  have hbounds := bounds_of_buildFilter buildFilter_fromHalfSecond
  have hrows : ∀ d ∈ (deadAfter 200).dlq.rows, Instant d.deadLetteredAt :=
    instants_deadAfter (by decide)
  have hnone : Shown "orders" halfSecond.params (deadAfter 200) = ∅ := by
    rw [Set.eq_empty_iff_forall_notMem]
    rintro d ⟨hd, hsel⟩
    rw [List.mem_singleton.mp hd] at hsel
    exact absurd hsel (by decide)
  refine ⟨buildFilter_fromHalfSecond, ?_, ?_, ?_⟩
  · rw [api_lists hrows (by decide) hbounds]
    refine ⟨by decide, ?_, ?_⟩
    · intro d hd
      rw [List.mem_singleton.mp hd.1]
      decide +kernel
    · ext id
      constructor
      · rintro rfl
        exact ⟨_, ⟨List.mem_singleton.mpr rfl, by decide⟩, rfl⟩
      · rintro ⟨d, hd, rfl⟩
        rw [List.mem_singleton.mp hd.1]
        rfl
  · rw [direct_lists hrows (by decide), hnone, Set.image_empty]
  · intro action now
    ext id
    rw [mem_affected_iff now hbounds (by decide), hnone, Set.image_empty]
    exact iff_of_false (fun h => h.1) fun h => h

end Rdq.Cli
