import Mathlib
import Rdq.Foundation.Base64
import Rdq.Foundation.KeysetPaging
import Rdq.Foundation.Strconv
import Rdq.Postgres.SnapshotGet

/-!
# Paging through the dead letters of Postgres

`DLQList` of `storage/postgres/dlq.go`, its cursor texts, and walks that follow the
returned cursors while transactions commit between the page queries. The rows of a
page stand in the order of `(dead_lettered_at, id)`. `dead_lettered_at` is the start
of the inserting transaction, so a row may appear before the cursor of a walk and be
missed by it; a row that the walk could see from its first page on is not.

## Implementation notes

The order of ids is that of the database's collation, given as an injective rank. An
attempts query of a listed row sees a committed state of its own. `limit + 1` and
`UnixNano` are computed in 64 bits, and a `timestamptz` parameter is cut to
microseconds. The slice of a page is made after the query and before its rows are read; a
capacity whose block the process cannot get ends the call, by a panic of `make` or with the
process.
-/

namespace Rdq.Postgres

open Rdq.Foundation Rdq.Foundation.KeysetPaging

/-- The total order in which the database compares ids. -/
structure Collation (ι : Type*) where
  rank : TaskID → ι
  injective : Function.Injective rank

/-- Why `DLQList` returns no page. -/
inductive ListError
  | staleCursor
  | query (context : String)
deriving DecidableEq, Repr

/-- What `make` asks for: the size of a row, and the largest block that the process can
get, both in bytes. -/
structure Memory where
  rowSize : Nat
  maxAlloc : Nat
  rowSize_pos : 0 < rowSize
  maxAlloc_lt : maxAlloc < 2 ^ 63

/-- `make` gets the block for this capacity. -/
def Memory.Makes (mem : Memory) (capacity : Nat) : Prop := capacity * mem.rowSize ≤ mem.maxAlloc

instance (mem : Memory) (capacity : Nat) : Decidable (mem.Makes capacity) :=
  inferInstanceAs (Decidable (_ ≤ _))

/-- Why there is no page: an error that `DLQList` returns, or no block for its rows. -/
inductive ListFault
  | error (e : ListError)
  | noMemory
deriving DecidableEq, Repr

/-! ## Times and numbers of 64 bits -/

def int64 (i : Int) : Int := Int.bmod i (2 ^ 64)

theorem int64_eq {i : Int} (h : -2 ^ 63 ≤ i ∧ i < 2 ^ 63) : int64 i = i :=
  Int.bmod_eq_of_le (by omega) (by omega)

/-- The instant of Unix time zero. -/
def unixEpoch : Time := 62135596800000000000

/-- `Time.UnixNano`. -/
def unixNano (t : Time) : Int := int64 (t - unixEpoch)

/-- A time as a `timestamptz` parameter. -/
def timestamptz (t : Time) : Time := t - t % 1000

/-- A whole microsecond whose Unix time in nanoseconds fits 64 bits. -/
def Instant (t : Time) : Prop :=
  t % 1000 = 0 ∧ -2 ^ 63 ≤ t - unixEpoch ∧ t - unixEpoch < 2 ^ 63

/-! ## The cursor -/

def dlqCursorPrefix : List Char := ['p', 'g', 'd', 'l', 'q', '1', ':']

/-- What a cursor says before the id. -/
def cursorHead (deadAt : Time) : List Char :=
  dlqCursorPrefix ++ (formatInt (unixNano deadAt) ++ [':'])

def encodeDLQCursor (deadAt : Time) (id : TaskID) : String :=
  String.ofList
    (Base64.encode Base64.rawURLEncoding (asciiBytes (cursorHead deadAt) ++ bytesOf id))

/-- The position a cursor stands for, with the id in bytes. The empty cursor starts from
the beginning. -/
def decodeDLQCursor (c : String) : Except ListError (Option (Time × List UInt8)) :=
  if c = "" then .ok none
  else
    match Base64.decode Base64.rawURLEncoding c.toList with
    | none => .error .staleCursor
    | some raw =>
      match cutFront dlqCursorPrefix (byteChars raw) with
      | none => .error .staleCursor
      | some rest =>
        let sep := rest.idxOf ':'
        if ':' ∈ rest then
          match parseInt64 (rest.take sep) with
          | none => .error .staleCursor
          | some nanos =>
            .ok (some (unixEpoch + nanos.toInt,
              raw.drop (dlqCursorPrefix.length + sep + 1)))
        else .error .staleCursor

theorem ascii_cursorHead (deadAt : Time) : ∀ c ∈ cursorHead deadAt, c.toNat < 128 := by
  have hfront : ∀ c ∈ dlqCursorPrefix, c.toNat < 128 := by simp [dlqCursorPrefix]
  intro c hc
  rcases List.mem_append.mp hc with hc | hc
  · exact hfront c hc
  · rcases List.mem_append.mp hc with hc | hc
    · exact toNat_lt_of_mem_formatInt hc
    · rw [List.mem_singleton.mp hc]
      decide

theorem byteChars_cursorHead (deadAt : Time) :
    byteChars (asciiBytes (cursorHead deadAt)) = cursorHead deadAt := by
  apply byteChars_asciiBytes
  intro c hc
  exact Nat.lt_trans (ascii_cursorHead deadAt c hc) (by decide)

theorem encodeDLQCursor_ne_empty (deadAt : Time) (id : TaskID) :
    encodeDLQCursor deadAt id ≠ "" := by
  intro h
  have hnil : Base64.encode Base64.rawURLEncoding
      (asciiBytes (cursorHead deadAt) ++ bytesOf id) = [] := by
    simpa [encodeDLQCursor] using congrArg String.toList h
  refine Base64.encode_ne_nil _ ?_ hnil
  simp [asciiBytes, cursorHead, dlqCursorPrefix]

theorem colon_notMem_formatInt (i : Int) : ':' ∉ formatInt i := by
  intro h
  rcases mem_formatInt h with h | h
  · cases h
  · cases h

/-- A cursor stands for the position it was made from. -/
theorem decodeDLQCursor_encodeDLQCursor {deadAt : Time}
    (h : -2 ^ 63 ≤ deadAt - unixEpoch ∧ deadAt - unixEpoch < 2 ^ 63) (id : TaskID) :
    decodeDLQCursor (encodeDLQCursor deadAt id) = .ok (some (deadAt, bytesOf id)) := by
  have hnano : unixNano deadAt = deadAt - unixEpoch := int64_eq h
  obtain ⟨htoInt, hparse⟩ := parseInt64_formatInt_of_range (i := unixNano deadAt) (hnano ▸ h)
  rw [decodeDLQCursor, if_neg (encodeDLQCursor_ne_empty deadAt id), encodeDLQCursor,
    String.toList_ofList, Base64.decode_encode]
  have hrest : byteChars (asciiBytes (cursorHead deadAt) ++ bytesOf id) =
      dlqCursorPrefix ++ (formatInt (unixNano deadAt) ++ ':' :: byteChars (bytesOf id)) := by
    rw [byteChars_append, byteChars_cursorHead, cursorHead, List.append_assoc, List.append_assoc]
    rfl
  have hsep : (formatInt (unixNano deadAt) ++ ':' :: byteChars (bytesOf id)).idxOf ':' =
      (formatInt (unixNano deadAt)).length := by
    rw [List.idxOf_append_of_notMem (colon_notMem_formatInt _), List.idxOf_cons_self,
      Nat.add_zero]
  have hid : (asciiBytes (cursorHead deadAt) ++ bytesOf id).drop
      (dlqCursorPrefix.length + (formatInt (unixNano deadAt)).length + 1) = bytesOf id := by
    apply List.drop_left'
    simp [asciiBytes, cursorHead, Nat.add_assoc]
  simp only [hrest, cutFront_append, hsep, List.mem_append, List.mem_cons, true_or, or_true,
    if_true, List.take_left, hid]
  have hback : unixEpoch + unixNano deadAt = deadAt := by
    rw [hnano, Int.add_comm, Int.sub_add_cancel]
  simp only [hparse, htoInt, hback]

/-! ## The page query -/

def defaultDLQPageLimit : Int := 100

section Page
variable {ι : Type*} [LinearOrder ι] (col : Collation ι) (mem : Memory)

/-- The key of a position. -/
def positionKey (deadAt : Time) (id : TaskID) : Time ×ₗ ι := toLex (deadAt, col.rank id)

def DlqRow.key (d : DlqRow) : Time ×ₗ ι := positionKey col d.deadLetteredAt d.id

/-- The conditions of the query: those of a filter selector, and the row comparison with
the cursor. -/
def dlqListed (queue : String) (f : DLQFilter) (after : Option (Time × TaskID)) (d : DlqRow) :
    Bool :=
  dlqSelects queue { filter := some f } d &&
    after.all fun p => decide (positionKey col (timestamptz p.1) p.2 < d.key col)

/-- The rows the query would return without a limit. -/
def Database.dlqOrdered (db : Database) (queue : String) (f : DLQFilter)
    (after : Option (Time × TaskID)) : List DlqRow :=
  (db.dlq.rows.filter (dlqListed col queue f after)).insertionSort fun a b => a.key col ≤ b.key col

/-- The rows of a page, and the cursor of the next one. One more row than the page holds
tells whether there is a next page. -/
def Database.dlqPage (db : Database) (queue : String) (f : DLQFilter)
    (after : Option (Time × TaskID)) (limit : Int) : Except ListFault (List DlqRow × String) :=
  let limit := if limit ≤ 0 then defaultDLQPageLimit else limit
  let fetch := int64 (limit + 1)
  if fetch < 0 then .error (.error (.query "rdq/postgres: DLQList query"))
  else if mem.Makes fetch.toNat then
    let collected := (db.dlqOrdered col queue f after).take fetch.toNat
    if limit < collected.length then
      let page := collected.take limit.toNat
      .ok (page, match page.getLast? with
        | none => ""
        | some last => encodeDLQCursor last.deadLetteredAt last.id)
    else .ok (collected, "")
  else .error .noMemory

/-- The cursor as parameters of the query; an id that is no text is refused. -/
def cursorParams : Option (Time × List UInt8) → Except ListError (Option (Time × TaskID))
  | none => .ok none
  | some (deadAt, idBytes) =>
    match ofBytes? idBytes with
    | none => .error (.query "rdq/postgres: DLQList query")
    | some id => .ok (some (deadAt, id))

/-- The rows a page call lists, and its cursor. -/
def Database.dlqRows (db : Database) (queue : String) (f : DLQFilter) (after : String)
    (limit : Int) : Except ListFault (List DlqRow × String) :=
  match decodeDLQCursor after >>= cursorParams with
  | .error e => .error (.error e)
  | .ok params => db.dlqPage col mem queue f params limit

/-- `DLQList`; `later id` is the state in which the attempts of `id` are read. -/
def Database.dlqList (db : Database) (later : TaskID → Database) (queue : String)
    (f : DLQFilter) (after : String) (limit : Int) :
    Except ListFault (List Envelope × String) := do
  let (page, next) ← db.dlqRows col mem queue f after limit
  return (page.map fun d => envelopeFromRows d.row
    (if f.includeAttempts then (later d.id).loadAttempts d.id else []), next)

variable {col} {mem} {db : Database} {queue : String} {f : DLQFilter}
  {after : Option (Time × TaskID)}

omit [LinearOrder ι] in
theorem key_injOn_rows {a b : DlqRow} (ha : a ∈ db.dlq.rows) (hb : b ∈ db.dlq.rows)
    (h : a.key col = b.key col) : a = b := by
  have hrank : col.rank a.id = col.rank b.id := congrArg (fun k => (ofLex k).2) h
  exact db.dlq.eq_of_key_eq ha hb (col.injective hrank)

theorem mem_dlqOrdered {d : DlqRow} :
    d ∈ db.dlqOrdered col queue f after ↔
      d ∈ db.dlq.rows ∧ dlqListed col queue f after d = true := by
  rw [Database.dlqOrdered, List.mem_insertionSort, List.mem_filter]

theorem dlqOrdered_sorted :
    (db.dlqOrdered col queue f after).Pairwise fun a b => a.key col < b.key col := by
  have hle : (db.dlqOrdered col queue f after).Pairwise fun a b => a.key col ≤ b.key col :=
    List.pairwise_insertionSort (fun a b : DlqRow => a.key col ≤ b.key col) _
  have hnodup : (db.dlqOrdered col queue f after).Nodup := by
    rw [Database.dlqOrdered, (List.perm_insertionSort _ _).nodup_iff]
    exact db.dlq.keys_nodup.of_map.filter _
  refine (hle.and hnodup).imp_of_mem ?_
  intro a b ha hb hab
  refine lt_of_le_of_ne hab.1 fun heq => hab.2 ?_
  exact key_injOn_rows (mem_dlqOrdered.mp ha).1 (mem_dlqOrdered.mp hb).1 heq

/-- A sorted list of the rows that match is the one the query goes through. -/
theorem eq_dlqOrdered {rows : List DlqRow}
    (hsorted : rows.Pairwise fun a b => a.key col < b.key col)
    (hmem : ∀ d, d ∈ rows ↔ d ∈ db.dlq.rows ∧ dlqListed col queue f after d = true) :
    rows = db.dlqOrdered col queue f after := by
  let r : DlqRow → DlqRow → Prop := fun a b => a.key col < b.key col
  have : Std.Irrefl r := ⟨fun a => lt_irrefl (a.key col)⟩
  have : Std.Antisymm r := ⟨fun a b hab hba => absurd hab hba.asymm⟩
  refine List.Pairwise.eq_of_mem_iff (r := r) hsorted dlqOrdered_sorted fun d => ?_
  rw [hmem, mem_dlqOrdered]

variable (col) in
/-- The position after which the query looks. -/
def position (after : Option (Time × TaskID)) : WithBot (Time ×ₗ ι) :=
  after.elim ⊥ fun p => WithBot.some (positionKey col p.1 p.2)

/-- The rows a listing of the queue shows. -/
def Shown (queue : String) (f : DLQFilter) (db : Database) : Set DlqRow :=
  {d | d ∈ db.dlq.rows ∧ dlqSelects queue { filter := some f } d = true}

/-- The text of the cursor at a row. -/
def cursorText (next : Option DlqRow) : String :=
  next.elim "" fun d => encodeDLQCursor d.deadLetteredAt d.id

theorem timestamptz_eq {t : Time} (h : Instant t) : timestamptz t = t := by
  unfold timestamptz
  rw [h.1, Int.sub_zero]

theorem mem_dlqOrdered_iff (hafter : ∀ p ∈ after, Instant p.1) {d : DlqRow} :
    d ∈ db.dlqOrdered col queue f after ↔
      d ∈ Shown queue f db ∧ position col after < d.key col := by
  rw [mem_dlqOrdered, dlqListed, Bool.and_eq_true, ← and_assoc]
  refine and_congr Iff.rfl ?_
  cases after with
  | none => simp [position, WithBot.bot_lt_coe]
  | some p =>
    rw [Option.all_some, decide_eq_true_eq, timestamptz_eq (hafter p rfl)]
    exact WithBot.coe_lt_coe.symm

/-- After the last row of a page the query goes through the rows that are left. -/
theorem dlqOrdered_after (hafter : ∀ p ∈ after, Instant p.1) {n : Nat} {d : DlqRow}
    (hlast : ((db.dlqOrdered col queue f after).take n).getLast? = some d)
    (hd : Instant d.deadLetteredAt) :
    db.dlqOrdered col queue f (some (d.deadLetteredAt, d.id)) =
      (db.dlqOrdered col queue f after).drop n := by
  have hnew : ∀ p ∈ some (d.deadLetteredAt, d.id), Instant p.1 := by
    rintro p ⟨rfl⟩
    exact hd
  have hmem : ∀ a, a ∈ db.dlqOrdered col queue f after ↔
      a ∈ Shown queue f db ∧ position col after < a.key col := fun a => mem_dlqOrdered_iff hafter
  have hnext : ∀ a, a ∈ db.dlqOrdered col queue f (some (d.deadLetteredAt, d.id)) ↔
      a ∈ Shown queue f db ∧ d.key col < a.key col := fun a => by
    rw [mem_dlqOrdered_iff hnew]
    exact and_congr_right' WithBot.coe_lt_coe
  have hsorted : (db.dlqOrdered col queue f after).Pairwise
      fun a b => a.key col < b.key col := dlqOrdered_sorted
  generalize db.dlqOrdered col queue f after = l at hlast hmem hsorted ⊢
  have hdl : d ∈ l.take n := List.mem_of_getLast? hlast
  have hpage := hsorted.sublist (List.take_sublist n l)
  have hsplit := hsorted
  rw [← List.take_append_drop n l] at hsplit
  obtain ⟨front, hfront⟩ := List.getLast?_eq_some_iff.mp hlast
  symm
  refine eq_dlqOrdered (hsorted.sublist (List.drop_sublist n l)) fun a => ?_
  rw [← mem_dlqOrdered, hnext]
  constructor
  · intro ha
    exact ⟨((hmem a).mp (List.mem_of_mem_drop ha)).1,
      (List.pairwise_append.mp hsplit).2.2 d hdl a ha⟩
  · rintro ⟨hshown, hlt⟩
    have hpos := ((hmem d).mp (List.mem_of_mem_take hdl)).2
    have ha : a ∈ l := (hmem a).mpr ⟨hshown, hpos.trans (WithBot.coe_lt_coe.mpr hlt)⟩
    rw [← List.take_append_drop n l] at ha
    rcases List.mem_append.mp ha with ha | ha
    · -- nothing on the page comes after its last row
      rw [hfront] at ha hpage
      rcases List.mem_append.mp ha with ha | ha
      · exact absurd hlt ((List.pairwise_append.mp hpage).2.2 a ha d (by simp)).asymm
      · rw [List.mem_singleton.mp ha] at hlt
        exact absurd hlt (lt_irrefl _)
    · exact ha

/-- The size of a page. -/
def pageSize (limit : Int) : Nat := (if limit ≤ 0 then defaultDLQPageLimit else limit).toNat

theorem pageSize_spec (limit : Int) : 0 < pageSize limit ∧
    (if limit ≤ 0 then defaultDLQPageLimit else limit) = pageSize limit := by
  unfold pageSize defaultDLQPageLimit
  split
  · exact ⟨by decide, rfl⟩
  · omega

variable {limit : Int} {m : Moment}

/-- A limit whose slice can be made is below the largest integer. -/
theorem limit_lt_of_makes (h : mem.Makes (pageSize limit + 1)) :
    limit < 2 ^ 63 - 1 := by
  have hle : pageSize limit + 1 ≤ (pageSize limit + 1) * mem.rowSize :=
    Nat.le_mul_of_pos_right _ mem.rowSize_pos
  have hmax := mem.maxAlloc_lt
  have hsize := (pageSize_spec limit).2
  unfold Memory.Makes at h
  split at hsize <;> omega

/-- With a limit below the largest integer the query returns the first of its rows, and the
cursor of the last one of them if there are more, if the slice for them can be made. -/
theorem dlqPage_eq (hlimit : limit < 2 ^ 63 - 1) :
    db.dlqPage col mem queue f after limit =
      let rows := db.dlqOrdered col queue f after
      if mem.Makes (pageSize limit + 1) then .ok (rows.take (pageSize limit), cursorText
        (if pageSize limit < rows.length then (rows.take (pageSize limit)).getLast? else none))
      else .error .noMemory := by
  obtain ⟨hpos, hsize⟩ := pageSize_spec limit
  have hbound : (pageSize limit : Int) < 2 ^ 63 - 1 := by
    rw [← hsize]
    unfold defaultDLQPageLimit
    split <;> omega
  generalize pageSize limit = n at hpos hsize hbound
  generalize hl : db.dlqOrdered col queue f after = l
  have hfetch : int64 ((n : Int) + 1) = ((n + 1 : Nat) : Int) := int64_eq (by omega)
  unfold Database.dlqPage
  simp only [hsize, hfetch, hl, Int.toNat_natCast, List.length_take, Int.ofNat_lt]
  rw [if_neg (by omega)]
  refine if_congr Iff.rfl ?_ rfl
  by_cases hmore : n < l.length
  · rw [if_pos (by omega), List.take_take, Nat.min_eq_left (by omega), if_pos hmore]
    cases (l.take n).getLast? <;> rfl
  · rw [if_neg (by omega), if_neg hmore, List.take_of_length_le (by omega),
      List.take_of_length_le (by omega)]
    rfl

/-- A cursor that stands for parameters is asked for with them. -/
theorem dlqRows_of_params {text : String} {cursor : Option (Time × List UInt8)}
    (hcursor : decodeDLQCursor text = .ok cursor) (hparams : cursorParams cursor = .ok after) :
    db.dlqRows col mem queue f text limit = db.dlqPage col mem queue f after limit := by
  have hboth : decodeDLQCursor text >>= cursorParams = .ok after := by
    rw [hcursor]
    exact hparams
  rw [Database.dlqRows, hboth]

theorem dlqList_of_params {later : TaskID → Database} {text : String}
    {cursor : Option (Time × List UInt8)} (hcursor : decodeDLQCursor text = .ok cursor)
    (hparams : cursorParams cursor = .ok after) :
    db.dlqList col mem later queue f text limit =
      (db.dlqPage col mem queue f after limit).map fun p =>
        (p.1.map fun d => envelopeFromRows d.row
          (if f.includeAttempts then (later d.id).loadAttempts d.id else []), p.2) := by
  rw [Database.dlqList, dlqRows_of_params hcursor hparams]
  cases db.dlqPage col mem queue f after limit <;> rfl

/-- A page has no cursor exactly if nothing is left. -/
theorem cursorText_eq_empty_iff {n : Nat} (hpos : 0 < n) {rows : List DlqRow} :
    cursorText (if n < rows.length then (rows.take n).getLast? else none) = "" ↔
      rows.length ≤ n := by
  by_cases hmore : n < rows.length
  · have hne : rows.take n ≠ [] := by
      intro hnil
      have hlen := congrArg List.length hnil
      rw [List.length_take, List.length_nil] at hlen
      omega
    rw [if_pos hmore, List.getLast?_eq_some_getLast hne]
    exact iff_of_false (encodeDLQCursor_ne_empty _ _) (not_le.mpr hmore)
  · rw [if_neg hmore]
    exact iff_of_true rfl (not_lt.mp hmore)

/-- A query whose slice can be made returns a page of the shown rows. -/
theorem isPage_dlqPage (hafter : ∀ p ∈ after, Instant p.1)
    (hmakes : mem.Makes (pageSize limit + 1)) :
    ∃ page next, db.dlqPage col mem queue f after limit = .ok (page, cursorText next) ∧
      IsPage (DlqRow.key col) (Shown queue f db) (position col after) page
        (next.map (DlqRow.key col)) ∧
      ∀ d ∈ next, d ∈ db.dlq.rows := by
  have heq : db.dlqPage col mem queue f after limit = _ :=
    (dlqPage_eq (limit_lt_of_makes hmakes)).trans (if_pos hmakes)
  have hpos := (pageSize_spec limit).1
  generalize pageSize limit = n at heq hpos
  generalize hl : db.dlqOrdered col queue f after = l at heq
  have hsorted : l.Pairwise fun a b => a.key col < b.key col := hl ▸ dlqOrdered_sorted
  have hmem : ∀ d, d ∈ l ↔ d ∈ Shown queue f db ∧ position col after < d.key col :=
    fun d => hl ▸ mem_dlqOrdered_iff hafter
  refine ⟨l.take n, if n < l.length then (l.take n).getLast? else none, heq, ?_, ?_⟩
  · have hpage := isPage_take hsorted hmem hpos
    split at hpage
    · rename_i hmore
      rw [if_pos hmore]
      exact hpage
    · rename_i hmore
      rw [if_neg hmore]
      exact hpage
  · intro d hd
    split at hd
    · exact ((hmem d).mp (List.mem_of_mem_take (List.mem_of_getLast? hd))).1.1
    · cases hd

/-! ## Walks -/

/-- A round of a walk: the page size asked for, the states the attempts are read in, and
the transactions that commit before the next page. -/
structure Round where
  limit : Int
  later : TaskID → Database
  txs : List Transaction

/-- The moment of a page call: the state its query sees, and its arguments. -/
structure Moment where
  db : Database
  limit : Int
  later : TaskID → Database

def moments (db : Database) : List Round → List Moment
  | [] => []
  | r :: rs => ⟨db, r.limit, r.later⟩ :: moments (db.after r.txs) rs

variable (col) (mem) (queue) (f)

def Moment.call (m : Moment) (cursor : String) : Except ListFault (List Envelope × String) :=
  m.db.dlqList col mem m.later queue f cursor m.limit

/-- The page calls of a walk from the first page on, with their cursors. -/
def visits (db : Database) (rounds : List Round) : List (Moment × String) :=
  follow (Moment.call col mem queue f) "" (moments db rounds)

/-- The walk reached its last page. -/
def Ended (db : Database) (rounds : List Round) : Prop :=
  Finished (Moment.call col mem queue f) (visits col mem queue f db rounds)

/-- The rows a page lists. -/
def rowsOf (m : Moment) (cursor : String) : List DlqRow :=
  match m.db.dlqRows col mem queue f cursor m.limit with
  | .ok (page, _) => page
  | .error _ => []

def rowsListed (db : Database) (rounds : List Round) : List DlqRow :=
  (visits col mem queue f db rounds).flatMap fun v => rowsOf col mem queue f v.1 v.2

/-- A cursor denotes the position it was made from. -/
def Denotes (cursor : String) (pos : WithBot (Time ×ₗ ι)) : Prop :=
  ∃ after : Option (Time × TaskID), (∀ p ∈ after, Instant p.1) ∧
    decodeDLQCursor cursor = .ok (after.map fun p => (p.1, bytesOf p.2)) ∧
    pos = position col after

variable {col} {mem} {queue} {f}

theorem cursorParams_bytesOf (after : Option (Time × TaskID)) :
    cursorParams (after.map fun p => (p.1, bytesOf p.2)) = .ok after := by
  cases after with
  | none => rfl
  | some p => simp [cursorParams]

/-- The rows of a moment that are instants, and a limit below the largest integer. -/
structure Moment.Sound (m : Moment) : Prop where
  instants : ∀ d ∈ m.db.dlq.rows, Instant d.deadLetteredAt
  limit : m.limit < 2 ^ 63 - 1

variable (mem) in
/-- The slice of the page can be made. -/
def Moment.made (m : Moment) : Bool := decide (mem.Makes (pageSize m.limit + 1))

/-- The envelopes of a page are those of its rows. -/
theorem call_of_rows {cursor next : String} {page : List DlqRow}
    (h : m.db.dlqRows col mem queue f cursor m.limit = .ok (page, next)) :
    m.call col mem queue f cursor = .ok (page.map fun d => envelopeFromRows d.row
      (if f.includeAttempts then (m.later d.id).loadAttempts d.id else []), next) := by
  rw [Moment.call, Database.dlqList, h]
  rfl

/-- A page call at a cursor with a meaning returns a page, if its slice can be made. -/
theorem dlqRows_of_denotes (hmade : m.made mem = true) {cursor : String}
    {after : Option (Time × TaskID)} (hafter : ∀ p ∈ after, Instant p.1)
    (hdec : decodeDLQCursor cursor = .ok (after.map fun p => (p.1, bytesOf p.2))) :
    ∃ page next, m.db.dlqRows col mem queue f cursor m.limit = .ok (page, cursorText next) ∧
      IsPage (DlqRow.key col) (Shown queue f m.db) (position col after) page
        (next.map (DlqRow.key col)) ∧
      ∀ d ∈ next, d ∈ m.db.dlq.rows := by
  obtain ⟨page, next, hpage, his, hrow⟩ :=
    @isPage_dlqPage ι _ col mem m.db queue f after m.limit hafter (of_decide_eq_true hmade)
  refine ⟨page, next, ?_, his, hrow⟩
  rw [dlqRows_of_params hdec (cursorParams_bytesOf after)]
  exact hpage

/-- A page call at a cursor with a meaning ends without a page, if its slice cannot be made. -/
theorem dlqRows_noMemory (hm : m.Sound) (hmade : m.made mem = false) {cursor : String}
    {pos : WithBot (Time ×ₗ ι)} (hc : Denotes col cursor pos) :
    m.db.dlqRows col mem queue f cursor m.limit = .error .noMemory := by
  obtain ⟨after, -, hdec, -⟩ := hc
  rw [dlqRows_of_params hdec (cursorParams_bytesOf after), dlqPage_eq hm.limit]
  exact if_neg (of_decide_eq_false hmade)

theorem call_noMemory {cursor : String}
    (h : m.db.dlqRows col mem queue f cursor m.limit = .error .noMemory) :
    m.call col mem queue f cursor = .error .noMemory := by
  rw [Moment.call, Database.dlqList, h]
  rfl

theorem moment_serves (hm : m.Sound) (hmade : m.made mem = true) :
    Serves (DlqRow.key col) (Moment.call col mem queue f) (fun m => Shown queue f m.db)
      (rowsOf col mem queue f) (Denotes col) m := by
  rintro cursor pos ⟨after, hafter, hdec, rfl⟩
  obtain ⟨page, next, hrows, his, hrow⟩ :=
    @dlqRows_of_denotes ι _ col mem queue f m hmade cursor after hafter hdec
  refine ⟨_, cursorText next, next.map (DlqRow.key col), call_of_rows hrows, ?_, ?_, ?_⟩
  · simp only [rowsOf, hrows]
    exact his
  · cases next with
    | none => simp [cursorText]
    | some d => simp [cursorText, encodeDLQCursor_ne_empty]
  · intro k hk
    obtain ⟨d, rfl, rfl⟩ := Option.map_eq_some_iff.mp hk
    have hd := hm.instants d (hrow d rfl)
    refine ⟨some (d.deadLetteredAt, d.id), ?_, decodeDLQCursor_encodeDLQCursor hd.2 d.id, rfl⟩
    rintro p ⟨⟩
    exact hd

/-! ### The states of a walk -/

/-- The clock of a transaction that dead-letters shows an instant. -/
def Transaction.Timely (x : Transaction) : Prop :=
  ∀ id token att now, x.1 = .deadLetter id token att now → Instant now

theorem instants_perform {x : Transaction} (hx : x.Timely)
    (hdb : ∀ d ∈ db.dlq.rows, Instant d.deadLetteredAt) :
    ∀ d ∈ (db.perform x).1.dlq.rows, Instant d.deadLetteredAt := by
  intro d hd
  have hch := step_change db x.2 d.id x.1
  have hnew : ((step db x.2 x.1).1.view d.id).dlq = some d := KeyedTable.find?_key_of_mem hd
  have hold : ∀ d₀, (db.view d.id).dlq = some d₀ → Instant d₀.deadLetteredAt :=
    fun d₀ h => hdb d₀ (KeyedTable.mem_of_find? h)
  generalize (step db x.2 x.1).1.view d.id = v' at hch hnew
  generalize db.view d.id = v at hch hold
  cases hch with
  | keep | claim | extend | reschedule | complete | sweep => exact hold d hnew
  | deadLetter r atts token att now hop =>
    cases hnew
    exact hx _ _ _ _ hop
  | admitted | redrive | purge => cases hnew

theorem instants_after {xs : List Transaction} (hxs : ∀ x ∈ xs, x.Timely)
    (hdb : ∀ d ∈ db.dlq.rows, Instant d.deadLetteredAt) :
    ∀ d ∈ (db.after xs).dlq.rows, Instant d.deadLetteredAt :=
  run_invariant (P := fun db => ∀ d ∈ db.dlq.rows, Instant d.deadLetteredAt) hdb
    (fun _ _ h hx => instants_perform hx h) (allSteps_of_forall hxs db)

/-- The assumptions on a round: a limit below the largest integer, and timely transactions. -/
def Round.Sound (r : Round) : Prop := r.limit < 2 ^ 63 - 1 ∧ ∀ x ∈ r.txs, x.Timely

theorem sound_of_mem_moments {rounds : List Round}
    (hdb : ∀ d ∈ db.dlq.rows, Instant d.deadLetteredAt) (hrounds : ∀ r ∈ rounds, r.Sound) :
    ∀ m ∈ moments db rounds, m.Sound := by
  induction rounds generalizing db with
  | nil =>
    intro m hm
    cases hm
  | cons r rs ih =>
    have hr := hrounds r List.mem_cons_self
    intro m hm
    rcases List.mem_cons.mp hm with rfl | hm
    · exact ⟨hdb, hr.1⟩
    · exact ih (instants_after hr.2 hdb)
        (fun r' hr' => hrounds r' (List.mem_cons_of_mem r hr')) m hm

/-- The pages of a walk are those of the moments before the first one whose slice cannot be
made, and the walk ends there without a page. -/
theorem visits_made {rounds : List Round} (hdb : ∀ d ∈ db.dlq.rows, Instant d.deadLetteredAt)
    (hrounds : ∀ r ∈ rounds, r.Sound) :
    ∃ ms : List Moment,
      (∀ m ∈ ms, m.made mem = true ∧ Serves (DlqRow.key col) (Moment.call col mem queue f)
        (fun m => Shown queue f m.db) (rowsOf col mem queue f) (Denotes col) m) ∧
      (visits col mem queue f db rounds = follow (Moment.call col mem queue f) "" ms ∨
        ∃ m c, m.made mem = false ∧
          m.db.dlqRows col mem queue f c m.limit = .error .noMemory ∧
          visits col mem queue f db rounds =
            follow (Moment.call col mem queue f) "" ms ++ [(m, c)]) := by
  have hsound := sound_of_mem_moments hdb hrounds
  have hstart : Denotes col "" ⊥ := ⟨none, by simp, rfl, rfl⟩
  refine ⟨(moments db rounds).takeWhile (Moment.made mem), ?_, ?_⟩
  · intro m hm
    have hmade := List.mem_takeWhile_imp hm
    exact ⟨hmade, moment_serves (hsound m ((List.takeWhile_prefix _).mem hm)) hmade⟩
  · rcases follow_takeWhile
      (fun m hm (hmade : m.made mem = true) =>
        @moment_serves ι _ col mem queue f m (hsound m hm) hmade)
      (fun m hm hmade c pos hc =>
        ⟨_, call_noMemory (dlqRows_noMemory (hsound m hm) hmade hc)⟩) hstart with heq | hcut
    · exact .inl heq
    · obtain ⟨m, hm, hmade, c, pos, hc, heq⟩ := hcut
      exact .inr ⟨m, c, hmade, dlqRows_noMemory (hsound m hm) hmade hc, heq⟩

/-- A page call of a client whose slices can be made returns its rows. -/
theorem call_of_mem_follow {ms : List Moment}
    (hms : ∀ m ∈ ms, m.made mem = true ∧ Serves (DlqRow.key col) (Moment.call col mem queue f)
      (fun m => Shown queue f m.db) (rowsOf col mem queue f) (Denotes col) m)
    {v : Moment × String} (hv : v ∈ follow (Moment.call col mem queue f) "" ms) :
    v.1.made mem = true ∧ ∃ page, v.1.call col mem queue f v.2 = .ok page ∧
      page.1.map Envelope.id = (rowsOf col mem queue f v.1 v.2).map DlqRow.id := by
  have hstart : Denotes col "" ⊥ := ⟨none, by simp, rfl, rfl⟩
  obtain ⟨pos, after, hafter, hdec, -⟩ :=
    denotes_of_mem_follow (fun m hm => (hms m hm).2) hstart hv
  have hmade := (hms v.1 (mem_of_mem_follow hv)).1
  obtain ⟨page, next, hrows, -⟩ :=
    @dlqRows_of_denotes ι _ col mem queue f v.1 hmade v.2 after hafter hdec
  refine ⟨hmade, _, call_of_rows hrows, ?_⟩
  rw [rowsOf, hrows, List.map_map]
  rfl

end Page

/-- Paging through the dead letters is stable. Let the rows and the clocks show instants,
and the limits be below the largest integer. Whatever transactions commit between the
pages of a walk: a page call returns its page if the slice for it can be made and ends
without one otherwise, and the listed keys strictly increase, so no row is listed twice. If
the walk reaches its last page, a row of the queue that matches the filter and is seen by
every page query is listed once. -/
theorem dlq_paging_stable {ι : Type*} [LinearOrder ι] (col : Collation ι) (mem : Memory)
    (db : Database) (queue : String) (f : DLQFilter) (rounds : List Round)
    (hdb : ∀ d ∈ db.dlq.rows, Instant d.deadLetteredAt) (hrounds : ∀ r ∈ rounds, r.Sound) :
    (∀ v ∈ visits col mem queue f db rounds,
      (mem.Makes (pageSize v.1.limit + 1) → ∃ page, v.1.call col mem queue f v.2 = .ok page ∧
        page.1.map Envelope.id = (rowsOf col mem queue f v.1 v.2).map DlqRow.id) ∧
      (¬ mem.Makes (pageSize v.1.limit + 1) →
        v.1.call col mem queue f v.2 = .error .noMemory)) ∧
    (rowsListed col mem queue f db rounds).Pairwise (fun a b => a.key col < b.key col) ∧
    (Ended col mem queue f db rounds → ∀ d,
      (∀ v ∈ visits col mem queue f db rounds, d ∈ Shown queue f v.1.db) →
        (rowsListed col mem queue f db rounds).count d = 1) := by
  obtain ⟨ms, hms, hvisits⟩ := @visits_made ι _ col mem db queue f rounds hdb hrounds
  have hstart : Denotes col "" ⊥ := ⟨none, by simp, rfl, rfl⟩
  have hserves := fun m hm => (hms m hm).2
  have hrows : rowsListed col mem queue f db rounds =
      (follow (Moment.call col mem queue f) "" ms).flatMap
        fun v => rowsOf col mem queue f v.1 v.2 := by
    rcases hvisits with heq | ⟨m, c, -, hfail, heq⟩
    · rw [rowsListed, heq]
    · rw [rowsListed, heq]
      simp [rowsOf, hfail]
  refine ⟨?_, ?_, ?_⟩
  · intro v hv
    have hcases : v ∈ follow (Moment.call col mem queue f) "" ms ∨
        v.1.made mem = false ∧ v.1.call col mem queue f v.2 = .error .noMemory := by
      rcases hvisits with heq | ⟨m, c, hmade, hfail, heq⟩
      · exact .inl (heq ▸ hv)
      · rw [heq, List.mem_append, List.mem_singleton] at hv
        refine hv.imp_right ?_
        rintro rfl
        exact ⟨hmade, call_noMemory hfail⟩
    rcases hcases with hgot | ⟨hmade, hfail⟩
    · obtain ⟨hmade, hpage⟩ := call_of_mem_follow hms hgot
      exact ⟨fun _ => hpage, fun hno => absurd (of_decide_eq_true hmade) hno⟩
    · exact ⟨fun hyes => absurd hyes (of_decide_eq_false hmade), fun _ => hfail⟩
  · rw [hrows]
    by_cases hne : ms = []
    · rw [hne]
      exact List.Pairwise.nil
    · obtain ⟨next, hwalk, -⟩ := walk_follow hne hserves hstart
      rw [← listing_pages (fun m => Shown queue f m.db) (rowsOf col mem queue f)]
      exact hwalk.sorted
  · intro hend d hd
    -- the last call returned a page, so no slice was missing
    have hall : visits col mem queue f db rounds =
        follow (Moment.call col mem queue f) "" ms := by
      rcases hvisits with heq | ⟨m, c, -, hfail, heq⟩
      · exact heq
      · obtain ⟨p, out, hp, hcall⟩ := hend
        rw [heq, List.getLast?_append, List.getLast?_singleton] at hp
        cases hp
        rw [call_noMemory hfail] at hcall
        cases hcall
    have hne : ms ≠ [] := by
      rintro rfl
      obtain ⟨p, out, hp, -⟩ := hend
      rw [hall] at hp
      cases hp
    obtain ⟨next, hwalk, hiff⟩ := walk_follow hne hserves hstart
    rw [hiff.mp (hall ▸ hend)] at hwalk
    have hmem := hwalk.mem_listing_of_forall (WithBot.bot_lt_coe (d.key col)) (by
      intro p hp
      obtain ⟨v, hv, rfl⟩ := List.mem_map.mp hp
      exact hd v (hall ▸ hv))
    have hnodup := hwalk.sorted.imp fun h => ne_of_apply_ne _ (ne_of_lt h)
    rw [listing_pages] at hmem hnodup
    rw [hrows]
    exact List.count_eq_one_of_mem hnodup hmem

/-- The collation that compares ids by their code points. -/
def codePoints : Collation String := ⟨id, Function.injective_id⟩

/-- A process that can get a block of a megabyte. -/
def megabyte : Memory := ⟨256, 2 ^ 20, by decide, by decide⟩

def failedAttempt : Attempt where
  attemptNo := 1
  startedAt := 0
  finishedAt := some 1
  outcome := .permanentFailure

/-- Three tasks are claimed, and two of them die at Unix time zero. -/
def twoDead : Database :=
  let ch : Choice := ⟨["a", "b", "c"], id⟩
  Database.new.after [(.enqueue (.submitted "a" "q" "h" 0), ch),
    (.enqueue (.submitted "b" "q" "h" 0), ch), (.enqueue (.submitted "c" "q" "h" 0), ch),
    (.claimDue "q" 3 10 0, ch), (.deadLetter "a" "a" failedAttempt unixEpoch, ch),
    (.deadLetter "b" "b" failedAttempt unixEpoch, ch)]

/-- Pages of one row; after the first one its row is redriven, and a third task dies in a
transaction that began before the others died. -/
def twoPages : List Round :=
  let ch : Choice := ⟨[], id⟩
  [⟨1, fun _ => twoDead, [(.redrive "q" { ids := ["a"] } 0, ch),
      (.deadLetter "c" "c" failedAttempt (unixEpoch - 1000), ch)]⟩,
    ⟨1, fun _ => twoDead, []⟩]

/-- The row of the second task. -/
def secondRow : DlqRow :=
  ((taskRowFromEnvelope (.submitted "b" "q" "h" 0)).claim 0 10 "b").deadLetter unixEpoch none

/-- The walk lists the row that stays once, although the cursor it follows stands at a row that
has left and a row has come in before it. -/
theorem dlq_paging_stable_twoPages :
    (rowsListed codePoints megabyte "q" {} twoDead twoPages).map DlqRow.id = ["a", "b"] ∧
      (rowsListed codePoints megabyte "q" {} twoDead twoPages).count secondRow = 1 := by
  have hdb : ∀ d ∈ twoDead.dlq.rows, Instant d.deadLetteredAt := by
    have hnow : ∀ d ∈ twoDead.dlq.rows, d.deadLetteredAt = unixEpoch := by decide +kernel
    intro d hd
    rw [hnow d hd]
    exact ⟨by decide, by decide, by decide⟩
  have hrounds : ∀ r ∈ twoPages, r.Sound := by
    refine List.forall_mem_cons.mpr ⟨⟨by decide, List.forall_mem_cons.mpr ⟨?_,
      List.forall_mem_singleton.mpr ?_⟩⟩, List.forall_mem_singleton.mpr ⟨by decide, by simp⟩⟩
    · intro id token att now hop
      cases hop
    · intro id token att now hop
      cases hop
      exact ⟨by decide, by decide, by decide⟩
  refine ⟨by decide +kernel, ?_⟩
  refine (dlq_paging_stable codePoints megabyte twoDead "q" {} _ hdb hrounds).2.2
    ⟨_, _, rfl, rfl⟩ secondRow ?_
  intro v hv
  have hseen : ∀ v ∈ visits codePoints megabyte "q" {} twoDead twoPages,
      secondRow ∈ v.1.db.dlq.rows := by decide +kernel
  exact ⟨hseen v hv, by decide⟩

end Rdq.Postgres
