import Rdq.Foundation.Base64
import Rdq.Foundation.Strconv
import Rdq.MemStore.Transition

/-!
# Listing the dead letters of the memstore

`Store.DLQList` and the loop of the server that reads all its pages,
`collectByFilter`. The dead letters are listed in the order of their sequence
numbers, and a page starts past the number its cursor carries.

The loop is given as many rounds as there are records; every page but the last moves
the cursor past a record, so they suffice. The dead-letter counter is unbounded, so
`ParseUint` has no range to check.
-/

namespace Rdq.MemStore

open Rdq.Foundation

def defaultPageLimit : Nat := 100

/-- The size of a page; zero and negative limits stand for the default. -/
def pageLimit (limit : Int) : Nat := if limit ≤ 0 then defaultPageLimit else limit.toNat

namespace Store
variable (s : Store) (queue : String) (f : DLQFilter)

/-- The dead letters past a cursor that match a filter, in order. -/
def listed (after : Nat) : List Record :=
  (s.tasks.rows.filter fun r => decide (r.env.queue = queue) && decide (r.env.status = .dead) &&
    decide (after < r.dlqSeq) && matchFilter r f).insertionSort fun a b => a.dlqSeq ≤ b.dlqSeq

/-- `DLQList`: the envelopes of a page, and the cursor of the next one if there is one. -/
def dlqList (after : Option Nat) (limit : Int) : List Envelope × Option Nat :=
  let matched := s.listed queue f (after.getD 0)
  let page := matched.take (pageLimit limit)
  let next :=
    if pageLimit limit < matched.length then page.getLast?.map Record.dlqSeq else none
  (page.map fun r => if f.includeAttempts then r.env else { r.env with attempts := [] }, next)

variable {s queue f}

theorem mem_listed {after : Nat} {r : Record} :
    r ∈ s.listed queue f after ↔
      r ∈ s.tasks.rows ∧ r.env.queue = queue ∧ r.env.status = .dead ∧ after < r.dlqSeq ∧
        matchFilter r f = true := by
  simp [listed, List.mem_insertionSort, and_assoc]

theorem ids_dlqList (after : Option Nat) (limit : Int) :
    (s.dlqList queue f after limit).1.map Envelope.id =
      ((s.listed queue f (after.getD 0)).take (pageLimit limit)).map Record.id := by
  simp only [dlqList, List.map_map]
  apply List.map_congr_left
  intro r _
  simp only [Function.comp_apply]
  split <;> rfl

/-- The cursor of a next page is past the cursor of this one, at a record. -/
theorem next_of_dlqList {after : Option Nat} {limit : Int} {next : Nat}
    (h : (s.dlqList queue f after limit).2 = some next) :
    ∃ r ∈ s.tasks.rows, after.getD 0 < r.dlqSeq ∧ r.dlqSeq = next := by
  dsimp only [dlqList] at h
  split at h
  · obtain ⟨r, hr, rfl⟩ := Option.map_eq_some_iff.mp h
    obtain ⟨hrow, -, -, hafter, -⟩ :=
      mem_listed.mp (List.mem_of_mem_take (List.mem_of_getLast? hr))
    exact ⟨r, hrow, hafter, rfl⟩
  · cases h

/-- How many records there are past a cursor. -/
def remaining (s : Store) (after : Nat) : Nat :=
  s.tasks.rows.countP fun r => decide (after < r.dlqSeq)

/-- Moving a cursor onto a record past it leaves fewer records. -/
theorem remaining_lt {after : Nat} {r : Record} (hr : r ∈ s.tasks.rows)
    (hlt : after < r.dlqSeq) : s.remaining r.dlqSeq < s.remaining after := by
  -- the records past the old cursor are those past the new one, and those up to it, `r` among them
  have hpast : (s.tasks.rows.filter fun x => decide (r.dlqSeq < x.dlqSeq)).countP
      (fun x => decide (after < x.dlqSeq)) = s.remaining r.dlqSeq := by
    rw [remaining, List.countP_filter]
    apply List.countP_congr
    intro x _
    simp only [Bool.and_eq_true, decide_eq_true_eq]
    omega
  have hupTo : 0 < (s.tasks.rows.filter fun x => !decide (r.dlqSeq < x.dlqSeq)).countP
      (fun x => decide (after < x.dlqSeq)) :=
    List.countP_pos_iff.mpr ⟨r, by simp [hr], by simpa using hlt⟩
  have hsplit := List.countP_eq_countP_filter_add s.tasks.rows
    (fun x => decide (after < x.dlqSeq)) fun x => decide (r.dlqSeq < x.dlqSeq)
  change s.remaining after = _ at hsplit
  omega

end Store

/-! ## The cursor -/

def cursorPrefix : List Char := ['m', 'c', '1', ':']

def encodeCursor (seq : Nat) : String :=
  String.ofList (Base64.encode Base64.rawURLEncoding (asciiBytes (cursorPrefix ++ formatNat seq)))

/-- The number a cursor stands for. The empty cursor starts from the beginning. -/
def decodeCursor (c : String) : Except StorageError Nat :=
  if c = "" then .ok 0
  else
    match Base64.decode Base64.rawURLEncoding c.toList with
    | none => .error .staleCursor
    | some raw =>
      match (cutFront cursorPrefix (byteChars raw)).bind parseNat with
      | none => .error .staleCursor
      | some n => .ok n

theorem decodeCursor_empty : decodeCursor "" = .ok 0 := rfl

theorem byteChars_cursor (seq : Nat) :
    byteChars (asciiBytes (cursorPrefix ++ formatNat seq)) = cursorPrefix ++ formatNat seq := by
  have hfront : ∀ c ∈ cursorPrefix, c.toNat < 256 := by simp [cursorPrefix]
  apply byteChars_asciiBytes
  intro c hc
  rcases List.mem_append.mp hc with hc | hc
  · exact hfront c hc
  · exact toNat_lt_of_isDigit (isDigit_of_mem_formatNat hc)

theorem encodeCursor_ne_empty (seq : Nat) : encodeCursor seq ≠ "" := by
  intro h
  have hnil : Base64.encode Base64.rawURLEncoding (asciiBytes (cursorPrefix ++ formatNat seq)) =
      [] := by
    simpa [encodeCursor] using congrArg String.toList h
  refine Base64.encode_ne_nil _ ?_ hnil
  simp [asciiBytes, cursorPrefix]

/-- A cursor stands for the number it was made from. -/
@[simp] theorem decodeCursor_encodeCursor (seq : Nat) :
    decodeCursor (encodeCursor seq) = .ok seq := by
  rw [decodeCursor, if_neg (encodeCursor_ne_empty seq), encodeCursor, String.toList_ofList,
    Base64.decode_encode]
  simp only [byteChars_cursor, cutFront_append, Option.bind_some, parseNat_formatNat]

/-- The text of a cursor, empty on the last page. -/
def cursorText : Option Nat → String
  | none => ""
  | some seq => encodeCursor seq

/-- `DLQList` with its cursor texts. -/
def Store.dlqListPage (s : Store) (queue : String) (f : DLQFilter) (after : String)
    (limit : Int) : Except StorageError (List Envelope × String) :=
  match decodeCursor after with
  | .error e => .error e
  | .ok n =>
    let page := s.dlqList queue f (some n) limit
    .ok (page.1, cursorText page.2)

/-! ## All pages -/

namespace Store
variable (s : Store) (queue : String) (f : DLQFilter)

/-- The loop of `collectByFilter`; none when the rounds do not reach the last page. -/
def collectPages : Nat → String → Option (Except StorageError (List TaskID))
  | 0, _ => none
  | rounds + 1, cursor =>
    match s.dlqListPage queue f cursor 500 with
    | .error e => some (.error e)
    | .ok (tasks, next) =>
      if next = "" then some (.ok (tasks.map Envelope.id))
      else (collectPages rounds next).map (Except.map (tasks.map Envelope.id ++ ·))

/-- `collectByFilter`: the ids of all pages. -/
def collectByFilter : List TaskID :=
  ((s.collectPages queue f (s.tasks.rows.length + 1) "").bind Except.toOption).getD []

variable {s queue f}

end Store

end Rdq.MemStore
