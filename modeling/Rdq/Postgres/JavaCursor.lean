import Rdq.Postgres.DlqList

/-!
# DLQ cursors across languages

`DlqCursor.java` reads and writes the cursor of `storage/postgres/dlq.go`: the tag, the
instant in nanoseconds of Unix time, a colon and the id, in base64url.

## Implementation notes

Both sides share the base64url coding. What Java makes of malformed UTF-8 and of digits
beyond ASCII are parameters. Times are compared as instants: a Java instant is a second of
Unix time and the nanoseconds into it.
-/

namespace Rdq.Postgres

open Foundation

structure JavaInstant where
  epochSecond : Int64
  nano : Nat
  nano_lt : nano < 1000000000

/-- The instant as a time. -/
def JavaInstant.time (i : JavaInstant) : Time :=
  unixEpoch + (i.epochSecond.toInt * 1000000000 + i.nano)

/-- `Instant.ofEpochSecond` of the second and the rest of a number of nanoseconds. -/
def JavaInstant.ofNanos (nanos : Int) : JavaInstant where
  epochSecond := Int64.ofInt (nanos / 1000000000)
  nano := (nanos % 1000000000).toNat
  nano_lt := by omega

/-- `DlqCursor.encode`, whose arithmetic wraps around in 64 bits. -/
def javaEncode (deadLetteredAt : JavaInstant) (id : TaskID) : String :=
  let nanos : Int64 :=
    deadLetteredAt.epochSecond * 1000000000 + Int64.ofNat deadLetteredAt.nano
  let raw := String.ofList (dlqCursorPrefix ++ (formatInt nanos.toInt ++ [':'])) ++ id
  String.ofList (Base64.encode Base64.rawURLEncoding (bytesOf raw))

variable (malformed : List UInt8 → String) (otherDigit : Char → Option Nat)

/-- `new String(bytes, UTF_8)`. -/
def newString (bytes : List UInt8) : String := (ofBytes? bytes).getD (malformed bytes)

/-- `Character.digit` in base 10. -/
def characterDigit (c : Char) : Option Nat :=
  if c.toNat < 128 then if c.isDigit then some (c.toNat - '0'.toNat) else none
  else otherDigit c

/-- The digits of `Long.parseLong`: one at least. -/
def parseDigits (text : List Char) : Option Nat :=
  if text = [] then none
  else (text.mapM (characterDigit otherDigit)).map fun digits =>
    digits.foldl (fun sofar d => 10 * sofar + d) 0

/-- `Long.parseLong`. -/
def parseLong (text : List Char) : Option Int64 :=
  let value : Option Int :=
    match text with
    | '-' :: digits => (parseDigits otherDigit digits).map fun n => -(n : Int)
    | '+' :: digits => (parseDigits otherDigit digits).map fun n => (n : Int)
    | digits => (parseDigits otherDigit digits).map fun n => (n : Int)
  value.bind inInt64

/-- `DlqCursor.decode`; a stale cursor is a `StaleCursorException`. -/
def javaDecode (cursor : String) : Except ListError (Option (JavaInstant × String)) :=
  if cursor = "" then .ok none
  else
    match Base64.decode Base64.rawURLEncoding cursor.toList with
    | none => .error .staleCursor
    | some rawBytes =>
      match cutFront dlqCursorPrefix (newString malformed rawBytes).toList with
      | none => .error .staleCursor
      | some rest =>
        let sep := rest.idxOf ':'
        if ':' ∈ rest then
          match parseLong otherDigit (rest.take sep) with
          | none => .error .staleCursor
          | some nanos =>
            .ok (some (JavaInstant.ofNanos nanos.toInt,
              String.ofList (rest.drop (sep + 1))))
        else .error .staleCursor

/-! ## Instants -/

/-- The Unix time of an instant in nanoseconds fits 64 bits. -/
def FitsNanos (t : Time) : Prop := -2 ^ 63 ≤ t - unixEpoch ∧ t - unixEpoch < 2 ^ 63

theorem JavaInstant.time_ofNanos {nanos : Int} (h : -2 ^ 63 ≤ nanos ∧ nanos < 2 ^ 63) :
    (JavaInstant.ofNanos nanos).time = unixEpoch + nanos := by
  have hsecond : (Int64.ofInt (nanos / 1000000000)).toInt = nanos / 1000000000 := by
    rw [Int64.toInt_ofInt]
    apply Int.bmod_eq_of_le <;> simp only [Int64.size] <;> omega
  have hnano : (((nanos % 1000000000).toNat : Nat) : Int) = nanos % 1000000000 := by omega
  simp only [JavaInstant.time, JavaInstant.ofNanos, hsecond, hnano]
  have hdiv := Int.ediv_mul_add_emod nanos 1000000000
  rw [hdiv]

/-- The sum of `encode` is right even where its product wraps around. -/
theorem toInt_nanos {i : JavaInstant} (h : FitsNanos i.time) :
    (i.epochSecond * 1000000000 + Int64.ofNat i.nano).toInt = i.time - unixEpoch := by
  have hsum : i.time - unixEpoch = i.epochSecond.toInt * 1000000000 + i.nano := by
    rw [JavaInstant.time]
    exact add_sub_cancel_left unixEpoch _
  rw [FitsNanos, hsum] at h
  have hbillion : (1000000000 : Int64).toInt = 1000000000 := rfl
  rw [hsum, Int64.toInt_add, Int64.toInt_mul, Int64.toInt_ofNat', hbillion, Int.bmod_add_bmod]
  have hsize : Int64.size = 2 ^ 64 := rfl
  rw [hsize, Int.add_bmod_bmod]
  exact int64_eq h

/-! ## Numbers -/

section Numbers
variable {otherDigit}

theorem mapM_characterDigit {text : List Char} (h : ∀ c ∈ text, c.toNat < 128) :
    text.mapM (characterDigit otherDigit) =
      if text.all Char.isDigit then some (text.map fun c => c.toNat - '0'.toNat) else none := by
  induction text with
  | nil => rfl
  | cons c text ih =>
    have htail := ih fun d hd => h d (List.mem_cons_of_mem c hd)
    have hc : c.toNat < 128 := h c List.mem_cons_self
    rw [List.mapM_cons, htail, characterDigit, if_pos hc]
    cases hdigit : c.isDigit <;> cases hall : text.all Char.isDigit <;> simp [hdigit, hall]

theorem parseDigits_of_ascii {text : List Char} (h : ∀ c ∈ text, c.toNat < 128) :
    parseDigits otherDigit text = parseNat text := by
  rw [parseDigits, parseNat, mapM_characterDigit h]
  by_cases hnil : text = []
  · rw [if_pos hnil, if_neg fun hne => hne.1 hnil]
  · rw [if_neg hnil]
    by_cases hall : text.all Char.isDigit = true
    · rw [if_pos hall, if_pos ⟨hnil, hall⟩, Option.map_some, List.foldl_map]
      rfl
    · rw [if_neg hall, if_neg fun hne => hall hne.2]
      rfl

/-- On ASCII texts `Long.parseLong` and `ParseInt` read the same numbers. -/
theorem parseLong_of_ascii {text : List Char} (h : ∀ c ∈ text, c.toNat < 128) :
    parseLong otherDigit text = parseInt64 text := by
  have htail : ∀ {c : Char} {digits : List Char}, text = c :: digits →
      parseDigits otherDigit digits = parseNat digits := by
    intro c digits htext
    apply parseDigits_of_ascii
    intro d hd
    exact h d (htext ▸ List.mem_cons_of_mem c hd)
  let positive : Option Nat → Option Int := fun r => r.map fun n => (n : Int)
  by_cases hminus : ∃ digits, text = '-' :: digits
  · obtain ⟨digits, rfl⟩ := hminus
    exact congrArg (fun r : Option Nat => (r.map fun n => -(n : Int)).bind inInt64) (htail rfl)
  by_cases hplus : ∃ digits, text = '+' :: digits
  · obtain ⟨digits, rfl⟩ := hplus
    exact congrArg (fun r => (positive r).bind inInt64) (htail rfl)
  -- without a sign both read the whole text as digits
  have hlong : parseLong otherDigit text =
      (positive (parseDigits otherDigit text)).bind inInt64 := by
    unfold parseLong
    split
    · exact absurd ⟨_, rfl⟩ hminus
    · exact absurd ⟨_, rfl⟩ hplus
    · rfl
  have hint : parseInt64 text = (positive (parseNat text)).bind inInt64 := by
    unfold parseInt64 parseInt
    split
    · exact absurd ⟨_, rfl⟩ hminus
    · exact absurd ⟨_, rfl⟩ hplus
    · rfl
  rw [hlong, hint, parseDigits_of_ascii h]

end Numbers

/-! ## Texts -/

theorem newString_bytesOf (s : String) : newString malformed (bytesOf s) = s := by
  rw [newString, ofBytes?_bytesOf, Option.getD_some]

theorem ascii_byteChars {raw : List UInt8} (h : ∀ b ∈ raw, b.toNat < 128) :
    ∀ c ∈ byteChars raw, c.toNat < 128 := by
  intro c hc
  obtain ⟨b, hb, rfl⟩ := List.mem_map.mp hc
  rw [toNat_ofNat_of_lt b.toNat_lt]
  exact h b hb

theorem newString_of_ascii {raw : List UInt8} (h : ∀ b ∈ raw, b.toNat < 128) :
    newString malformed raw = String.ofList (byteChars raw) := by
  have hraw : raw = bytesOf (String.ofList (byteChars raw)) := by
    rw [bytesOf_ofList (ascii_byteChars h), asciiBytes_byteChars]
  calc newString malformed raw
      = newString malformed (bytesOf (String.ofList (byteChars raw))) := by rw [← hraw]
    _ = String.ofList (byteChars raw) := newString_bytesOf malformed _

/-- What Java reads in the bytes of a cursor of Go. -/
theorem newString_cursor (deadAt : Time) (id : TaskID) :
    (newString malformed (asciiBytes (cursorHead deadAt) ++ bytesOf id)).toList =
      cursorHead deadAt ++ id.toList := by
  have hbytes : asciiBytes (cursorHead deadAt) ++ bytesOf id =
      bytesOf (String.ofList (cursorHead deadAt) ++ id) := by
    rw [bytesOf_append, bytesOf_ofList (ascii_cursorHead deadAt)]
  rw [hbytes, newString_bytesOf, String.toList_append, String.toList_ofList]

/-! ## Cursors across languages -/

/-- Within 64 bits the two languages write the same cursors. -/
theorem javaEncode_eq {i : JavaInstant} (h : FitsNanos i.time) (id : TaskID) :
    javaEncode i id = encodeDLQCursor i.time id := by
  have hnano : unixNano i.time = i.time - unixEpoch := int64_eq h
  have hhead : dlqCursorPrefix ++ (formatInt (i.time - unixEpoch) ++ [':']) =
      cursorHead i.time := by rw [cursorHead, hnano]
  dsimp only [javaEncode]
  rw [toInt_nanos h, hhead, encodeDLQCursor, bytesOf_append,
    bytesOf_ofList (ascii_cursorHead i.time)]

/-- Java reads the position that Go has written. -/
theorem javaDecode_encodeDLQCursor {deadAt : Time} (h : FitsNanos deadAt) (id : TaskID) :
    javaDecode malformed otherDigit (encodeDLQCursor deadAt id) =
      .ok (some (JavaInstant.ofNanos (deadAt - unixEpoch), id)) := by
  have hnano : unixNano deadAt = deadAt - unixEpoch := int64_eq h
  rw [javaDecode, if_neg (encodeDLQCursor_ne_empty deadAt id), encodeDLQCursor,
    String.toList_ofList, Base64.decode_encode]
  have hrest : (newString malformed (asciiBytes (cursorHead deadAt) ++ bytesOf id)).toList =
      dlqCursorPrefix ++ (formatInt (unixNano deadAt) ++ ':' :: id.toList) := by
    rw [newString_cursor, cursorHead, List.append_assoc, List.append_assoc]
    rfl
  have hsep : (formatInt (unixNano deadAt) ++ ':' :: id.toList).idxOf ':' =
      (formatInt (unixNano deadAt)).length := by
    rw [List.idxOf_append_of_notMem (colon_notMem_formatInt _), List.idxOf_cons_self,
      Nat.add_zero]
  have hid : (formatInt (unixNano deadAt) ++ ':' :: id.toList).drop
      ((formatInt (unixNano deadAt)).length + 1) = id.toList := by
    rw [← List.drop_drop, List.drop_left, List.drop_one, List.tail_cons]
  have hascii : ∀ c ∈ formatInt (unixNano deadAt), c.toNat < 128 := by
    intro c hc
    apply ascii_cursorHead deadAt
    simp [cursorHead, hc]
  simp only [hrest, cutFront_append, hsep, List.mem_append, List.mem_cons, true_or, or_true,
    if_true, List.take_left, hid, parseLong_of_ascii hascii]
  obtain ⟨htoInt, hparse⟩ := parseInt64_formatInt_of_range (i := unixNano deadAt) (hnano ▸ h)
  simp only [hparse, htoInt, String.ofList_toList]
  rw [hnano]

/-- The position of a cursor that Java has read, as Go has it. -/
def javaPosition (p : JavaInstant × String) : Time × List UInt8 := (p.1.time, bytesOf p.2)

/-- The cursor over a text. -/
def cursorOf (raw : List UInt8) : String := String.ofList (Base64.encode Base64.rawURLEncoding raw)

/-- What the two decoders see after the tag. -/
theorem cutFront_of_ascii {raw : List UInt8} {rest : List Char}
    (h : cutFront dlqCursorPrefix (byteChars raw) = some rest) :
    rest = byteChars (raw.drop dlqCursorPrefix.length) := by
  rw [cutFront] at h
  split_ifs at h
  rw [← Option.some.inj h, byteChars, byteChars, List.map_drop]

/-- Over an ASCII text both decoders accept with the same position, or both refuse. -/
theorem javaDecode_of_ascii {raw : List UInt8} (h : ∀ b ∈ raw, b.toNat < 128) :
    (javaDecode malformed otherDigit (cursorOf raw)).map (Option.map javaPosition) =
      decodeDLQCursor (cursorOf raw) := by
  rw [javaDecode, decodeDLQCursor]
  by_cases hempty : cursorOf raw = ""
  · rw [if_pos hempty, if_pos hempty]
    rfl
  rw [if_neg hempty, if_neg hempty, cursorOf, String.toList_ofList, Base64.decode_encode]
  dsimp only
  rw [newString_of_ascii malformed h, String.toList_ofList]
  cases hcut : cutFront dlqCursorPrefix (byteChars raw) with
  | none => rfl
  | some rest =>
    have hrest := cutFront_of_ascii hcut
    have htail : ∀ b ∈ raw.drop dlqCursorPrefix.length, b.toNat < 128 :=
      fun b hb => h b (List.mem_of_mem_drop hb)
    have hascii : ∀ c ∈ rest, c.toNat < 128 := hrest ▸ ascii_byteChars htail
    have hid : bytesOf (String.ofList (rest.drop (rest.idxOf ':' + 1))) =
        raw.drop (dlqCursorPrefix.length + rest.idxOf ':' + 1) := by
      rw [bytesOf_ofList fun c hc => hascii c (List.mem_of_mem_drop hc), Nat.add_assoc]
      generalize rest.idxOf ':' + 1 = n
      rw [hrest, byteChars, ← List.map_drop, List.drop_drop]
      exact asciiBytes_byteChars _
    have hparse : parseLong otherDigit (rest.take (rest.idxOf ':')) =
        parseInt64 (rest.take (rest.idxOf ':')) :=
      parseLong_of_ascii fun c hc => hascii c (List.mem_of_mem_take hc)
    dsimp only
    by_cases hcolon : ':' ∈ rest
    · rw [if_pos hcolon, if_pos hcolon, hparse]
      cases hnanos : parseInt64 (rest.take (rest.idxOf ':')) with
      | none => rfl
      | some nanos =>
        simp only [Except.map, Option.map_some, javaPosition,
          JavaInstant.time_ofNanos ⟨nanos.le_toInt, nanos.toInt_lt⟩, hid]
    · rw [if_neg hcolon, if_neg hcolon]
      rfl

/-- Cursors round-trip in Go and across the two languages, and over any ASCII text the
decoders agree. -/
theorem cursors_cross_languages :
    (∀ (t : Time) (id : TaskID), FitsNanos t →
      decodeDLQCursor (encodeDLQCursor t id) = .ok (some (t, bytesOf id)) ∧
      ∃ i : JavaInstant, i.time = t ∧
        javaDecode malformed otherDigit (encodeDLQCursor t id) = .ok (some (i, id))) ∧
    (∀ (i : JavaInstant) (id : TaskID), FitsNanos i.time →
      decodeDLQCursor (javaEncode i id) = .ok (some (i.time, bytesOf id))) ∧
    ∀ raw : List UInt8, (∀ b ∈ raw, b.toNat < 128) →
      (javaDecode malformed otherDigit (cursorOf raw)).map (Option.map javaPosition) =
        decodeDLQCursor (cursorOf raw) := by
  refine ⟨?_, ?_, ?_⟩
  · intro t id h
    refine ⟨decodeDLQCursor_encodeDLQCursor h id, JavaInstant.ofNanos (t - unixEpoch), ?_,
      javaDecode_encodeDLQCursor malformed otherDigit h id⟩
    rw [JavaInstant.time_ofNanos h]
    exact add_sub_cancel unixEpoch t
  · intro i id h
    rw [javaEncode_eq h]
    exact decodeDLQCursor_encodeDLQCursor h id
  · intro raw h
    exact javaDecode_of_ascii malformed otherDigit h

end Rdq.Postgres
