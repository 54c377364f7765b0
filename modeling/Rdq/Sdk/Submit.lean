import Rdq.Core.StringMap
import Rdq.Core.Ulid
import Rdq.Engine.Registry
import Rdq.Foundation.Fallible
import Rdq.Foundation.Strconv
import Rdq.Server.Router

/-!
# Building a task

`Submit` of `sdk-go/submit/submit.go` with its options, and the name rule of
`core/envelope/validate.go`.

## Implementation notes

A key and an explicit id are byte lists, as Go strings are. Headers are checked in the
order of their keys; which of several bad headers a call reports is left to the iteration
order of a Go map. The first 128 bits of SHA-256 are a function of the message.
-/

namespace Rdq.Sdk

open Foundation
open Engine (quote)
open Server (validQueue)

/-! ## Names -/

/-- `MaxNameLen`. -/
def maxNameLen : Nat := 240

inductive NameFault
  | empty
  | tooLong
  | charset
deriving DecidableEq, Repr

/-- The error of `validateName`. -/
structure NameError where
  field : String
  name : String
  fault : NameFault
deriving DecidableEq, Repr

def NameError.print (unicodePrint : Char → Bool) (e : NameError) : String :=
  match e.fault with
  | .empty => "envelope: invalid " ++ e.field ++ ": must not be empty"
  | .tooLong => "envelope: invalid " ++ e.field ++ " " ++ quote unicodePrint e.name ++ ": " ++
      String.ofList (formatNat e.name.utf8ByteSize) ++ " bytes exceeds max " ++
      String.ofList (formatNat maxNameLen)
  | .charset => "envelope: invalid " ++ e.field ++ " " ++ quote unicodePrint e.name ++
      ": must match [a-z0-9._-]"

/-- `nameRE`. -/
def nameChar (c : Char) : Bool := c.isLower || c.isDigit || c = '.' || c = '_' || c = '-'

def validateName (field name : String) : Except NameError Unit :=
  if name = "" then .error ⟨field, name, .empty⟩
  else if maxNameLen < name.utf8ByteSize then .error ⟨field, name, .tooLong⟩
  else if name.toList.all nameChar = false then .error ⟨field, name, .charset⟩
  else .ok ()

def validateQueue (name : String) : Except NameError Unit := validateName "queue" name

def validateHandlerRef (name : String) : Except NameError Unit := validateName "handler_ref" name

theorem validateName_ok {field name : String} :
    validateName field name = .ok () ↔ validQueue name = true := by
  unfold validateName validQueue maxNameLen
  split_ifs with hempty hlong hchars
  · simp [hempty]
  · have hno : ¬ name.utf8ByteSize ≤ 240 := by omega
    simp [hno]
  · have hno : (name.toList.all fun c => c.isLower || c.isDigit || c = '.' || c = '_' || c = '-') =
        false := hchars
    simp [hno]
  · have hyes : (name.toList.all fun c => c.isLower || c.isDigit || c = '.' || c = '_' || c = '-') =
        true := Bool.of_not_eq_false hchars
    have hle : name.utf8ByteSize ≤ 240 := by omega
    simp [hempty, hle, hyes]

/-! ## Options -/

/-- `options`; a nil and an empty header map are the same. -/
structure Options where
  headers : StringMap String := StringMap.empty
  contentType : String := ""
  handlerVersion : String := ""
  idempotencyKey : List UInt8 := []
  explicitID : List UInt8 := []
  now : Option Time := none

/-- An option of a call. -/
inductive SubmitOption
  | withHeaders (h : StringMap String)
  | withHeader (key value : String)
  | withContentType (ct : String)
  | withHandlerVersion (v : String)
  | withIdempotencyKey (key : List UInt8)
  | withID (id : List UInt8)
  | withClock (now : Option Time)

def SubmitOption.apply (o : Options) : SubmitOption → Options
  | .withHeaders h => { o with headers := o.headers.insertAll h.entries }
  | .withHeader key value => { o with headers := o.headers.insert key value }
  | .withContentType ct => { o with contentType := ct }
  | .withHandlerVersion v => { o with handlerVersion := v }
  | .withIdempotencyKey key => { o with idempotencyKey := key }
  | .withID id => { o with explicitID := id }
  | .withClock now => { o with now := now }

def applyAll (opts : List SubmitOption) : Options := opts.foldl SubmitOption.apply {}

inductive SubmitError
  | name (e : NameError)
  | emptyHeader
  | reservedHeader (key : String)
  | exclusive
  | invalidID (e : ULIDError)
  | generating (text : String)
deriving DecidableEq, Repr

def reservedHeaderPrefix : String := "rdq."

/-- The text of an error; the one of `ParseULID` is taken as it is. -/
def SubmitError.print (unicodePrint : Char → Bool) (ulidText : ULIDError → String) :
    SubmitError → String
  | .name e => e.print unicodePrint
  | .emptyHeader => "submit: invalid header: key must not be empty"
  | .reservedHeader key => "submit: invalid header " ++ quote unicodePrint key ++ ": the " ++
      quote unicodePrint reservedHeaderPrefix ++ " prefix is reserved for system metadata"
  | .exclusive => "submit: WithID and WithIdempotencyKey are mutually exclusive"
  | .invalidID e => "submit: invalid id from WithID: " ++ ulidText e
  | .generating text => "submit: generating id: " ++ text

/-! ## Submit -/

/-- What `Submit` takes from the system: the clock, random bytes, and the first 128 bits
of SHA-256. -/
structure System where
  now : Time
  random : Except String (Fin 10 → UInt8)
  sha256 : List UInt8 → ULID

/-- Nanoseconds from the Unix epoch. -/
def unixNanos (t : Time) : Int := t - 62135596800000000000

/-- The message that names a pair. -/
def keyMessage (queue : String) (key : List UInt8) : List UInt8 := bytesOf queue ++ 0 :: key

def deriveID (sys : System) (queue : String) (key : List UInt8) : ULID :=
  sys.sha256 (keyMessage queue key)

/-- `ULID.String` as a text. -/
def idText (s : List UInt8) : TaskID := String.ofList (byteChars s)

def resolveID (sys : System) (o : Options) (queue : String) (ts : Time) :
    Except SubmitError TaskID :=
  if o.explicitID ≠ [] then
    match parseULID o.explicitID with
    | .error e => .error (.invalidID e)
    | .ok _ => .ok (idText o.explicitID)
  else if o.idempotencyKey ≠ [] then .ok (idText (deriveID sys queue o.idempotencyKey).string)
  else
    match newULIDAt (unixNanos ts) sys.random with
    | .error text => .error (.generating text)
    | .ok id => .ok (idText id.string)

/-- The loop over the headers. -/
def checkHeaders : List (String × String) → Except SubmitError Unit
  | [] => .ok ()
  | (key, _) :: rest =>
    if key = "" then .error .emptyHeader
    else if reservedHeaderPrefix.toList.isPrefixOf key.toList then .error (.reservedHeader key)
    else checkHeaders rest

def defaultContentType : String := "application/octet-stream"

def submit (sys : System) (queue handlerRef : String) (payload : Option (List UInt8))
    (opts : List SubmitOption) : Except SubmitError Envelope := do
  let o := applyAll opts
  (validateQueue queue).mapError .name
  (validateHandlerRef handlerRef).mapError .name
  checkHeaders o.headers.entries
  if o.explicitID ≠ [] ∧ o.idempotencyKey ≠ [] then .error .exclusive
  else do
    let ts := o.now.getD sys.now
    let id ← resolveID sys o queue ts
    return {
      id := id
      queue := queue
      handlerRef := handlerRef
      handlerVersion := o.handlerVersion
      payload := payload
      payloadContentType := if o.contentType = "" then defaultContentType else o.contentType
      headers := o.headers
      status := .pending
      nextAttemptAt := some ts
      createdAt := ts }

/-- What a call that succeeds has checked, and what it returns. -/
theorem submit_ok {sys : System} {queue handlerRef : String} {payload : Option (List UInt8)}
    {opts : List SubmitOption} {e : Envelope}
    (h : submit sys queue handlerRef payload opts = .ok e) :
    validQueue queue = true ∧ validQueue handlerRef = true ∧
      ¬ ((applyAll opts).explicitID ≠ [] ∧ (applyAll opts).idempotencyKey ≠ []) ∧
      resolveID sys (applyAll opts) queue ((applyAll opts).now.getD sys.now) = .ok e.id ∧
      e.queue = queue ∧ e.payload = payload ∧ e.SubmitShaped := by
  obtain ⟨_, hqueue, h⟩ := bind_eq_ok.mp h
  obtain ⟨_, hhandler, h⟩ := bind_eq_ok.mp h
  obtain ⟨_, -, h⟩ := bind_eq_ok.mp h
  obtain ⟨hboth, h⟩ := check_eq_ok.mp h
  obtain ⟨id, hid, h⟩ := bind_eq_ok.mp h
  cases h
  exact ⟨validateName_ok.mp (mapError_eq_ok.mp hqueue),
    validateName_ok.mp (mapError_eq_ok.mp hhandler), hboth, hid, rfl, rfl, rfl, rfl, rfl, rfl, rfl,
    rfl⟩

/-- A call by idempotency key with valid names and headers returns an envelope. -/
theorem submit_of_key (sys : System) {queue handlerRef : String} (payload : Option (List UInt8))
    {opts : List SubmitOption} (hqueue : validQueue queue = true)
    (hhandler : validQueue handlerRef = true)
    (hheaders : checkHeaders (applyAll opts).headers.entries = .ok ())
    (hid : (applyAll opts).explicitID = []) (hkey : (applyAll opts).idempotencyKey ≠ []) :
    ∃ e, submit sys queue handlerRef payload opts = .ok e := by
  have hq : validateQueue queue = .ok () := validateName_ok.mpr hqueue
  have hh : validateHandlerRef handlerRef = .ok () := validateName_ok.mpr hhandler
  have hresolve : resolveID sys (applyAll opts) queue ((applyAll opts).now.getD sys.now) =
      .ok (idText (deriveID sys queue (applyAll opts).idempotencyKey).string) := by
    rw [resolveID, if_neg (not_not.mpr hid), if_pos hkey]
  dsimp only [submit]
  rw [hq, hh, hheaders, hresolve, if_neg fun hboth => hboth.1 hid]
  exact ⟨_, rfl⟩

end Rdq.Sdk
