import Mathlib.Data.List.Induction
import Mathlib.Logic.Function.Basic
import Rdq.Server.Signature

/-!
# The headers of a callback request

`setHeaders` of `server/callback/http.go`: the headers of the task come first, those of
the dispatcher after them. A header set twice keeps the later value, so a task decides a
header exactly when the dispatcher does not set it in the mode of the target.

## Implementation notes

The headers of a task are the entries of a Go map in the order they are ranged over. Two
keys with one canonical name are two settings of one header.
-/

namespace Rdq.Server.Callback

open Foundation

/-! ## Header names -/

/-- `validHeaderFieldByte`: the characters of a token. -/
def isTokenChar (c : Char) : Bool := c.isAlphanum || "!#$%&'*+-.^_`|~".toList.contains c

/-- Upper case at the start and after a hyphen, lower case elsewhere. -/
def canonicalFrom (upper : Bool) : List Char → List Char
  | [] => []
  | c :: rest => (if upper then c.toUpper else c.toLower) :: canonicalFrom (c == '-') rest

/-- `CanonicalMIMEHeaderKey`; a key that is not a token stays as it is. -/
def canonicalHeaderKey (key : String) : String :=
  if key.toList.all isTokenChar then String.ofList (canonicalFrom true key.toList) else key

/-- `http.Header` under its canonical names. -/
abbrev Header := String → Option Bytes

def Header.set (h : Header) (key : String) (value : Bytes) : Header :=
  Function.update h (canonicalHeaderKey key) (some value)

/-- The settings of a list, one after another. -/
def Header.setAll (h : Header) (settings : List (String × Bytes)) : Header :=
  settings.foldl (fun h kv => h.set kv.1 kv.2) h

/-- What the last setting of a header is. -/
def lastSet (settings : List (String × Bytes)) (name : String) : Option Bytes :=
  (settings.reverse.find? fun kv => canonicalHeaderKey kv.1 = name).map Prod.snd

theorem Header.setAll_apply (h : Header) (settings : List (String × Bytes)) (name : String) :
    h.setAll settings name = (lastSet settings name).or (h name) := by
  induction settings using List.reverseRecOn with
  | nil => rfl
  | append_singleton settings kv ih =>
    have hset : h.setAll (settings ++ [kv]) = (h.setAll settings).set kv.1 kv.2 := by
      simp only [Header.setAll, List.foldl_append, List.foldl_cons, List.foldl_nil]
    rw [hset, Header.set, lastSet, List.reverse_append, List.reverse_singleton,
      List.singleton_append, List.find?_cons]
    by_cases hname : canonicalHeaderKey kv.1 = name
    · simp [hname]
    · rw [Function.update_of_ne (Ne.symm hname), ih]
      simp [hname, lastSet]

theorem lastSet_eq_none {settings : List (String × Bytes)} {name : String} :
    lastSet settings name = none ↔ name ∉ settings.map fun kv => canonicalHeaderKey kv.1 := by
  rw [lastSet, Option.map_eq_none_iff, List.find?_eq_none]
  simp only [List.mem_reverse, decide_eq_true_eq, List.mem_map, not_exists, not_and]

/-! ## The request -/

/-- `AuthMode`; a mode without a case sends no credential. -/
inductive AuthMode
  | none
  | bearer
  | header
  | hmac
  | unknown (mode : String)
deriving DecidableEq, Repr

/-- The fields of `Target` that `setHeaders` reads. -/
structure Target where
  contentType : String := ""
  auth : AuthMode := .none
  headerName : String := ""
  secret : Bytes := []

structure Task where
  id : String
  queue : String
  handlerRef : String
  attempt : Int
  payload : Bytes
  headers : List (String × String) := []

def headerTaskID : String := "X-RDQ-Task-Id"
def headerQueue : String := "X-RDQ-Queue"
def headerHandlerRef : String := "X-RDQ-Handler-Ref"
def headerAttempt : String := "X-RDQ-Attempt"

def defaultContentType : String := "application/octet-stream"

/-- The headers of a task as settings. -/
def propagated (headers : List (String × String)) : List (String × Bytes) :=
  headers.map fun kv => (kv.1, bytesOf kv.2)

variable (mac : Bytes → Bytes → Bytes) (now : Int64)

/-- `setHeaders` on the empty header of a new request, signed at the Unix time `now`. -/
def setHeaders (target : Target) (task : Task) : Header :=
  let h := Header.setAll (fun _ => none) (propagated task.headers)
  let ct := if target.contentType = "" then defaultContentType else target.contentType
  let h := h.set "Content-Type" (bytesOf ct)
  let h := h.set headerTaskID (bytesOf task.id)
  let h := h.set headerQueue (bytesOf task.queue)
  let h := h.set headerHandlerRef (bytesOf task.handlerRef)
  let h := h.set headerAttempt (asciiBytes (formatInt task.attempt))
  match target.auth with
  | .bearer => h.set "Authorization" (bytesOf "Bearer " ++ target.secret)
  | .header => if target.headerName ≠ "" then h.set target.headerName target.secret else h
  | .hmac => h.set signatureHeader (sign mac target.secret task.payload now)
  | .none | .unknown _ => h

/-! ## Which headers a task decides -/

/-- The name of the header that carries the credential of the target. -/
def credentialHeader (target : Target) : Option String :=
  match target.auth with
  | .bearer => some "Authorization"
  | .header => if target.headerName ≠ "" then some target.headerName else none
  | .none | .hmac | .unknown _ => none

/-- The names the dispatcher sets for a target. -/
def dispatcherNames (target : Target) : List String :=
  ["Content-Type", headerTaskID, headerQueue, headerHandlerRef, headerAttempt] ++
    (credentialHeader target).toList ++ if target.auth = .hmac then [signatureHeader] else []

/-- The settings of the dispatcher, in their order. -/
def dispatcherSettings (target : Target) (task : Task) : List (String × Bytes) :=
  let ct := if target.contentType = "" then defaultContentType else target.contentType
  [("Content-Type", bytesOf ct), (headerTaskID, bytesOf task.id), (headerQueue, bytesOf task.queue),
    (headerHandlerRef, bytesOf task.handlerRef),
    (headerAttempt, asciiBytes (formatInt task.attempt))] ++
    match target.auth with
    | .bearer => [("Authorization", bytesOf "Bearer " ++ target.secret)]
    | .header => if target.headerName ≠ "" then [(target.headerName, target.secret)] else []
    | .hmac => [(signatureHeader, sign mac target.secret task.payload now)]
    | .none | .unknown _ => []

theorem setHeaders_eq (target : Target) (task : Task) :
    setHeaders mac now target task =
      Header.setAll (Header.setAll (fun _ => none) (propagated task.headers))
        (dispatcherSettings mac now target task) := by
  unfold setHeaders dispatcherSettings
  cases target.auth with
  | header => by_cases hname : target.headerName = "" <;> simp [hname, Header.setAll]
  | _ => rfl

theorem names_dispatcherSettings (target : Target) (task : Task) :
    (dispatcherSettings mac now target task).map Prod.fst = dispatcherNames target := by
  unfold dispatcherSettings dispatcherNames credentialHeader
  cases target.auth with
  | header => by_cases hname : target.headerName = "" <;> simp [hname]
  | _ => simp

/-- A header has the value the dispatcher sets, or else the last one of the task. -/
theorem setHeaders_apply (target : Target) (task : Task) (name : String) :
    setHeaders mac now target task name =
      (lastSet (dispatcherSettings mac now target task) name).or
        (lastSet (propagated task.headers) name) := by
  rw [setHeaders_eq, Header.setAll_apply, Header.setAll_apply, Option.or_none]

/-- The names that belong to the dispatcher: the content type, everything under `X-Rdq-`,
and the header of the credential. -/
def Controlled (target : Target) (name : String) : Prop :=
  name = "Content-Type" ∨ "X-Rdq-".toList <+: name.toList ∨
    ∃ key ∈ credentialHeader target, name = canonicalHeaderKey key

/-- The canonical names the dispatcher sets. -/
def overwritten (target : Target) : List String := (dispatcherNames target).map canonicalHeaderKey

theorem lastSet_dispatcherSettings {target : Target} (task : Task) {name : String} :
    lastSet (dispatcherSettings mac now target task) name = none ↔ name ∉ overwritten target := by
  rw [lastSet_eq_none, overwritten, ← names_dispatcherSettings mac now target task, List.map_map]
  rfl

/-- Everything the dispatcher controls is set by it, but for names under `X-Rdq-`. -/
theorem under_prefix_of_not_overwritten {target : Target} {name : String}
    (h : Controlled target name) (hno : name ∉ overwritten target) :
    "X-Rdq-".toList <+: name.toList := by
  rcases h with rfl | h | ⟨key, hkey, rfl⟩
  · have hcanonical : canonicalHeaderKey "Content-Type" = "Content-Type" := by decide +kernel
    exact absurd (List.mem_map.mpr ⟨"Content-Type", by simp [dispatcherNames], hcanonical⟩) hno
  · exact h
  · refine absurd (List.mem_map_of_mem ?_) hno
    simp [dispatcherNames, Option.mem_toList.mpr hkey]

/-- Two header maps of a task lead to the same dispatcher headers exactly when they give
the same last value, or none, to every name under `X-Rdq-` that the dispatcher leaves
unset in the mode of the target. -/
theorem task_headers_kept_out_iff (target : Target) (task : Task)
    (headers headers' : List (String × String)) :
    (∀ name, Controlled target name →
      setHeaders mac now target { task with headers := headers } name =
        setHeaders mac now target { task with headers := headers' } name) ↔
    ∀ name, "X-Rdq-".toList <+: name.toList → name ∉ overwritten target →
      lastSet (propagated headers) name = lastSet (propagated headers') name := by
  have hsame : dispatcherSettings mac now target { task with headers := headers } =
      dispatcherSettings mac now target { task with headers := headers' } := rfl
  constructor
  · intro h name hname hno
    have hnone := (lastSet_dispatcherSettings mac now { task with headers := headers' }).mpr hno
    have heq := h name (Or.inr (Or.inl hname))
    rw [setHeaders_apply, setHeaders_apply, hsame, hnone] at heq
    simpa using heq
  · intro h name hname
    rw [setHeaders_apply, setHeaders_apply, hsame]
    cases hset :
      lastSet (dispatcherSettings mac now target { task with headers := headers' }) name with
    | some v => rfl
    | none =>
      have hno := (lastSet_dispatcherSettings mac now _).mp hset
      exact congrArg _ (h name (under_prefix_of_not_overwritten hname hno) hno)

/-- Without an HMAC target the signature header of a request is the one its task brings. -/
theorem signature_from_task :
    let target : Target := { auth := .bearer, secret := [115] }
    let task : Task := ⟨"t", "q", "h", 1, [], []⟩
    Controlled target "X-Rdq-Signature" ∧
      setHeaders (fun _ m => m) 0 target task "X-Rdq-Signature" = none ∧
      setHeaders (fun _ m => m) 0 target { task with headers := [("x-rdq-signature", "t=1,v1=00")] }
        "X-Rdq-Signature" = some (bytesOf "t=1,v1=00") := by
  refine ⟨Or.inr (Or.inl (by decide +kernel)), ?_, ?_⟩
  · decide +kernel
  · decide +kernel

end Rdq.Server.Callback
