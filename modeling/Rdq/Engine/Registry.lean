import Mathlib.Data.Nat.Notation
import Rdq.Core.Envelope

/-!
# Routing a claimed task

`core/registry/registry.go`: the name-to-handler map of a worker and the
decision whether a claimed task runs or is dead-lettered. The error texts quote
their arguments with `%q`, so the quoting of `strconv` is written out as well.
-/

namespace Rdq.Engine

section Quote
variable (unicodePrint : Char → Bool)

/-- Whether a character is printed as it is (`strconv.IsPrint`). The ASCII part
is written out; the Unicode tables beyond it are a parameter. -/
def isPrint (c : Char) : Bool :=
  if c.toNat < 0x80 then 0x20 ≤ c.toNat && c.toNat < 0x7f else unicodePrint c

/-- Lower-case hexadecimal digits, padded with zeros to a width. -/
def hexPad (width n : Nat) : List Char :=
  let digits := Nat.toDigits 16 n
  List.replicate (width - digits.length) '0' ++ digits

/-- One character inside double quotes (`strconv.appendEscapedRune`). -/
def escapeRune (c : Char) : List Char :=
  if c = '"' || c = '\\' then ['\\', c]
  else if isPrint unicodePrint c then [c]
  else if c.toNat = 0x07 then ['\\', 'a']
  else if c.toNat = 0x08 then ['\\', 'b']
  else if c.toNat = 0x0c then ['\\', 'f']
  else if c = '\n' then ['\\', 'n']
  else if c = '\r' then ['\\', 'r']
  else if c = '\t' then ['\\', 't']
  else if c.toNat = 0x0b then ['\\', 'v']
  else if c.toNat < 0x20 || c.toNat = 0x7f then '\\' :: 'x' :: hexPad 2 c.toNat
  else if c.toNat < 0x10000 then '\\' :: 'u' :: hexPad 4 c.toNat
  else '\\' :: 'U' :: hexPad 8 c.toNat

/-- The `%q` form of a string (`strconv.Quote`). -/
def quote (s : String) : String :=
  String.ofList ('"' :: s.toList.flatMap (escapeRune unicodePrint) ++ ['"'])

end Quote

example : quote (fun _ => true) "a\"b\n" = "\"a\\\"b\\n\"" := by decide

/-- A registered handler; what it returns is an input of the model. -/
structure Handler where
  version : String
deriving DecidableEq, Repr

/-- The `version_mismatch` policy of a queue. -/
inductive Policy
  | runLatest
  | deadLetter
deriving DecidableEq, Repr

/-- The policy named by a config value; anything unknown runs the latest handler. -/
def policyFrom (s : String) : Policy :=
  if s = "dead-letter" then .deadLetter else .runLatest

/-- The routing decision (`registry.Resolution`): the action together with the
one field that is set for it. -/
inductive Resolution
  | run (handler : Handler)
  | deadLetter (error : TaskError)
deriving DecidableEq, Repr

def errorTypeUnroutable : String := "rdq.Unroutable"

def errorTypeVersionMismatch : String := "rdq.HandlerVersionMismatch"

structure Registry where
  handlers : StringMap Handler
deriving DecidableEq, Repr

namespace Registry
variable (unicodePrint : Char → Bool)

def lookup (r : Registry) (handlerRef : String) : Option Handler :=
  r.handlers.get? handlerRef

/-- Run the registered handler, or dead-letter with a typed error. -/
def resolve (r : Registry) (task : Envelope) (policy : Policy) : Resolution :=
  match r.lookup task.handlerRef with
  | none =>
    .deadLetter
      { type := errorTypeUnroutable
        message := "no handler registered for handler_ref " ++
          quote unicodePrint task.handlerRef }
  | some h =>
    if task.handlerVersion = "" || task.handlerVersion = h.version then .run h
    else
      match policy with
      | .deadLetter =>
        .deadLetter
          { type := errorTypeVersionMismatch
            message := "handler_version " ++ quote unicodePrint task.handlerVersion ++
              " does not match registered handler " ++ quote unicodePrint h.version ++
              " for handler_ref " ++ quote unicodePrint task.handlerRef }
      | .runLatest => .run h

end Registry

end Rdq.Engine
