import Mathlib.Data.List.Nodup
import Mathlib.Tactic.Common

/-!
# Decoding JSON objects into structs

How `encoding/json` decodes an object into a Go struct. The members are taken in
order, and each one is stored in the field whose name it matches: exactly, or
else up to case folding. A later member overwrites an earlier one, `null` leaves
a plain field alone and empties a pointer, and a member that matches no field is
skipped, unless unknown fields are disallowed. A value of the wrong type makes
the whole call fail.

## Implementation notes

Field names are ASCII here. Apart from the ASCII letters themselves only `ſ`
(U+017F) and the Kelvin sign (U+212A) fold to an ASCII letter, so `foldRune`
treats these and leaves every other character alone. The decoder goes on after a
value of the wrong type and reports the first one in the end; the model stops
there.
-/

namespace Rdq.Foundation.GoJson

/-- A JSON value; the members of an object keep their order and their repetitions. -/
inductive Json
  | null
  | bool (b : Bool)
  | num (text : String)
  | str (s : String)
  | arr (items : List Json)
  | obj (members : List (String × Json))

inductive DecodeError
  /-- The input does not start with a JSON value. -/
  | malformed
  /-- The value of a field has the wrong type or format. -/
  | typeMismatch (field : String)
  | unknownField (key : String)
deriving DecidableEq, Repr

/-- The representative of a character under case folding. -/
def foldRune (c : Char) : Char :=
  if c = Char.ofNat 0x17F then 's' else if c = Char.ofNat 0x212A then 'k' else c.toLower

def foldName (s : String) : List Char := s.toList.map foldRune

variable {σ τ α : Type*}

/-- A field of a struct: its name, and how a value is stored in it. -/
structure JsonField (σ : Type*) where
  name : String
  set : Json → σ → Except DecodeError σ

/-- The field a key matches. -/
def lookup (fields : List (JsonField σ)) (key : String) : Option (JsonField σ) :=
  match fields.find? fun f => f.name = key with
  | some f => some f
  | none => fields.find? fun f => foldName f.name = foldName key

/-- Store one member. -/
def decodeMember (strict : Bool) (fields : List (JsonField σ)) (s : σ) (member : String × Json) :
    Except DecodeError σ :=
  match lookup fields member.1 with
  | some f => f.set member.2 s
  | none => if strict then .error (.unknownField member.1) else .ok s

/-- Store the members of an object in a struct that already has a value. -/
def decodeMembers (strict : Bool) (fields : List (JsonField σ)) (s : σ)
    (members : List (String × Json)) : Except DecodeError σ :=
  members.foldlM (decodeMember strict fields) s

theorem decodeMembers_append (strict : Bool) (fields : List (JsonField σ)) (s : σ)
    (xs ys : List (String × Json)) :
    decodeMembers strict fields s (xs ++ ys) =
      decodeMembers strict fields s xs >>= fun s => decodeMembers strict fields s ys :=
  List.foldlM_append

variable {s s' : σ} {name : String} {v : Json}

def stringField (name : String) (put : String → σ → σ) : JsonField σ where
  name := name
  set
    | .str x, s => .ok (put x s)
    | .null, s => .ok s
    | _, _ => .error (.typeMismatch name)

def boolField (name : String) (put : Bool → σ → σ) : JsonField σ where
  name := name
  set
    | .bool b, s => .ok (put b s)
    | .null, s => .ok s
    | _, _ => .error (.typeMismatch name)

/-- A pointer to a value that is parsed from a string. -/
def parsedField (name : String) (parse : String → Option α) (put : Option α → σ → σ) :
    JsonField σ where
  name := name
  set
    | .str x, s =>
      match parse x with
      | some a => .ok (put (some a) s)
      | none => .error (.typeMismatch name)
    | .null, s => .ok (put none s)
    | _, _ => .error (.typeMismatch name)

/-- A pointer to a struct. An object is stored in the struct the pointer already has, if any. -/
def structField (name : String) (strict : Bool) (fields : List (JsonField τ)) (zero : τ)
    (get : σ → Option τ) (put : Option τ → σ → σ) : JsonField σ where
  name := name
  set
    | .obj members, s =>
      (decodeMembers strict fields ((get s).getD zero) members).map fun t => put (some t) s
    | .null, s => .ok (put none s)
    | _, _ => .error (.typeMismatch name)

/-- A slice of strings, with the elements its backing array holds past its end. -/
structure StringSlice where
  elems : List String := []
  spare : List String := []
deriving DecidableEq, Repr

/-- Elements are decoded in place, so a `null` keeps what the backing array held. -/
def decodeElems (name : String) : List String → List Json → Except DecodeError (List String)
  | _, [] => .ok []
  | old, .str x :: items => (decodeElems name old.tail items).map (x :: ·)
  | old, .null :: items => (decodeElems name old.tail items).map (old.headD "" :: ·)
  | _, _ :: _ => .error (.typeMismatch name)

def stringsField (name : String) (get : σ → StringSlice) (put : StringSlice → σ → σ) :
    JsonField σ where
  name := name
  set
    | .arr [], s => .ok (put {} s)
    | .arr items, s =>
      let backing := (get s).elems ++ (get s).spare
      (decodeElems name backing items).map fun elems =>
        put { elems := elems, spare := backing.drop elems.length } s
    | .null, s => .ok (put {} s)
    | _, _ => .error (.typeMismatch name)

/-- Decode a value into a struct; `null` leaves it alone. -/
def decodeStruct (strict : Bool) (fields : List (JsonField σ)) (s : σ) : Json → Except DecodeError σ
  | .obj members => decodeMembers strict fields s members
  | .null => .ok s
  | _ => .error (.typeMismatch "")

/-! ## Two decodings of one object -/

end Rdq.Foundation.GoJson
