import Rdq.Foundation.Fallible
import Rdq.Foundation.JsonRecord

/-!
# Structs of optional fields in JSON

Struct types whose fields are all pointers or slices with `omitempty`. A field that is
unset is left out, and so is an empty slice. Objects are read strictly: a member without
a field is an error.

`OptionalStruct.back` says what is read of a struct that was written: each field that
was not left out, as its own codec reads it.
-/

namespace Rdq.Foundation.JsonText

variable {ε β : Type}

/-- How a field that may be unset is read, and how it is written where it is set. -/
structure OptionalCodec (ε β : Type) where
  read : Cst → Option β → Option (Option β)
  /-- The set values that `omitempty` leaves out. -/
  omitted : β → Bool
  write : β → Except ε Cst

namespace OptionalCodec

variable {c : Reader β} {write : β → Except ε Cst}

def reader (c : OptionalCodec ε β) : Reader (Option β) := ⟨none, c.read⟩

/-- A pointer. -/
def pointer (c : Reader β) (write : β → Except ε Cst) : OptionalCodec ε β where
  read := readPointer c
  omitted := fun _ => false
  write := write

/-- Null for nil; every element is read into a fresh place. -/
def readList (c : Reader β) : Cst → Option (Option (List β))
  | .null => some none
  | v => (v.items?.bind fun vs => vs.mapM fun v => c.read v c.zero).map some

/-- A slice. -/
def list (c : Reader β) (write : β → Except ε Cst) : OptionalCodec ε (List β) where
  read := fun v _ => readList c v
  omitted := List.isEmpty
  write := fun xs => (xs.mapM write).map Cst.array

/-- What is read of a set value that was written. -/
def Back (c : OptionalCodec ε β) (x y : β) : Prop :=
  c.reader.Back (c.write x) (some (some y))

theorem back_pointer {x y : β} (h : c.Back (write x) (some y)) (hnull : write x ≠ .ok .null) :
    (pointer c write).Back x y :=
  back_some h hnull

theorem back_list {xs : List β} (h : ∀ x ∈ xs, c.Back (write x) (some x)) :
    (list c write).Back xs xs := by
  obtain ⟨vs, hvs, hstrips, hreads⟩ := mapM_write h
  refine ⟨Cst.array vs, congrArg (Except.map Cst.array) hvs, ?_, ?_⟩
  · rw [Cst.strip_array, List.map_congr_left hstrips, List.map_id']
  · have hsome : xs.mapM (fun x => some x) = some xs := by
      have hpure : xs.mapM (fun x => some x) = some (xs.map id) := List.mapM_pure
      rw [hpure, List.map_id]
    change readList c (Cst.array vs) = _
    have hitems := Cst.items?_array vs
    have hne := Cst.array_ne_null vs
    generalize Cst.array vs = v at hitems hne
    cases v with
    | null => exact absurd rfl hne
    | _ => simp only [readList, hitems, Option.bind_some, hreads, hsome, Option.map_some]

/-- What is read into a field keeps a property. -/
def Keeps (c : OptionalCodec ε β) (P : β → Prop) : Prop :=
  ∀ v x y, (∀ a, x = some a → P a) → c.read v x = some y → ∀ b, y = some b → P b

theorem keeps_pointer {P : β → Prop} (h : ∀ v x y, c.read v x = some y → P y) :
    (pointer c write).Keeps P := by
  rintro v x y - hy b rfl
  rcases readPointer_cases hy with hnone | ⟨z, hz, hread⟩
  · cases hnone
  · cases hz
    exact h v _ b hread

theorem keeps_list {P : β → Prop} (h : ∀ v x y, c.read v x = some y → P y) :
    (list c write).Keeps fun xs => ∀ x ∈ xs, P x := by
  rintro v x y - hy b rfl a ha
  change readList c v = _ at hy
  have hslice : readSlice c v [] = some b := by
    cases v with
    | null => cases hy
    | _ =>
      simp only [readList] at hy
      obtain ⟨ys, hys, hsome⟩ := Option.map_eq_some_iff.mp hy
      cases hsome
      exact hys
  obtain ⟨u, hu⟩ := mem_readSlice hslice ha
  exact h u _ a hu

/-- The codec reads what another one reads, up to a change of the values. -/
def Maps (c c' : OptionalCodec ε β) (g : β → β) : Prop :=
  ∀ v x, c.read v (x.map g) = (c'.read v x).map (Option.map g)

theorem maps_self (c : OptionalCodec ε β) : c.Maps c id := by
  intro v x
  rw [Option.map_id, Option.map_id]
  rfl

theorem maps_pointer {c c' : Reader β} {g : β → β} (hzero : c.zero = g c'.zero)
    (hread : ∀ v x, c.read v (g x) = (c'.read v x).map g) :
    (pointer c write).Maps (pointer c' write) g := by
  intro v x
  change readPointer c v (x.map g) = (readPointer c' v x).map (Option.map g)
  by_cases hv : v = .null
  · subst hv
    rfl
  · rw [readPointer_of_ne_null c hv, readPointer_of_ne_null c' hv, hzero, Option.getD_map, hread,
      Option.map_map, Option.map_map]
    rfl

end OptionalCodec

/-- A struct type of optional fields, in order of declaration. -/
structure OptionalStruct (ε ι : Type) where
  order : List ι
  name : ι → String
  Value : ι → Type
  codec : (i : ι) → OptionalCodec ε (Value i)
  complete : ∀ i, i ∈ order
  distinct : (order.map name).Nodup

namespace OptionalStruct

variable {ι : Type} (T : OptionalStruct ε ι)

abbrev Record := (i : ι) → Option (T.Value i)

/-- The value is unset, or left out by `omitempty`. -/
def omitted (i : ι) : Option (T.Value i) → Bool
  | none => true
  | some v => (T.codec i).omitted v

@[reducible] def schema : Schema ι where
  order := T.order
  name := T.name
  Value := fun i => Option (T.Value i)
  reader := fun i => (T.codec i).reader
  omitted := T.omitted
  complete := T.complete
  distinct := T.distinct

def writer : T.schema.Writer ε := fun i x =>
  match x with
  | none => .ok .null
  | some v => (T.codec i).write v

/-- The encoder of the standard library, which escapes HTML. -/
def write (r : T.Record) : Except ε Cst := T.schema.writeStruct true T.writer r

/-- What becomes of a struct that is written and read, given what becomes of the values. -/
def pass (f : (i : ι) → T.Value i → T.Value i) (r : T.Record) : T.Record := fun i =>
  (r i).bind fun v => if (T.codec i).omitted v then none else some (f i v)

theorem pass_of_not_omitted {i : ι} (h : ∀ v, (T.codec i).omitted v = false)
    (f : (i : ι) → T.Value i → T.Value i) (r : T.Record) : T.pass f r i = (r i).map (f i) := by
  unfold pass
  cases r i with
  | none => rfl
  | some v => rw [Option.bind_some, h, if_neg Bool.false_ne_true, Option.map_some]

/-- The set values of the record are read back as `f` says. -/
def BackFields (f : (i : ι) → T.Value i → T.Value i) (r : T.Record) : Prop :=
  ∀ i v, r i = some v → (T.codec i).omitted v = false → (T.codec i).Back v (f i v)

theorem fieldBack {f : (i : ι) → T.Value i → T.Value i} {r : T.Record} (h : T.BackFields f r)
    (i : ι) : T.schema.FieldBack T.writer r i (some (T.pass f r i)) := by
  unfold pass
  cases hr : r i with
  | none =>
    apply T.schema.fieldBack_of_omitted
    change T.omitted i (r i) = true
    rw [hr]
    rfl
  | some v =>
    rw [Option.bind_some]
    cases homit : (T.codec i).omitted v with
    | true =>
      apply T.schema.fieldBack_of_omitted
      change T.omitted i (r i) = true
      rw [hr]
      exact homit
    | false =>
      have hwritten : T.schema.omitted i (r i) = false := by
        change T.omitted i (r i) = false
        rw [hr]
        exact homit
      apply T.schema.fieldBack_of_written hwritten
      change (T.codec i).reader.Back (T.writer i (r i)) _
      rw [hr]
      exact h i v hr homit

theorem write_ne_null (r : T.Record) : T.write r ≠ .ok .null := by
  intro h
  obtain ⟨ms, -, hms⟩ := map_eq_ok.mp h
  exact Cst.object_ne_null _ hms

/-- When the struct is written, each of its set values is. -/
theorem write_codec {r : T.Record} {v : Cst} (h : T.write r = .ok v) {i : ι} {x : T.Value i}
    (hx : r i = some x) (homit : (T.codec i).omitted x = false) :
    ∃ u, (T.codec i).write x = .ok u := by
  have hwritten : T.schema.omitted i (r i) = false := by
    change T.omitted i (r i) = false
    rw [hx]
    exact homit
  obtain ⟨u, hu⟩ := T.schema.written_of_writeStruct h hwritten
  change T.writer i (r i) = .ok u at hu
  rw [hx] at hu
  exact ⟨u, hu⟩

variable [DecidableEq ι]

/-- A strict decoder; names match up to letter case. -/
def read (v : Cst) (r : T.Record) : Option T.Record :=
  if T.schema.strict true v then T.schema.readStruct true v r else none

/-- A struct that was written is read field by field. -/
theorem back {f : (i : ι) → T.Value i → T.Value i} {r : T.Record} (h : T.BackFields f r) :
    (⟨fun _ => none, T.read⟩ : Reader T.Record).Back (T.write r) (some (T.pass f r)) := by
  obtain ⟨ms, hms, hstrip, hread⟩ := T.schema.readMembers_members (T.fieldBack h) true
  refine ⟨Schema.objectOf true ms, congrArg (Except.map (Schema.objectOf true)) hms,
    Schema.strip_objectOf true hstrip, ?_⟩
  change T.read (Schema.objectOf true ms) T.schema.zero = _
  rw [read, T.schema.strict_objectOf hms, if_pos rfl, T.schema.readStruct_objectOf, hread]
  exact T.schema.collect_order (fun _ => rfl) _

/-- What a field keeps, the struct keeps. -/
theorem read_field {i : ι} {P : T.Value i → Prop} (hkeeps : (T.codec i).Keeps P) {v : Cst}
    {r r' : T.Record} (h : T.read v r = some r') (hr : ∀ a, r i = some a → P a) :
    ∀ b, r' i = some b → P b := by
  unfold read at h
  split at h
  · exact T.schema.readStruct_field (P := fun x => ∀ a, x = some a → P a)
      (fun v x y hx hy => hkeeps v x y hx hy) h hr
  · cases h

/-- The same struct type with other codecs for its fields. -/
@[reducible] def withCodec (codec : (i : ι) → OptionalCodec ε (T.Value i)) : OptionalStruct ε ι :=
  { T with codec := codec }

theorem read_map {codec : (i : ι) → OptionalCodec ε (T.Value i)}
    {g : (i : ι) → T.Value i → T.Value i} (h : ∀ i, (T.codec i).Maps (codec i) (g i)) (v : Cst)
    (r : T.Record) :
    T.read v (fun i => (r i).map (g i)) =
      ((T.withCodec codec).read v r).map fun r i => (r i).map (g i) := by
  have hstrict : (T.withCodec codec).schema.strict true v = T.schema.strict true v := rfl
  unfold read
  rw [hstrict]
  split_ifs
  · refine T.schema.readStruct_map (f := fun i => Option.map (g i)) ?_ true v r
    exact h
  · rfl

/-! ## Structs as values -/

/-- A type whose values are the records of the struct type. -/
structure View (β : Type) where
  get : β → T.Record
  make : T.Record → β
  make_get : ∀ b, make (get b) = b
  get_make : ∀ r, get (make r) = r

variable {T}

/-- How such a value is read. -/
def View.reader (V : T.View β) : Reader β :=
  ⟨V.make fun _ => none, fun v b => (T.read v (V.get b)).map V.make⟩

/-- A pointer to the value. -/
def View.codec (V : T.View β) : OptionalCodec ε β := .pointer V.reader fun b => T.write (V.get b)

theorem View.back (V : T.View β) {f : (i : ι) → T.Value i → T.Value i} {b : β}
    (h : T.BackFields f (V.get b)) :
    V.reader.Back (T.write (V.get b)) (some (V.make (T.pass f (V.get b)))) := by
  obtain ⟨v, hv, hstrip, hread⟩ := T.back h
  refine ⟨v, hv, hstrip, ?_⟩
  change (T.read v (V.get (V.make fun _ => none))).map V.make = _
  change T.read v (fun _ => none) = _ at hread
  rw [V.get_make, hread]
  rfl

theorem View.back_codec (V : T.View β) {f : (i : ι) → T.Value i → T.Value i} {b : β}
    (h : T.BackFields f (V.get b)) : V.codec.Back b (V.make (T.pass f (V.get b))) :=
  OptionalCodec.back_pointer (V.back h) (T.write_ne_null _)

theorem View.read_field (V : T.View β) {i : ι} {P : T.Value i → Prop}
    (hkeeps : (T.codec i).Keeps P) {v : Cst} {b b' : β} (h : V.reader.read v b = some b')
    (hb : ∀ a, V.get b i = some a → P a) : ∀ a, V.get b' i = some a → P a := by
  obtain ⟨r, hr, rfl⟩ := Option.map_eq_some_iff.mp h
  rw [V.get_make]
  exact T.read_field hkeeps hr hb

/-- A property of one field of the struct behind the pointer. -/
theorem View.keeps (V : T.View β) {i : ι} {P : T.Value i → Prop} (hkeeps : (T.codec i).Keeps P) :
    V.codec.Keeps fun b => ∀ a, V.get b i = some a → P a := by
  rintro v x y hx hy b rfl
  rcases readPointer_cases hy with hnone | ⟨z, hz, hread⟩
  · cases hnone
  · cases hz
    refine V.read_field hkeeps hread ?_
    intro a ha
    cases x with
    | none =>
      change V.get (V.make fun _ => none) i = some a at ha
      rw [V.get_make] at ha
      cases ha
    | some b₀ => exact hx b₀ rfl a ha

section Map
variable (V : T.View β) (codec : (i : ι) → OptionalCodec ε (T.Value i))
variable (g : (i : ι) → T.Value i → T.Value i)

def View.withCodec : (T.withCodec codec).View β := ⟨V.get, V.make, V.make_get, V.get_make⟩

/-- A change of the values of the set fields. -/
def View.map (b : β) : β := V.make fun i => (V.get b i).map (g i)

variable {codec g}

theorem View.read_map (h : ∀ i, (T.codec i).Maps (codec i) (g i)) (v : Cst) (b : β) :
    V.reader.read v (V.map g b) = ((V.withCodec codec).reader.read v b).map (V.map g) := by
  change (T.read v (V.get (V.make _))).map V.make =
    (((T.withCodec codec).read v (V.get b)).map V.make).map (V.map g)
  rw [V.get_make, T.read_map h, Option.map_map, Option.map_map]
  apply congrArg (fun k => Option.map k _)
  funext r
  simp only [Function.comp_apply, View.map, V.get_make]

theorem View.maps_codec (h : ∀ i, (T.codec i).Maps (codec i) (g i)) :
    V.codec.Maps (V.withCodec codec).codec (V.map g) := by
  refine OptionalCodec.maps_pointer ?_ (V.read_map h)
  change V.make (fun _ => none) = V.make fun i => (V.get (V.make fun _ => none) i).map (g i)
  rw [V.get_make]
  rfl

end Map

end OptionalStruct

end Rdq.Foundation.JsonText
