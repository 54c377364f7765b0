import Mathlib.Logic.Function.Basic
import Mathlib.Data.List.Nodup
import Rdq.Foundation.Fallible
import Rdq.Foundation.GoJson
import Rdq.Foundation.JsonCodec

/-!
# Go structs in JSON

A struct type is a family of fields with names, and a struct is a value for each
field. Its fields are written in order of declaration. A member of an object is read
into the field of its name, or else into the first field whose name it matches up to
letter case; other members are skipped, and later members are read over earlier ones.
-/

namespace Rdq.Foundation.JsonText

open GoJson (foldName)

/-- A struct type: its fields in order of declaration. -/
structure Schema (ι : Type) where
  order : List ι
  name : ι → String
  Value : ι → Type
  reader : (i : ι) → Reader (Value i)
  /-- The values that `omitempty` leaves out. -/
  omitted : (i : ι) → Value i → Bool
  complete : ∀ i, i ∈ order
  distinct : (order.map name).Nodup

namespace Schema

variable {ε ι : Type} (S : Schema ι)

abbrev Record := (i : ι) → S.Value i

def zero : S.Record := fun i => (S.reader i).zero

/-- The field a key is read into; letter case counts unless `fold` is set. -/
def field? (fold : Bool) (key : String) : Option ι :=
  match S.order.find? fun i => S.name i = key with
  | some i => some i
  | none =>
    if fold then S.order.find? fun i => foldName (S.name i) = foldName key else none

/-- The key is the name of a field. -/
def known (key : String) : Bool := S.order.any fun i => S.name i = key

theorem name_injective {i j : ι} (h : S.name i = S.name j) : i = j :=
  List.inj_on_of_nodup_map S.distinct (S.complete i) (S.complete j) h

theorem known_iff {key : String} : S.known key = true ↔ ∃ i, S.name i = key := by
  simp [known, S.complete]

theorem known_name (i : ι) : S.known (S.name i) = true := S.known_iff.mpr ⟨i, rfl⟩

theorem field?_name (fold : Bool) (i : ι) : S.field? fold (S.name i) = some i := by
  unfold field?
  cases hfind : S.order.find? fun j => S.name j = S.name i with
  | some j =>
    have hname : S.name j = S.name i := by simpa using List.find?_some hfind
    rw [S.name_injective hname]
  | none =>
    have hnone := List.find?_eq_none.mp hfind i (S.complete i)
    simp at hnone

/-- Without folding, only names are matched. -/
theorem field?_false {key : String} (h : S.known key = false) : S.field? false key = none := by
  have hnone : (S.order.find? fun i => S.name i = key) = none :=
    List.find?_eq_none.mpr fun i _ hi => by
      have hkey : S.name i = key := by simpa using hi
      rw [← hkey, S.known_name] at h
      cases h
  rw [field?, hnone]
  rfl

/-! ## Writing -/

/-- How an encoder writes each field. -/
abbrev Writer (ε : Type) := (i : ι) → S.Value i → Except ε Cst

def writeField (w : S.Writer ε) (r : S.Record) (i : ι) : Except ε (List (String × Cst)) :=
  if S.omitted i (r i) then .ok [] else (w i (r i)).map fun v => [(S.name i, v)]

def writeFields (w : S.Writer ε) (r : S.Record) (is : List ι) : Except ε (List (String × Cst)) :=
  (is.mapM (S.writeField w r)).map List.flatten

def members (w : S.Writer ε) (r : S.Record) : Except ε (List (String × Cst)) :=
  S.writeFields w r S.order

theorem writeField_congr {w w' : S.Writer ε} {r r' : S.Record} {i : ι}
    (homit : S.omitted i (r i) = S.omitted i (r' i)) (hwrite : w i (r i) = w' i (r' i)) :
    S.writeField w r i = S.writeField w' r' i := by
  rw [writeField, writeField, homit, hwrite]

/-- Two structs whose fields are written alike. -/
theorem members_congr {w w' : S.Writer ε} {r r' : S.Record}
    (h : ∀ i, S.writeField w r i = S.writeField w' r' i) : S.members w r = S.members w' r' := by
  rw [members, members, writeFields, writeFields, funext h]

/-- What reading gives for a field that was written. -/
def FieldBack (w : S.Writer ε) (r : S.Record) (i : ι) (y : Option (S.Value i)) : Prop :=
  if S.omitted i (r i) then y = some (S.reader i).zero else (S.reader i).Back (w i (r i)) y

variable {w : S.Writer ε}

variable {r : S.Record} {i : ι} {is : List ι} {ms : List (String × Cst)} {fold : Bool}

theorem fieldBack_of_omitted (h : S.omitted i (r i) = true) :
    S.FieldBack w r i (some (S.reader i).zero) := by
  rw [FieldBack, if_pos h]

theorem fieldBack_of_written {y : Option (S.Value i)} (h : S.omitted i (r i) = false)
    (hback : (S.reader i).Back (w i (r i)) y) :
    S.FieldBack w r i y := by
  rw [FieldBack, h]
  exact hback

/-- A field that is left out when it has its zero value. -/
theorem fieldBack_of_back (hzero : S.omitted i (r i) = true → r i = (S.reader i).zero)
    (hback : (S.reader i).Back (w i (r i)) (some (r i))) : S.FieldBack w r i (some (r i)) := by
  cases h : S.omitted i (r i) with
  | true =>
    rw [hzero h]
    exact S.fieldBack_of_omitted h
  | false => exact S.fieldBack_of_written h hback

theorem writeFields_cons (r : S.Record) (i : ι) (is : List ι) :
    S.writeFields w r (i :: is) = .ok ms ↔
      ∃ xs ys, S.writeField w r i = .ok xs ∧ S.writeFields w r is = .ok ys ∧ ms = xs ++ ys := by
  unfold writeFields
  rw [List.mapM_cons]
  cases S.writeField w r i with
  | error e =>
    constructor
    · intro h
      cases h
    · rintro ⟨xs, ys, h, -⟩
      cases h
  | ok xs =>
    cases is.mapM (S.writeField w r) with
    | error e =>
      constructor
      · intro h
        cases h
      · rintro ⟨xs, ys, -, h, -⟩
        cases h
    | ok ys =>
      constructor
      · intro h
        exact ⟨xs, ys.flatten, rfl, rfl, (Except.ok.inj h).symm⟩
      · rintro ⟨xs', ys', hxs, hys, rfl⟩
        cases hxs
        cases hys
        rfl

theorem known_of_mem_writeField (h : S.writeField w r i = .ok ms) {m : String × Cst} (hm : m ∈ ms) :
    S.known m.1 = true := by
  unfold writeField at h
  split at h
  · cases h
    cases hm
  · cases hv : w i (r i) with
    | error e =>
      rw [hv] at h
      cases h
    | ok v =>
      rw [hv] at h
      cases h
      rw [List.mem_singleton.mp hm]
      exact S.known_name i

/-- When fields are written, each of them is. -/
theorem writeField_of_writeFields (h : S.writeFields w r is = .ok ms) (hi : i ∈ is) :
    ∃ xs, S.writeField w r i = .ok xs := by
  induction is generalizing ms with
  | nil => cases hi
  | cons j is ih =>
    obtain ⟨xs, ys, hxs, hys, -⟩ := (S.writeFields_cons r j is).mp h
    rcases List.mem_cons.mp hi with rfl | hi
    · exact ⟨xs, hxs⟩
    · exact ih hys hi

/-- The written members have the names of fields. -/
theorem known_of_mem_writeFields (h : S.writeFields w r is = .ok ms) {m : String × Cst}
    (hm : m ∈ ms) :
    S.known m.1 = true := by
  induction is generalizing ms with
  | nil =>
    cases h
    cases hm
  | cons i is ih =>
    obtain ⟨xs, ys, hxs, hys, rfl⟩ := (S.writeFields_cons r i is).mp h
    rcases List.mem_append.mp hm with hm | hm
    · exact S.known_of_mem_writeField hxs hm
    · exact ih hys hm

/-- A struct whose first field is written is not empty. -/
theorem members_ne_nil {first : ι} (hfirst : S.order.head? = some first)
    (h : S.omitted first (r first) = false) (hms : S.members w r = .ok ms) : ms ≠ [] := by
  obtain ⟨is, his⟩ := List.head?_eq_some_iff.mp hfirst
  rw [members, his] at hms
  obtain ⟨xs, ys, hxs, -, rfl⟩ := (S.writeFields_cons r first is).mp hms
  have hne : xs ≠ [] := by
    rw [writeField, h] at hxs
    cases hv : w first (r first) with
    | error e =>
      rw [hv] at hxs
      cases hxs
    | ok v =>
      rw [hv] at hxs
      cases hxs
      simp
  exact List.append_ne_nil_of_left_ne_nil hne ys

variable [DecidableEq ι]

/-! ## Reading -/

def readMember (fold : Bool) (r : S.Record) (member : String × Cst) : Option S.Record :=
  match S.field? fold member.1 with
  | some i => ((S.reader i).read member.2 (r i)).map (Function.update r i)
  | none => some r

def readMembers (fold : Bool) (members : List (String × Cst)) (r : S.Record) : Option S.Record :=
  members.foldlM (S.readMember fold) r

theorem readMembers_cons (fold : Bool) (m : String × Cst) (ms : List (String × Cst))
    (r : S.Record) :
    S.readMembers fold (m :: ms) r = (S.readMember fold r m).bind (S.readMembers fold ms) :=
  List.foldlM_cons ..

theorem readMembers_append (fold : Bool) (ms ns : List (String × Cst)) (r : S.Record) :
    S.readMembers fold (ms ++ ns) r = (S.readMembers fold ms r).bind (S.readMembers fold ns) :=
  List.foldlM_append ..

/-- Members that match no field are skipped. -/
theorem readMembers_of_unmatched {members : List (String × Cst)}
    (h : ∀ m ∈ members, S.field? fold m.1 = none) (r : S.Record) :
    S.readMembers fold members r = some r := by
  induction members with
  | nil => rfl
  | cons m members ih =>
    obtain ⟨hm, hrest⟩ := List.forall_mem_cons.mp h
    have hstep : S.readMember fold r m = some r := by rw [readMember, hm]
    calc S.readMembers fold (m :: members) r
        = (S.readMember fold r m).bind (S.readMembers fold members) := S.readMembers_cons ..
      _ = S.readMembers fold members r := by rw [hstep, Option.bind_some]
      _ = some r := ih hrest

/-- What every field keeps when it is read, the struct keeps. -/
theorem readMembers_forall {P : (i : ι) → S.Value i → Prop}
    (hread : ∀ i v x y, P i x → (S.reader i).read v x = some y → P i y)
    {members : List (String × Cst)} {r r' : S.Record} (h : S.readMembers fold members r = some r')
    (hr : ∀ i, P i (r i)) : ∀ i, P i (r' i) := by
  induction members generalizing r with
  | nil =>
    cases h
    exact hr
  | cons m members ih =>
    rw [readMembers_cons] at h
    obtain ⟨s, hs, hrest⟩ := Option.bind_eq_some_iff.mp h
    apply ih hrest
    unfold readMember at hs
    split at hs
    · rename_i i _
      obtain ⟨y, hy, rfl⟩ := Option.map_eq_some_iff.mp hs
      intro j
      by_cases hj : j = i
      · subst hj
        rw [Function.update_self]
        exact hread j m.2 (r j) y (hr j) hy
      · rw [Function.update_of_ne hj]
        exact hr j
    · cases hs
      exact hr

/-! ## Reading what was written -/

/-- The fields read one after another into a record. -/
def collect (back : (i : ι) → Option (S.Value i)) (is : List ι) (r : S.Record) :
    Option S.Record :=
  is.foldlM (fun r i => (back i).map (Function.update r i)) r

theorem collect_some (t : S.Record) (is : List ι) (r : S.Record) :
    S.collect (fun i => some (t i)) is r = some fun i => if i ∈ is then t i else r i := by
  induction is generalizing r with
  | nil => simp [collect]
  | cons i is ih =>
    have hstep : S.collect (fun i => some (t i)) (i :: is) r =
        S.collect (fun i => some (t i)) is (Function.update r i (t i)) := rfl
    rw [hstep, ih]
    congr 1
    funext j
    by_cases hj : j = i
    · subst hj
      simp
    · simp [hj]

/-- Reading all fields of a record. -/
theorem collect_order {back : (i : ι) → Option (S.Value i)} {t : S.Record}
    (h : ∀ i, back i = some (t i)) (r : S.Record) : S.collect back S.order r = some t := by
  have hback : back = fun i => some (t i) := funext h
  rw [hback, collect_some]
  congr 1
  funext i
  rw [if_pos (S.complete i)]

theorem collect_none {back : (i : ι) → Option (S.Value i)} (h : back i = none) (hi : i ∈ is)
    (r : S.Record) : S.collect back is r = none := by
  induction is generalizing r with
  | nil => cases hi
  | cons j is ih =>
    have hstep : S.collect back (j :: is) r =
        ((back j).map (Function.update r j)).bind (S.collect back is) := List.foldlM_cons ..
    rw [hstep]
    rcases List.mem_cons.mp hi with rfl | hi
    · rw [h]
      rfl
    · cases (back j).map (Function.update r j) with
      | none => rfl
      | some r => exact ih hi r

/-- A field that was written is read into its place. -/
theorem readMembers_writeField {y : Option (S.Value i)} (h : S.FieldBack w r i y) (fold : Bool)
    {s : S.Record} (hs : s i = (S.reader i).zero) :
    ∃ ms, S.writeField w r i = .ok ms ∧ (∀ m ∈ ms, m.2.strip = m.2) ∧
      S.readMembers fold ms s = y.map (Function.update s i) := by
  unfold FieldBack at h
  unfold writeField
  split at h
  · rename_i homit
    refine ⟨[], by rw [if_pos homit], by simp, ?_⟩
    rw [h, ← hs]
    simp [readMembers]
  · rename_i homit
    obtain ⟨v, hwrite, hstrip, hread⟩ := h
    refine ⟨[(S.name i, v)], by rw [if_neg homit, hwrite]; rfl, by simpa using hstrip, ?_⟩
    have hstep : S.readMember fold s (S.name i, v) = y.map (Function.update s i) := by
      simp only [readMember, field?_name, hs, hread]
    simp [readMembers, hstep]

/-- Fields that were written are read into their places, one after another. -/
theorem readMembers_writeFields {back : (i : ι) → Option (S.Value i)}
    (h : ∀ i, S.FieldBack w r i (back i)) (fold : Bool) (hnodup : is.Nodup) {s : S.Record}
    (hs : ∀ i ∈ is, s i = (S.reader i).zero) :
    ∃ ms, S.writeFields w r is = .ok ms ∧ (∀ m ∈ ms, m.2.strip = m.2) ∧
      S.readMembers fold ms s = S.collect back is s := by
  -- the fields still to come keep their zero values, so each is read into a fresh place
  induction is generalizing s with
  | nil => exact ⟨[], rfl, by simp, rfl⟩
  | cons i is ih =>
    obtain ⟨hi, hnodup⟩ := List.nodup_cons.mp hnodup
    obtain ⟨hzero, hrest⟩ := List.forall_mem_cons.mp hs
    obtain ⟨ms, hms, hstrip, hread⟩ := S.readMembers_writeField (h i) fold hzero
    have hnext : ∀ a, ∀ j ∈ is, Function.update s i a j = (S.reader j).zero := by
      intro a j hj
      have hne : j ≠ i := by
        rintro rfl
        exact hi hj
      rw [Function.update_of_ne hne, hrest j hj]
    have hcollect : S.collect back (i :: is) s =
        ((back i).map (Function.update s i)).bind (S.collect back is) := List.foldlM_cons ..
    obtain ⟨ns, hns, hstrips, -⟩ := ih hnodup hrest
    refine ⟨ms ++ ns, (S.writeFields_cons r i is).mpr ⟨ms, ns, hms, hns, rfl⟩,
      List.forall_mem_append.mpr ⟨hstrip, hstrips⟩, ?_⟩
    rw [readMembers_append, hread, hcollect]
    cases back i with
    | none => rfl
    | some a =>
      obtain ⟨ns', hns', -, hreads⟩ := ih hnodup (hnext a)
      have heq : ns' = ns := Except.ok.inj (hns'.symm.trans hns)
      rw [heq] at hreads
      exact hreads

/-- A struct that was written is read field by field. -/
theorem readMembers_members {back : (i : ι) → Option (S.Value i)}
    (h : ∀ i, S.FieldBack w r i (back i)) (fold : Bool) :
    ∃ ms, S.members w r = .ok ms ∧ (∀ m ∈ ms, m.2.strip = m.2) ∧
      S.readMembers fold ms S.zero = S.collect back S.order S.zero :=
  S.readMembers_writeFields h fold S.distinct.of_map fun _ _ => rfl

/-! ## Objects -/

/-- The object with the given members, without whitespace. -/
def objectOf (html : Bool) (ms : List (String × Cst)) : Cst :=
  Cst.object (ms.map fun m => (quote html m.1, m.2))

/-- The members of an object, in order, with their names. -/
def fields? (v : Cst) : Option (List (String × Cst)) :=
  v.members?.map fun ms => ms.map fun m => (unquote m.1, m.2)

@[simp] theorem fields?_objectOf (html : Bool) (ms : List (String × Cst)) :
    fields? (objectOf html ms) = some ms := by
  simp [fields?, objectOf, Function.comp_def]

theorem strip_objectOf (html : Bool) (h : ∀ m ∈ ms, m.2.strip = m.2) :
    (objectOf html ms).strip = objectOf html ms := by
  rw [objectOf, Cst.strip_object, List.map_map]
  congr 1
  exact List.map_congr_left fun m hm => by simp only [Function.comp_apply, h m hm]

def readStruct (fold : Bool) : Cst → S.Record → Option S.Record
  | .null, r => some r
  | v, r => (fields? v).bind fun ms => S.readMembers fold ms r

theorem readStruct_objectOf (fold html : Bool) (ms : List (String × Cst)) (r : S.Record) :
    S.readStruct fold (objectOf html ms) r = S.readMembers fold ms r := by
  have hfields := fields?_objectOf html ms
  have hne := Cst.object_ne_null (ms.map fun m => (quote html m.1, m.2))
  change objectOf html ms ≠ .null at hne
  generalize objectOf html ms = v at hfields hne
  cases v with
  | null => exact absurd rfl hne
  | _ => simp only [readStruct, hfields, Option.bind_some]

theorem readStruct_forall {P : (i : ι) → S.Value i → Prop}
    (hread : ∀ i v x y, P i x → (S.reader i).read v x = some y → P i y) {v : Cst} {r r' : S.Record}
    (h : S.readStruct fold v r = some r') (hr : ∀ i, P i (r i)) :
    ∀ i, P i (r' i) := by
  unfold readStruct at h
  split at h
  · cases h
    exact hr
  · obtain ⟨ms, -, hms⟩ := Option.bind_eq_some_iff.mp h
    exact S.readMembers_forall hread hms hr

/-- The same for one field. -/
theorem readStruct_field {P : S.Value i → Prop}
    (hread : ∀ v x y, P x → (S.reader i).read v x = some y → P y) {v : Cst} {r r' : S.Record}
    (h : S.readStruct fold v r = some r') (hr : P (r i)) : P (r' i) := by
  refine S.readStruct_forall (P := fun j x => ∀ hj : j = i, P (hj ▸ x)) ?_ h ?_ i rfl
  · rintro j v x y hx hy rfl
    exact hread v x y (hx rfl) hy
  · rintro j rfl
    exact hr

/-! ## Two ways of reading -/

/-- The same fields, read and left out in other ways. -/
@[reducible] def withReader (reader : (i : ι) → Reader (S.Value i))
    (omitted : (i : ι) → S.Value i → Bool) : Schema ι :=
  { S with reader := reader, omitted := omitted }

section Map
variable {reader : (i : ι) → Reader (S.Value i)} {omitted : (i : ι) → S.Value i → Bool}
variable {f : (i : ι) → S.Value i → S.Value i}
variable (hread : ∀ i v x, (S.reader i).read v (f i x) = ((reader i).read v x).map (f i))
include hread

theorem readMember_map (fold : Bool) (r : S.Record) (m : String × Cst) :
    S.readMember fold (fun i => f i (r i)) m =
      ((S.withReader reader omitted).readMember fold r m).map fun r i => f i (r i) := by
  have hfield : (S.withReader reader omitted).field? fold m.1 = S.field? fold m.1 := rfl
  unfold readMember
  rw [hfield]
  cases S.field? fold m.1 with
  | none => rfl
  | some i =>
    dsimp only
    rw [hread, Option.map_map, Option.map_map]
    apply congrArg (fun g => Option.map g _)
    funext x j
    exact (Function.apply_update f r i x j).symm

/-- Fields that are read alike up to a change of values make structs that are. -/
theorem readMembers_map (fold : Bool) (ms : List (String × Cst)) (r : S.Record) :
    S.readMembers fold ms (fun i => f i (r i)) =
      ((S.withReader reader omitted).readMembers fold ms r).map fun r i => f i (r i) := by
  induction ms generalizing r with
  | nil => rfl
  | cons m ms ih =>
    calc S.readMembers fold (m :: ms) (fun i => f i (r i))
        = (S.readMember fold (fun i => f i (r i)) m).bind (S.readMembers fold ms) :=
          S.readMembers_cons ..
      _ = ((S.withReader reader omitted).readMember fold r m).bind
            fun r => S.readMembers fold ms fun i => f i (r i) := by
          rw [S.readMember_map hread, Option.bind_map]
          rfl
      _ = (((S.withReader reader omitted).readMember fold r m).bind
            ((S.withReader reader omitted).readMembers fold ms)).map fun r i => f i (r i) := by
          rw [Option.map_bind, funext ih]
          rfl
      _ = ((S.withReader reader omitted).readMembers fold (m :: ms) r).map fun r i => f i (r i) :=
          congrArg _ ((S.withReader reader omitted).readMembers_cons ..).symm

theorem readStruct_map (fold : Bool) (v : Cst) (r : S.Record) :
    S.readStruct fold v (fun i => f i (r i)) =
      ((S.withReader reader omitted).readStruct fold v r).map fun r i => f i (r i) := by
  cases v with
  | null => rfl
  | _ =>
    simp only [readStruct, Option.map_bind]
    apply congrArg (Option.bind _)
    funext ms
    exact S.readMembers_map hread fold ms r

end Map

/-- Every member has a field, as `DisallowUnknownFields` demands. -/
def strict (fold : Bool) (v : Cst) : Bool :=
  match fields? v with
  | some ms => ms.all fun m => (S.field? fold m.1).isSome
  | none => true

omit [DecidableEq ι] in
/-- What is written has no unknown members. -/
theorem strict_objectOf (h : S.members w r = .ok ms) (fold html : Bool) :
    S.strict fold (objectOf html ms) = true := by
  rw [strict, fields?_objectOf]
  apply List.all_eq_true.mpr
  intro m hm
  obtain ⟨i, hi⟩ := S.known_iff.mp (S.known_of_mem_writeFields h hm)
  rw [← hi, S.field?_name]
  rfl

/-- A struct without methods of its own. -/
def structReader (fold : Bool) : Reader S.Record := ⟨S.zero, S.readStruct fold⟩

def writeStruct (html : Bool) (w : S.Writer ε) (r : S.Record) : Except ε Cst :=
  (S.members w r).map (objectOf html)

omit [DecidableEq ι] in
/-- When a struct is written, each field that is not left out is. -/
theorem written_of_writeStruct {html : Bool} {v : Cst} (h : S.writeStruct html w r = .ok v)
    (homit : S.omitted i (r i) = false) :
    ∃ u, w i (r i) = .ok u := by
  obtain ⟨ms, hms, -⟩ := map_eq_ok.mp h
  obtain ⟨xs, hxs⟩ := S.writeField_of_writeFields hms (S.complete i)
  rw [writeField, homit] at hxs
  obtain ⟨u, hu, -⟩ := map_eq_ok.mp hxs
  exact ⟨u, hu⟩

theorem back_struct {back : (i : ι) → Option (S.Value i)} (h : ∀ i, S.FieldBack w r i (back i))
    (fold html : Bool) :
    (S.structReader fold).Back (S.writeStruct html w r) (S.collect back S.order S.zero) := by
  obtain ⟨ms, hms, hstrip, hread⟩ := S.readMembers_members h fold
  refine ⟨objectOf html ms, congrArg (Except.map (objectOf html)) hms,
    strip_objectOf html hstrip, ?_⟩
  rw [← hread]
  exact S.readStruct_objectOf fold html ms S.zero

end Schema

/-! ## Values without their text -/

def Label.key : {k : Kind} → Label k → String
  | _, .item => ""
  | _, .member key => unquote key.name

mutual

/-- The value of a text. -/
def Cst.json : Cst → GoJson.Json
  | .null => .null
  | .bool b => .bool b
  | .num n => .num (String.ofList (byteChars n.text))
  | .str ps => .str (unquote ps)
  | .empty .array _ => .arr []
  | .empty .object _ => .obj []
  | .node .array es => .arr (es.jsons.map Prod.snd)
  | .node .object es => .obj es.jsons

/-- The values under their keys; those of an array have none. -/
def Elems.jsons : {k : Kind} → Elems k → List (String × GoJson.Json)
  | _, .one _ label v _ => [(label.key, v.json)]
  | _, .cons _ label v _ rest => (label.key, v.json) :: rest.jsons

end

theorem Elems.jsons_ofList {k : Kind} (x : Label k × Cst) (xs : List (Label k × Cst)) :
    (Elems.ofList x xs).jsons = (x :: xs).map fun y => (y.1.key, y.2.json) := by
  induction xs generalizing x with
  | nil => rfl
  | cons y ys ih =>
    rw [Elems.ofList, Elems.jsons, ih]
    rfl

theorem Schema.json_objectOf (html : Bool) (ms : List (String × Cst)) :
    (Schema.objectOf html ms).json = .obj (ms.map fun m => (m.1, m.2.json)) := by
  cases ms with
  | nil => rfl
  | cons m ms =>
    simp only [Schema.objectOf, Cst.object, List.map_cons, Cst.ofEntries, Cst.json,
      Elems.jsons_ofList, List.map_map, Function.comp_def, Label.key, unquote_quote]

end Rdq.Foundation.JsonText
