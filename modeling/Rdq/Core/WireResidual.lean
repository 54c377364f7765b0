import Rdq.Core.WireFields

/-!
# Unknown fields on the wire

An object with unknown fields behind its known ones: the text `appendResidual` makes,
what capturing the unknown fields of it gives, and what reading it into a struct does.
The known fields are read first. The unknown ones follow in key order, and those whose
key matches a field up to letter case are read into that field.
-/

namespace Rdq.Wire

open Foundation JsonText

/-- Every value of the map is JSON. -/
def ValuesValid (m : StringMap Bytes) : Prop :=
  ∀ x ∈ m.entries, (parse x.2).isSome = true

/-- The unknown fields as members of an object, without whitespace. -/
def residualMembers (m : StringMap Bytes) : List (String × Cst) :=
  m.entries.filterMap fun x => (parse x.2).map fun d => (x.1, d.value.strip)

/-- The unknown fields with their whitespace out. -/
def compactValues (m : StringMap Bytes) : StringMap Bytes := m.mapValues (passRaw id)

theorem passRaw_of_parse {text : Bytes} {d : Document} (h : parse text = some d) :
    passRaw id text = d.value.strip.text := by
  have hembed : embed id text = some d.value.strip := by rw [embed, h]; rfl
  simp only [passRaw, hembed]

theorem passRaw_of_invalid {post : Cst → Cst} {text : Bytes} (h : parse text = none) :
    passRaw post text = text := by
  have hembed : embed post text = none := by rw [embed, h]; rfl
  simp only [passRaw, hembed]

variable {m : StringMap Bytes}

/-- Members of valid values, one for each entry. -/
theorem residualMembers_eq (h : ValuesValid m) :
    ∃ f : String × Bytes → Cst, (∀ x ∈ m.entries, ∃ d, parse x.2 = some d ∧ f x = d.value.strip) ∧
      residualMembers m = m.entries.map fun x => (x.1, f x) := by
  refine ⟨fun x => ((parse x.2).map fun d => d.value.strip).getD .null, ?_, ?_⟩
  · intro x hx
    obtain ⟨d, hd⟩ := Option.isSome_iff_exists.mp (h x hx)
    exact ⟨d, hd, by simp only [hd, Option.map_some, Option.getD_some]⟩
  · unfold residualMembers
    rw [← List.filterMap_eq_map]
    apply List.filterMap_congr
    intro x hx
    obtain ⟨d, hd⟩ := Option.isSome_iff_exists.mp (h x hx)
    simp only [hd, Option.map_some, Option.getD_some, Function.comp_apply]

theorem strip_residualMembers {x : String × Cst} (hx : x ∈ residualMembers m) :
    x.2.strip = x.2 := by
  obtain ⟨y, -, hy⟩ := List.mem_filterMap.mp hx
  obtain ⟨d, -, rfl⟩ := Option.map_eq_some_iff.mp hy
  exact Cst.strip_strip _

/-- The members and their texts are those of the map. -/
theorem text_residualMembers (h : ValuesValid m) :
    (residualMembers m).map (fun x => (x.1, x.2.text)) = (compactValues m).entries := by
  obtain ⟨f, hf, heq⟩ := residualMembers_eq h
  rw [heq, List.map_map]
  apply List.map_congr_left
  intro x hx
  obtain ⟨d, hd, hfx⟩ := hf x hx
  simp only [Function.comp_apply, hfx, passRaw_of_parse hd]

/-- Whitespace in the values does not show in the members. -/
@[simp] theorem residualMembers_compactValues (m : StringMap Bytes) :
    residualMembers (compactValues m) = residualMembers m := by
  unfold residualMembers compactValues
  rw [StringMap.entries_mapValues, List.filterMap_map]
  apply List.filterMap_congr
  intro x hx
  cases h : parse x.2 with
  | none => simp only [Function.comp_apply, passRaw_of_invalid h, h]
  | some d =>
    simp only [Function.comp_apply, passRaw_of_parse h, parse_value, Option.map_some,
      Cst.strip_strip]

/-! ## The text -/

theorem residualPair_of_parse {x : String × Bytes} {d : Document} (h : parse x.2 = some d) :
    residualPair x = .ok (memberText (quote false x.1, d.value.strip)) := by
  have hcompact : compact x.2 = some d.value.strip.text := by rw [compact, h]; rfl
  simp only [residualPair, hcompact, memberText]

theorem mapM_residualPair (h : ValuesValid m) :
    m.entries.mapM residualPair =
      .ok ((residualMembers m).map fun x => memberText (quote false x.1, x.2)) := by
  unfold ValuesValid at h
  unfold residualMembers
  generalize m.entries = entries at h ⊢
  induction entries with
  | nil => rfl
  | cons x entries ih =>
    obtain ⟨hx, hrest⟩ := List.forall_mem_cons.mp h
    obtain ⟨d, hd⟩ := Option.isSome_iff_exists.mp hx
    rw [List.mapM_cons, residualPair_of_parse hd, ih hrest, List.filterMap_cons, hd]
    rfl

theorem joinPairs_false (pairs : List Bytes) :
    joinPairs false pairs = pairs.flatMap fun pair => ascii ',' :: pair := by
  induction pairs with
  | nil => rfl
  | cons pair pairs ih => simp [joinPairs, ih]

theorem length_text_objectOf {ms : List (String × Cst)} (hms : ms ≠ []) :
    (Schema.objectOf false ms).text.length ≠ 2 := by
  obtain ⟨m, ms, rfl⟩ := List.exists_cons_of_ne_nil hms
  have helems : ∀ (x : Label .object × Cst) (xs : List (Label .object × Cst)),
      (Elems.ofList x xs).text ≠ [] := by
    rintro ⟨⟨key⟩, v⟩ xs
    cases xs with
    | nil => simp [Elems.ofList, Elems.text, Label.text, strText]
    | cons y ys => simp [Elems.ofList, Elems.text, Label.text, strText]
  have hpos := List.length_pos_iff.mpr (helems (.member ⟨quote false m.1, .none, .none⟩, m.2)
    ((ms.map fun m => (quote false m.1, m.2)).map fun m => (.member ⟨m.1, .none, .none⟩, m.2)))
  simp only [Schema.objectOf, Cst.object, List.map_cons, Cst.ofEntries, Cst.text,
    List.length_cons, List.length_append, List.length_nil]
  omega

/-- The unknown fields become the last members of the object. -/
theorem appendResidual_objectOf {ms : List (String × Cst)} (hms : ms ≠ []) (h : ValuesValid m) :
    appendResidual (Schema.objectOf false ms).text m =
      .ok (Schema.objectOf false (ms ++ residualMembers m)).text := by
  unfold appendResidual
  split
  · rename_i hnil
    rw [residualMembers, hnil, List.filterMap_nil, List.append_nil]
  · have hne : ms.map (fun m => (quote false m.1, m.2)) ≠ [] := by simpa using hms
    rw [mapM_residualPair h, decide_eq_false (length_text_objectOf hms)]
    simp only [Schema.objectOf, List.map_append, Cst.text_object_append hne, joinPairs_false,
      bind, Except.bind, pure, Except.pure, List.flatMap_map]
    rfl

theorem embedResult_text {v : Cst} (h : v.strip = v) : embedResult (.ok v.text) = .ok v := by
  have hembed : embed id v.text = some v := (embed_text id v).trans (congrArg some h)
  simp only [embedResult, Except.bind, hembed]

/-! ## Reading -/

/-- Raw values are read as their texts. -/
theorem mapM_rawReader (xs : List (String × Cst)) :
    (xs.mapM fun x => (rawReader.read x.2 rawReader.zero).map fun y => (x.1, y)) =
      some (xs.map fun x => (x.1, x.2.text)) := by
  induction xs with
  | nil => rfl
  | cons x xs ih =>
    rw [List.mapM_cons, ih]
    rfl

section Reading

variable {ι ε : Type} (S : Schema ι)

/-- The unknown fields are captured as they were, but for whitespace. -/
theorem captureResidual_objectOf {ms : List (String × Cst)} (hms : ∀ m ∈ ms, S.known m.1 = true)
    (hvalid : ValuesValid m) (hkeys : ∀ x ∈ m.entries, S.known x.1 = false) :
    captureResidual S.known (Schema.objectOf false (ms ++ residualMembers m)) =
      some (compactValues m) := by
  have hdrop : ((ms.map fun x => (x.1, x.2.text)).filter fun x => !S.known x.1) = [] := by
    apply List.filter_eq_nil_iff.mpr
    intro x hx
    obtain ⟨y, hy, rfl⟩ := List.mem_map.mp hx
    simp [hms y hy]
  have hkeep : ((compactValues m).entries.filter fun x => !S.known x.1) =
      (compactValues m).entries := by
    apply List.filter_eq_self.mpr
    intro x hx
    obtain ⟨y, hy, rfl⟩ := List.mem_map.mp hx
    simp [hkeys y hy]
  rw [captureResidual, readMap_objectOf, mapM_rawReader, Option.map_some, Option.map_some,
    StringMap.select_insertAll, List.map_append, List.filter_append, hdrop,
    text_residualMembers hvalid, hkeep, List.nil_append]
  exact congrArg some (StringMap.insertAll_entries (compactValues m))

variable [DecidableEq ι] {w : S.Writer ε}

/-- An object with unknown fields that was written: its text is that of one value without
whitespace, the known fields are read back and the unknown ones over them, and the unknown
fields are captured. -/
theorem read_written {r : S.Record} {back : (i : ι) → Option (S.Value i)}
    (hback : ∀ i, S.FieldBack w r i (back i)) (first : ι) (hfirst : S.order.head? = some first)
    (hwritten : S.omitted first (r first) = false) (hvalid : ValuesValid m)
    (hkeys : ∀ x ∈ m.entries, S.known x.1 = false) (fold : Bool) :
    ∃ ms v, S.members w r = .ok ms ∧
      appendResidual (Schema.objectOf false ms).text m = .ok v.text ∧ v.strip = v ∧
      S.readStruct fold v S.zero =
        (S.collect back S.order S.zero).bind (S.readMembers fold (residualMembers m)) ∧
      captureResidual S.known v = some (compactValues m) := by
  obtain ⟨ms, hms, hstrip, hread⟩ := S.readMembers_members hback fold
  have hne : ms ≠ [] := S.members_ne_nil hfirst hwritten hms
  have hknown : ∀ x ∈ ms, S.known x.1 = true := fun x hx => S.known_of_mem_writeFields hms hx
  refine ⟨ms, _, hms, appendResidual_objectOf hne hvalid, ?_, ?_,
    captureResidual_objectOf S hknown hvalid hkeys⟩
  · exact Schema.strip_objectOf false
      (List.forall_mem_append.mpr ⟨hstrip, fun x hx => strip_residualMembers hx⟩)
  · rw [S.readStruct_objectOf, S.readMembers_append, hread]

end Reading

end Rdq.Wire
