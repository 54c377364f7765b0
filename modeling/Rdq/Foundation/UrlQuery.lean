import Mathlib.Data.List.Nodup
import Rdq.Foundation.ByteText
import Rdq.Foundation.NetUrl

/-!
# Query strings

`url.QueryEscape`, `url.Values.Encode` and `url.ParseQuery` of Go. What is encoded is
parsed back. A pair that cannot be parsed is dropped.
-/

namespace Rdq.Foundation.UrlQuery

open JsonText NetUrl

/-! ## Components -/

/-- The bytes that stand for themselves. -/
def unreserved (b : UInt8) : Bool :=
  isLetter b || isDigit b || b == ascii '-' || b == ascii '_' || b == ascii '.' || b == ascii '~'

def escapeQueryByte (b : UInt8) : Bytes :=
  if b = ascii ' ' then [ascii '+']
  else if unreserved b then [b]
  else [ascii '%', hexDigit (b.toNat / 16), hexDigit (b.toNat % 16)]

def queryEscape (text : Bytes) : Bytes := text.flatMap escapeQueryByte

def plusToSpace (b : UInt8) : UInt8 := if b = ascii '+' then ascii ' ' else b

def queryUnescape (text : Bytes) : Except Fault Bytes := unescape (text.map plusToSpace)

/-- The byte separates nothing in a query. -/
def Inert (b : UInt8) : Prop := b ≠ ascii '&' ∧ b ≠ ascii ';' ∧ b ≠ ascii '='

instance (b : UInt8) : Decidable (Inert b) := inferInstanceAs (Decidable (_ ∧ _ ∧ _))

theorem inert_escapeQueryByte (b : UInt8) : (escapeQueryByte b).all (decide <| Inert ·) = true := by
  revert b
  apply ByteText.forall_byte
  decide +kernel

theorem inert_of_mem_queryEscape {text : Bytes} {b : UInt8} (h : b ∈ queryEscape text) :
    Inert b := by
  obtain ⟨c, -, hc⟩ := List.mem_flatMap.mp h
  exact of_decide_eq_true (List.all_eq_true.mp (inert_escapeQueryByte c) b hc)

/-- A byte that is copied is neither a plus nor a percent sign. -/
theorem plain_of_unreserved (b : UInt8) :
    unreserved b = true → plusToSpace b = b ∧ b ≠ ascii '%' := by
  revert b
  apply ByteText.forall_byte
  decide +kernel

theorem plusToSpace_hexDigit {n : Nat} (h : n < 16) : plusToSpace (hexDigit n) = hexDigit n := by
  have htable : ∀ n < 16, plusToSpace (hexDigit n) = hexDigit n := by decide
  exact htable n h

theorem queryUnescape_escapeQueryByte (b : UInt8) (rest : Bytes) :
    queryUnescape (escapeQueryByte b ++ rest) = (queryUnescape rest).map (b :: ·) := by
  unfold queryUnescape escapeQueryByte
  split
  · rename_i hb
    rw [hb]
    exact unescape_cons (by decide) _
  · split
    · rename_i hfree
      obtain ⟨hplus, hpercent⟩ := plain_of_unreserved b hfree
      rw [List.singleton_append, List.map_cons, hplus]
      exact unescape_cons hpercent _
    · have hhigh : b.toNat / 16 < 16 := by
        have hlt := b.toNat_lt
        omega
      have hlow : b.toNat % 16 < 16 := Nat.mod_lt _ (by decide)
      have hback : UInt8.ofNat (16 * (b.toNat / 16) + b.toNat % 16) = b := by
        rw [Nat.div_add_mod, UInt8.ofNat_toNat]
      simp only [List.cons_append, List.nil_append, List.map_cons, plusToSpace_hexDigit hhigh,
        plusToSpace_hexDigit hlow]
      change unescape (ascii '%' :: _ :: _ :: rest.map plusToSpace) = _
      rw [unescape, if_pos rfl, hexValue?_hexDigit hhigh, hexValue?_hexDigit hlow]
      simp only [hback]

theorem queryUnescape_queryEscape (text : Bytes) : queryUnescape (queryEscape text) = .ok text := by
  induction text with
  | nil => rfl
  | cons b text ih =>
    have hcons : queryEscape (b :: text) = escapeQueryByte b ++ queryEscape text := rfl
    rw [hcons, queryUnescape_escapeQueryByte, ih]
    rfl

/-! ## Queries -/

def encodePair (pair : Bytes × Bytes) : Bytes :=
  queryEscape pair.1 ++ ascii '=' :: queryEscape pair.2

/-- `Values.Encode`, the pairs in key order. -/
def encodeQuery : List (Bytes × Bytes) → Bytes
  | [] => []
  | [pair] => encodePair pair
  | pair :: pairs => encodePair pair ++ ascii '&' :: encodeQuery pairs

def parsePair (piece : Bytes) : Option (Bytes × Bytes) :=
  if ascii ';' ∈ piece ∨ piece = [] then none
  else
    let (key, value) := (ByteText.cut (ascii '=') piece).getD (piece, [])
    match queryUnescape key, queryUnescape value with
    | .ok key, .ok value => some (key, value)
    | _, _ => none

/-- `ParseQuery`, whose error the callers ignore. -/
def parseQuery (query : Bytes) : List (Bytes × Bytes) :=
  (ByteText.split (ascii '&') query).filterMap parsePair

/-- `Values.Get`: the first value of a key, and the empty text without one. -/
def get (values : List (Bytes × Bytes)) (key : Bytes) : Bytes :=
  ((values.find? fun pair => pair.1 = key).map Prod.snd).getD []

theorem inert_or_of_mem_encodePair {pair : Bytes × Bytes} {b : UInt8} (h : b ∈ encodePair pair) :
    Inert b ∨ b = ascii '=' := by
  rcases List.mem_append.mp h with h | h
  · exact Or.inl (inert_of_mem_queryEscape h)
  · rcases List.mem_cons.mp h with rfl | h
    · exact Or.inr rfl
    · exact Or.inl (inert_of_mem_queryEscape h)

theorem parsePair_encodePair (pair : Bytes × Bytes) : parsePair (encodePair pair) = some pair := by
  have hkey : ascii '=' ∉ queryEscape pair.1 := fun h => (inert_of_mem_queryEscape h).2.2 rfl
  have hcut : ByteText.cut (ascii '=') (encodePair pair) =
      some (queryEscape pair.1, queryEscape pair.2) := ByteText.cut_append_cons _ _ hkey
  have hpiece : ¬(ascii ';' ∈ encodePair pair ∨ encodePair pair = []) := by
    rintro (h | h)
    · rcases inert_or_of_mem_encodePair h with h | h
      · exact h.2.1 rfl
      · exact absurd h (by decide)
    · exact List.append_ne_nil_of_right_ne_nil _ (List.cons_ne_nil _ _) h
  simp only [parsePair, if_neg hpiece, hcut, Option.getD_some, queryUnescape_queryEscape]

/-- What is encoded is parsed back. -/
theorem parseQuery_encodeQuery (pairs : List (Bytes × Bytes)) :
    parseQuery (encodeQuery pairs) = pairs := by
  have hamp (pair : Bytes × Bytes) : ascii '&' ∉ encodePair pair := by
    intro h
    rcases inert_or_of_mem_encodePair h with h | h
    · exact h.1 rfl
    · exact absurd h (by decide)
  induction pairs with
  | nil => decide
  | cons pair pairs ih =>
    cases pairs with
    | nil =>
      rw [parseQuery, encodeQuery, ByteText.split_of_notMem (hamp pair)]
      simp only [List.filterMap_cons, parsePair_encodePair, List.filterMap_nil]
    | cons next pairs =>
      have hcons : encodeQuery (pair :: next :: pairs) =
          encodePair pair ++ ascii '&' :: encodeQuery (next :: pairs) := rfl
      unfold parseQuery at ih ⊢
      rw [hcons, ByteText.split_append_cons _ _ (hamp pair), List.filterMap_cons,
        parsePair_encodePair, ih]

/-- An empty value may be left out: it is what a missing key gives. -/
theorem get_filter_of_mem {values : List (Bytes × Bytes)} (hkeys : (values.map Prod.fst).Nodup)
    {key value : Bytes} (h : (key, value) ∈ values) :
    get (values.filter fun pair => pair.2 ≠ []) key = value := by
  have hunique : ∀ pair ∈ values.filter (fun pair => pair.2 ≠ []), pair.1 = key →
      pair = (key, value) := by
    intro pair hpair hkey
    exact List.inj_on_of_nodup_map hkeys (List.mem_of_mem_filter hpair) h hkey
  unfold get
  cases hfind : (values.filter fun pair => pair.2 ≠ []).find? fun pair => pair.1 = key with
  | some pair =>
    have hkey : pair.1 = key := by simpa using List.find?_some hfind
    rw [hunique pair (List.mem_of_find?_eq_some hfind) hkey]
    rfl
  | none =>
    by_contra hne
    have hvalue : value ≠ [] := fun hnil => hne (by rw [hnil]; rfl)
    have hmem : (key, value) ∈ values.filter fun pair => pair.2 ≠ [] :=
      List.mem_filter.mpr ⟨h, by simpa using hvalue⟩
    have hnone := List.find?_eq_none.mp hfind _ hmem
    simp at hnone

end Rdq.Foundation.UrlQuery
