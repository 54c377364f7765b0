import Mathlib.Data.List.Basic
import Mathlib.Tactic.Common

/-!
# Routing by `net/http.ServeMux`

How the mux of Go 1.22 finds the handler of a request. It walks the escaped path
segment by segment: a segment is unescaped and tried as a literal first, then as
a wildcard, and last the rest of the path goes to a pattern that ends in a slash.
Patterns with the request's method come before those without one, and a `GET`
pattern also takes `HEAD`.

## Implementation notes

A character of an escaped path is written plainly or percent-encoded; a plain
slash separates segments and so stands in none. A path that ends in a slash has
an empty last segment, which the mux presents as the segment `/`. Host patterns
are left out.
-/

namespace Rdq.Foundation.ServeMux

inductive Method
  | get
  | head
  | post
  | put
  | delete
  | connect
  | other (name : String)
deriving DecidableEq, Repr

/-- A character of an escaped path. -/
inductive PathChar
  | plain (c : Char)
  | encoded (c : Char)
deriving DecidableEq, Repr

def PathChar.char : PathChar → Char
  | .plain c => c
  | .encoded c => c

abbrev Segment := List PathChar

/-- `pathUnescape` of a segment. -/
def unescape (s : Segment) : List Char := s.map PathChar.char

/-- A path as it stands in the request line, cut at its slashes. -/
structure EscapedPath where
  segments : List Segment
  nonempty : segments ≠ []
  noSlash : ∀ s ∈ segments, PathChar.plain '/' ∉ s

namespace EscapedPath
variable (p : EscapedPath)

def texts : List (List Char) := p.segments.map unescape

/-- The decoded path, `URL.Path`. -/
def path : List Char := p.texts.flatMap ('/' :: ·)

/-- The path ends in a slash. -/
def trailing : Bool := p.segments.getLast? = some []

/-- `cleanPath` changes nothing: no empty segment but the last, and no dots. -/
def clean : Bool :=
  p.segments.dropLast.all (· ≠ []) &&
    p.segments.all fun s => s ≠ [.plain '.'] && s ≠ [.plain '.', .plain '.']

/-- The path with a slash behind it. -/
def withSlash : EscapedPath where
  segments := p.segments ++ [[]]
  nonempty := by simp
  noSlash := by
    intro s hs
    rcases List.mem_append.mp hs with h | h
    · exact p.noSlash s h
    · rw [List.mem_singleton.mp h]
      simp

end EscapedPath

/-- What `firstSegment` returns along a path. -/
def segmentKeys : List Segment → List (List Char)
  | [] => []
  | [s] => if s = [] then [['/']] else [unescape s]
  | s :: rest => unescape s :: segmentKeys rest

theorem length_segmentKeys (l : List Segment) : (segmentKeys l).length = l.length := by
  fun_induction segmentKeys l with
  | case1 => rfl
  | case2 => rfl
  | case3 => rfl
  | case4 s rest hrest ih => simp [ih]

theorem segmentKeys_ne_nil {l : List Segment} (h : l ≠ []) : segmentKeys l ≠ [] := by
  intro hnil
  have hlen := length_segmentKeys l
  rw [hnil] at hlen
  exact h (List.eq_nil_of_length_eq_zero hlen.symm)

/-- The mux sees the texts of the segments, unless the path ends in a slash. -/
theorem segmentKeys_eq {l : List Segment} (h : (segmentKeys l).getLast? ≠ some ['/']) :
    segmentKeys l = l.map unescape := by
  fun_induction segmentKeys l with
  | case1 => rfl
  | case2 => simp at h
  | case3 s hs => rfl
  | case4 s rest hrest ih =>
    rw [List.map_cons, ih]
    rwa [List.getLast?_cons_of_ne_nil (segmentKeys_ne_nil hrest)] at h

/-- Nor does it end in a slash when its last segment has a text. -/
theorem segmentKeys_eq_of_last {l : List Segment} (h : (l.map unescape).getLast? ≠ some []) :
    segmentKeys l = l.map unescape := by
  fun_induction segmentKeys l with
  | case1 => rfl
  | case2 => simp [unescape] at h
  | case3 s hs => rfl
  | case4 s rest hrest ih =>
    rw [List.map_cons, ih]
    rwa [List.map_cons, List.getLast?_cons_of_ne_nil (by simpa using hrest)] at h

/-- The mux never sees an empty segment at the end of a path. -/
theorem getLast?_segmentKeys_ne (l : List Segment) : (segmentKeys l).getLast? ≠ some [] := by
  fun_induction segmentKeys l with
  | case1 => simp
  | case2 => simp
  | case3 s hs => simpa [unescape] using hs
  | case4 s rest hrest ih =>
    rwa [List.getLast?_cons_of_ne_nil (segmentKeys_ne_nil hrest)]

/-- Before the last segment the mux sees the texts. -/
theorem segmentKeys_cons_cons {l : List Segment} {a b : List Char} {keys : List (List Char)}
    (h : segmentKeys l = a :: b :: keys) :
    ∃ s l', l = s :: l' ∧ unescape s = a ∧ segmentKeys l' = b :: keys := by
  match l with
  | [] => cases h
  | [s] =>
    have hlen := congrArg List.length h
    rw [length_segmentKeys] at hlen
    simp at hlen
  | s :: t :: rest =>
    obtain ⟨hs, hrest⟩ := List.cons.inj h
    exact ⟨s, t :: rest, rfl, hs, hrest⟩

section Patterns
variable {ρ : Type*}

inductive PatternSegment
  | literal (text : List Char)
  | wildcard
  /-- The trailing slash of a pattern: it takes the rest of the path. -/
  | rest
deriving DecidableEq, Repr

structure Pattern (ρ : Type*) where
  method : Option Method
  segments : List PatternSegment
  handler : ρ

/-- A match: its handler, the values of the wildcards and, if the pattern ends in
a slash, how many segments of the path it took. -/
structure Found (ρ : Type*) where
  handler : ρ
  values : List (List Char)
  taken : Option Nat

/-- The patterns whose next segment is `x`, behind it. -/
def advance (x : PatternSegment) (ps : List (List PatternSegment × ρ)) :
    List (List PatternSegment × ρ) :=
  ps.filterMap fun p =>
    match p.1 with
    | y :: rest => if y = x then some (rest, p.2) else none
    | [] => none

/-- `routingNode.matchPath` at the node of the patterns `ps`. -/
def matchPath (ps : List (List PatternSegment × ρ)) : List (List Char) → Option (Found ρ)
  | [] => (ps.find? fun p => p.1 = []).map fun p => ⟨p.2, [], none⟩
  | key :: keys =>
    (matchPath (advance (.literal key) ps) keys).or <|
      (if key = ['/'] then none
        else (matchPath (advance .wildcard ps) keys).map fun f =>
          { f with values := key :: f.values }).or <|
      ((advance .rest ps).head?).map fun p => ⟨p.2, [], some (keys.length + 1)⟩

/-- The patterns registered for a method. -/
def registered (method : Option Method) (ps : List (Pattern ρ)) :
    List (List PatternSegment × ρ) :=
  (ps.filter (·.method = method)).map fun p => (p.segments, p.handler)

/-- `routingNode.matchMethodAndPath`. -/
def matchMethodAndPath (ps : List (Pattern ρ)) (method : Method) (keys : List (List Char)) :
    Option (Found ρ) :=
  (matchPath (registered (some method) ps) keys).or <|
    (if method = .head then matchPath (registered (some .get) ps) keys else none).or <|
    matchPath (registered none ps) keys

/-- `exactMatch`: a slash at the end of the pattern took at most that of the path. -/
def exactMatch (p : EscapedPath) (found : Option (Found ρ)) : Bool :=
  match found with
  | none => false
  | some f => f.taken = none || (p.trailing && f.taken = some 1)

/-- What the mux does with a request. -/
inductive Dispatch (ρ : Type*)
  | handler (h : ρ) (values : List (List Char))
  | redirect
  /-- The mux's own 404 or 405. -/
  | unmatched

/-- `ServeMux.findHandler`. -/
def dispatch (ps : List (Pattern ρ)) (method : Method) (p : EscapedPath) : Dispatch ρ :=
  if method ≠ .connect ∧ p.clean = false then .redirect
  else
    let found := matchMethodAndPath ps method (segmentKeys p.segments)
    if exactMatch p found = false ∧ p.trailing = false ∧
        exactMatch p.withSlash
          (matchMethodAndPath ps method (segmentKeys p.withSlash.segments)) = true then .redirect
    else
      match found with
      | some f => .handler f.handler f.values
      | none => .unmatched

/-- How a path fits a pattern, with the values of the wildcards. -/
inductive Fits : List PatternSegment → List (List Char) → List (List Char) → Prop
  | nil : Fits [] [] []
  | literal {ps keys values} (text : List Char) (h : Fits ps keys values) :
      Fits (.literal text :: ps) (text :: keys) values
  | wildcard {ps keys values} {key : List Char} (hkey : key ≠ ['/']) (h : Fits ps keys values) :
      Fits (.wildcard :: ps) (key :: keys) (key :: values)
  | rest {ps} (key : List Char) (keys : List (List Char)) : Fits (.rest :: ps) (key :: keys) []

variable {keys values : List (List Char)} {ps : List (List PatternSegment × ρ)}

theorem Fits.of_nil (h : Fits [] keys values) :
    keys = [] ∧ values = [] := by
  cases h
  exact ⟨rfl, rfl⟩

theorem Fits.of_literal {text : List Char} {ps : List PatternSegment}
    (h : Fits (.literal text :: ps) keys values) :
    ∃ rest, keys = text :: rest ∧ Fits ps rest values := by
  cases h with
  | literal _ h => exact ⟨_, rfl, h⟩

theorem Fits.of_wildcard {ps : List PatternSegment} (h : Fits (.wildcard :: ps) keys values) :
    ∃ key rest vs, keys = key :: rest ∧ values = key :: vs ∧ key ≠ ['/'] ∧ Fits ps rest vs := by
  cases h with
  | wildcard hkey h => exact ⟨_, _, _, rfl, rfl, hkey, h⟩

theorem Fits.of_rest {ps : List PatternSegment} (h : Fits (.rest :: ps) keys values) :
    ∃ key rest, keys = key :: rest ∧ values = [] := by
  cases h with
  | rest key rest => exact ⟨key, rest, rfl, rfl⟩

theorem mem_advance {x : PatternSegment} {rest : List PatternSegment} {r : ρ} :
    (rest, r) ∈ advance x ps ↔ (x :: rest, r) ∈ ps := by
  unfold advance
  rw [List.mem_filterMap]
  constructor
  · rintro ⟨⟨segs, r'⟩, hmem, h⟩
    cases segs with
    | nil => cases h
    | cons y segs =>
      simp only at h
      split at h
      · rename_i hy
        cases h
        rwa [← hy]
      · cases h
  · intro h
    exact ⟨_, h, by simp⟩

/-- The mux finds only patterns that fit. -/
theorem fits_of_matchPath {keys : List (List Char)} {f : Found ρ} (h : matchPath ps keys = some f) :
    ∃ segs, (segs, f.handler) ∈ ps ∧ Fits segs keys f.values := by
  induction keys generalizing ps f with
  | nil =>
    obtain ⟨⟨segs, r⟩, hfind, rfl⟩ := Option.map_eq_some_iff.mp h
    have hsegs : segs = [] := by simpa using List.find?_some hfind
    subst hsegs
    exact ⟨[], List.mem_of_find?_eq_some hfind, .nil⟩
  | cons key keys ih =>
    unfold matchPath at h
    rcases Option.or_eq_some_iff.mp h with h | ⟨_, h⟩
    · obtain ⟨segs, hmem, hfits⟩ := ih h
      exact ⟨_, mem_advance.mp hmem, .literal key hfits⟩
    · rcases Option.or_eq_some_iff.mp h with h | ⟨_, h⟩
      · split at h
        · cases h
        · rename_i hkey
          obtain ⟨g, hg, rfl⟩ := Option.map_eq_some_iff.mp h
          obtain ⟨segs, hmem, hfits⟩ := ih hg
          exact ⟨_, mem_advance.mp hmem, .wildcard hkey hfits⟩
      · obtain ⟨⟨segs, r⟩, hhead, rfl⟩ := Option.map_eq_some_iff.mp h
        exact ⟨_, mem_advance.mp (List.mem_of_mem_head? hhead), .rest key keys⟩

theorem matchPath_literal {key : List Char} {keys : List (List Char)} {f : Found ρ}
    (h : matchPath (advance (.literal key) ps) keys = some f) :
    matchPath ps (key :: keys) = some f := by
  rw [matchPath, h, Option.some_or]

theorem matchPath_wildcard {key : List Char} {r : ρ} {taken : Option Nat} (hkey : key ≠ ['/'])
    (hlit : matchPath (advance (.literal key) ps) keys = none)
    (h : matchPath (advance .wildcard ps) keys = some ⟨r, values, taken⟩) :
    matchPath ps (key :: keys) = some ⟨r, key :: values, taken⟩ := by
  rw [matchPath, hlit, Option.none_or, if_neg hkey, h]
  rfl

/-- The method of a pattern takes a request's method. -/
def Takes (registered : Option Method) (method : Method) : Prop :=
  registered = none ∨ registered = some method ∨ (registered = some .get ∧ method = .head)

theorem fits_of_registered {ps : List (Pattern ρ)} {m : Option Method} {keys : List (List Char)}
    {f : Found ρ} (h : matchPath (registered m ps) keys = some f) :
    ∃ pat ∈ ps, pat.handler = f.handler ∧ pat.method = m ∧ Fits pat.segments keys f.values := by
  obtain ⟨segs, hmem, hfits⟩ := fits_of_matchPath h
  obtain ⟨pat, hpat, heq⟩ := List.mem_map.mp hmem
  obtain ⟨hpat, hm⟩ := List.mem_filter.mp hpat
  obtain ⟨rfl, hh⟩ := Prod.mk.inj heq
  exact ⟨pat, hpat, hh, by simpa using hm, hfits⟩

/-- A request is dispatched to a handler only by a pattern that takes its method
and fits its path. -/
theorem dispatch_handler {ps : List (Pattern ρ)} {method : Method} {p : EscapedPath} {h : ρ}
    {values : List (List Char)} (hd : dispatch ps method p = .handler h values) :
    ∃ pat ∈ ps, pat.handler = h ∧ Takes pat.method method ∧
      Fits pat.segments (segmentKeys p.segments) values ∧
      (method ≠ .connect → p.clean = true) := by
  unfold dispatch at hd
  split at hd
  · cases hd
  rename_i hclean
  have hclean : method ≠ .connect → p.clean = true := by
    intro hm
    by_contra hc
    exact hclean ⟨hm, by simpa using hc⟩
  dsimp only at hd
  split at hd
  · cases hd
  split at hd
  · rename_i f hf
    cases hd
    unfold matchMethodAndPath at hf
    rcases Option.or_eq_some_iff.mp hf with hf | ⟨_, hf⟩
    · obtain ⟨pat, hpat, hh, hm, hfits⟩ := fits_of_registered hf
      exact ⟨pat, hpat, hh, .inr (.inl hm), hfits, hclean⟩
    · rcases Option.or_eq_some_iff.mp hf with hf | ⟨_, hf⟩
      · split at hf
        · rename_i hhead
          obtain ⟨pat, hpat, hh, hm, hfits⟩ := fits_of_registered hf
          exact ⟨pat, hpat, hh, .inr (.inr ⟨hm, hhead⟩), hfits, hclean⟩
        · cases hf
      · obtain ⟨pat, hpat, hh, hm, hfits⟩ := fits_of_registered hf
        exact ⟨pat, hpat, hh, .inl hm, hfits, hclean⟩
  · cases hd

end Patterns

end Rdq.Foundation.ServeMux
