import Mathlib.Data.List.Infix
import Rdq.Foundation.DotSegments
import Rdq.Foundation.Fallible
import Rdq.Foundation.NetUrl

/-!
# The callback allowlist

`server/config/server.go`: the list of base URLs that callbacks may go to. An entry
fixes a host, and may fix a scheme and a path. A URL is allowed when an entry agrees with
it; the path is compared as text, before its dot segments are resolved.

## Implementation notes

Texts are bytes. The functions that depend on Unicode tables, `TrimSpace` and `ToLower`,
and the host rule of `net/url` are parameters.
-/

namespace Rdq.Server

open Foundation JsonText NetUrl DotSegments

structure UrlText where
  rule : HostRule
  trimSpace : Bytes → Bytes
  toLower : Bytes → Bytes

/-- One parsed rule. -/
structure AllowEntry where
  /-- Empty for any scheme. -/
  scheme : Bytes
  host : Bytes
  /-- Empty for any path. -/
  pathPrefix : Bytes
  raw : Bytes
deriving DecidableEq

inductive AllowlistError
  | emptyEntry
  | invalidUrl (raw : Bytes) (fault : Fault)
  | noHost (raw : Bytes)
deriving DecidableEq

/-- The text of the error, given how a text is quoted and a fault is printed. -/
def AllowlistError.text (quoted : Bytes → String) (printed : Fault → String) :
    AllowlistError → String
  | .emptyEntry => "server config: empty callback_allowlist entry"
  | .invalidUrl raw fault => "server config: callback_allowlist entry " ++ quoted raw ++
      " is not a valid URL: " ++ printed fault
  | .noHost raw => "server config: callback_allowlist entry " ++ quoted raw ++ " has no host"

def schemeMark : Bytes := [ascii ':', ascii '/', ascii '/']

/-- `strings.TrimSuffix` of one slash. -/
def trimSlash (p : Bytes) : Bytes := if p.getLast? = some slash then p.dropLast else p

variable (env : UrlText)

/-- One round of the loop of `ParseAllowlist`. -/
def parseEntry (raw : Bytes) : Except AllowlistError AllowEntry :=
  let e := env.trimSpace raw
  if e = [] then .error .emptyEntry
  else if schemeMark <:+: e then
    match parse env.rule e with
    | .error fault => .error (.invalidUrl raw fault)
    | .ok u =>
      if u.host = [] then .error (.noHost raw)
      else .ok ⟨env.toLower u.scheme, env.toLower u.host, trimSlash u.path, raw⟩
  else
    -- A bare host, read behind two slashes.
    match parse env.rule (slashSlash ++ e) with
    | .error _ => .error (.noHost raw)
    | .ok u =>
      if u.host = [] then .error (.noHost raw) else .ok ⟨[], env.toLower u.host, [], raw⟩

def parseAllowlist (entries : List Bytes) : Except AllowlistError (List AllowEntry) :=
  entries.mapM (parseEntry env)

def pathHasPrefix (path pathPrefix : Bytes) : Bool :=
  decide (pathPrefix <+: path) &&
    (match path.drop pathPrefix.length with
      | [] => true
      | b :: _ => b == slash)

/-- The tests of one entry in `Allows`. -/
def AllowEntry.covers (e : AllowEntry) (u : Url) : Bool :=
  (e.scheme = [] || e.scheme = env.toLower u.scheme) && e.host = env.toLower u.host &&
    (e.pathPrefix = [] || pathHasPrefix u.path e.pathPrefix)

def allows (entries : List AllowEntry) (raw : Bytes) : Bool :=
  match parse env.rule raw with
  | .error _ => false
  | .ok u => u.host ≠ [] && entries.any fun e => e.covers env u

/-! ## What the list is for -/

/-- The URL goes to the host of an entry, with its scheme and below its path. -/
def Confined (entries : List AllowEntry) (u : Url) : Prop :=
  ∃ e ∈ entries, e.host = env.toLower u.host ∧
    (e.scheme ≠ [] → e.scheme = env.toLower u.scheme) ∧
    (e.pathPrefix ≠ [] → Below e.pathPrefix (removeDotSegments u.path))

/-- Another entry allows every path that the entry allows, and all others. -/
def Unrestricted (entries : List AllowEntry) (e : AllowEntry) : Prop :=
  ∃ e' ∈ entries, e'.host = e.host ∧ (e'.scheme = [] ∨ e'.scheme = e.scheme) ∧
    (e'.pathPrefix = [] ∨ e'.pathPrefix = [slash])

theorem pathHasPrefix_iff {p pathPrefix : Bytes} : pathHasPrefix p pathPrefix = true ↔
    ∃ rest, p = pathPrefix ++ rest ∧ ∀ b ∈ rest.head?, b = slash := by
  unfold pathHasPrefix
  rw [Bool.and_eq_true, decide_eq_true_iff]
  constructor
  · rintro ⟨⟨rest, rfl⟩, hrest⟩
    refine ⟨rest, rfl, fun b hb => ?_⟩
    rw [List.drop_left] at hrest
    cases rest with
    | nil => cases hb
    | cons c rest =>
      cases hb
      exact beq_iff_eq.mp hrest
  · rintro ⟨rest, rfl, hrest⟩
    refine ⟨List.prefix_append _ _, ?_⟩
    rw [List.drop_left]
    cases rest with
    | nil => rfl
    | cons c rest => exact beq_iff_eq.mpr (hrest c rfl)

theorem below_of_pathHasPrefix {p pathPrefix : Bytes} (h : pathHasPrefix p pathPrefix = true) :
    Below pathPrefix p := by
  obtain ⟨rest, rfl, hrest⟩ := pathHasPrefix_iff.mp h
  cases rest with
  | nil => exact Or.inl (List.append_nil _)
  | cons b rest => exact Or.inr ⟨_, rfl, Or.inl (congrArg some (hrest b rfl))⟩

variable {env}
variable {al : List AllowEntry} {e : AllowEntry} {raw : Bytes} {u : Url}

theorem covers_iff : e.covers env u = true ↔
    (e.scheme ≠ [] → e.scheme = env.toLower u.scheme) ∧ e.host = env.toLower u.host ∧
      (e.pathPrefix ≠ [] → pathHasPrefix u.path e.pathPrefix = true) := by
  simp only [AllowEntry.covers, Bool.and_eq_true, Bool.or_eq_true, decide_eq_true_iff, and_assoc,
    or_iff_not_imp_left, ne_eq]

theorem allows_iff {entries : List AllowEntry} (h : parse env.rule raw = .ok u) :
    allows env entries raw = true ↔
      u.host ≠ [] ∧ ∃ e ∈ entries, e.covers env u = true := by
  simp only [allows, h, Bool.and_eq_true, decide_eq_true_iff, List.any_eq_true]

/-- An entry comes from a URL with its scheme and host; its path is none or starts with a
slash. -/
theorem parseEntry_spec (h : parseEntry env raw = .ok e) (hpath : e.pathPrefix ≠ []) :
    ∃ text u, parse env.rule text = .ok u ∧ u.host ≠ [] ∧
      e.scheme = env.toLower u.scheme ∧ e.host = env.toLower u.host ∧
      ∃ p, e.pathPrefix = slash :: p := by
  unfold parseEntry at h
  dsimp only at h
  split_ifs at h with hempty hmark
  · split at h
    · cases h
    · rename_i u hu
      split_ifs at h with hhost
      cases h
      refine ⟨_, u, hu, hhost, rfl, rfl, ?_⟩
      have hhead := head?_path hu hhost
      cases hp : u.path with
      | nil =>
        dsimp only at hpath
        rw [hp] at hpath
        exact absurd rfl hpath
      | cons b p =>
        rw [hp] at hhead
        have hb : b = slash := hhead b rfl
        dsimp only at hpath ⊢
        rw [hp, hb] at hpath
        rw [hb]
        unfold trimSlash at hpath ⊢
        split_ifs at hpath ⊢ with hlast
        · cases p with
          | nil => exact absurd rfl hpath
          | cons c p => exact ⟨_, rfl⟩
        · exact ⟨_, rfl⟩
  · split at h
    · cases h
    · split_ifs at h
      cases h
      exact absurd rfl hpath

/-! ## When the list confines -/

theorem confined_of_unrestricted (h : ∀ e ∈ al, Unrestricted al e) (hu : parse env.rule raw = .ok u)
    (hallows : allows env al raw = true) :
    Confined env al u := by
  obtain ⟨-, e, he, hcovers⟩ := (allows_iff hu).mp hallows
  obtain ⟨hscheme, hhost, hpath⟩ := covers_iff.mp hcovers
  by_cases hempty : e.pathPrefix = []
  · exact ⟨e, he, hhost, hscheme, fun hne => absurd hempty hne⟩
  · obtain ⟨e', he', hhost', hscheme', hpath'⟩ := h e he
    refine ⟨e', he', hhost'.trans hhost, ?_, ?_⟩
    · intro hne
      have hsame := hscheme'.resolve_left hne
      rw [hsame] at hne ⊢
      exact hscheme hne
    · intro hne
      rw [hpath'.resolve_left hne]
      apply below_root
      intro hnil
      obtain ⟨rest, hsplit, -⟩ := pathHasPrefix_iff.mp (hpath hempty)
      rw [hnil] at hsplit
      exact hempty (List.append_eq_nil_iff.mp hsplit.symm).1

/-- A segment that is longer than every path of the list. -/
def longSegment (al : List AllowEntry) : Bytes :=
  List.replicate ((al.flatMap AllowEntry.pathPrefix).length + 1) (ascii 'a')

theorem slash_notMem_longSegment (al : List AllowEntry) : slash ∉ longSegment al := by
  intro hmem
  have heq := List.eq_of_mem_replicate hmem
  revert heq
  decide

theorem longSegment_plain (al : List AllowEntry) :
    longSegment al ≠ dot ∧ longSegment al ≠ dotDot := by
  have hhead : (longSegment al).head? = some (ascii 'a') := by
    rw [longSegment, List.replicate_succ]
    rfl
  constructor
  · intro heq
    rw [heq] at hhead
    revert hhead
    decide
  · intro heq
    rw [heq] at hhead
    revert hhead
    decide

theorem length_le_longSegment (he : e ∈ al) :
    e.pathPrefix.length ≤ (longSegment al).length := by
  have hle : e.pathPrefix.length ≤ (al.flatMap AllowEntry.pathPrefix).length := by
    induction al with
    | nil => cases he
    | cons x al ih =>
      rw [List.flatMap_cons, List.length_append]
      rcases List.mem_cons.mp he with rfl | he
      · exact Nat.le_add_right _ _
      · exact Nat.le_trans (ih he) (Nat.le_add_left _ _)
  rw [longSegment, List.length_replicate]
  omega

/-- An entry with a path that no other entry gives up allows a URL that is not confined:
the path climbs to the root and goes on elsewhere. -/
theorem unrestricted_of_confined {entries : List Bytes} (hal : parseAllowlist env entries = .ok al)
    (h : ∀ raw u, parse env.rule raw = .ok u → allows env al raw = true → Confined env al u)
    (he : e ∈ al) : Unrestricted al e := by
  by_cases hempty : e.pathPrefix = []
  · exact ⟨e, he, rfl, Or.inr rfl, Or.inl hempty⟩
  · obtain ⟨raw, -, hraw⟩ := mem_mapM_ok hal he
    obtain ⟨text, u, hu, hhost, hscheme, hhosts, p, hp⟩ := parseEntry_spec hraw hempty
    let climb := path (List.replicate (segments p).length dotDot ++ [longSegment al])
    have hclimb : climb ≠ [] ∧ ∀ b ∈ climb.head?, b = slash := by
      have hpath : ∀ ss, ss ≠ [] → path ss ≠ [] ∧ ∀ b ∈ (path ss).head?, b = slash := by
        intro ss hss
        obtain ⟨s, ss, rfl⟩ := List.exists_cons_of_ne_nil hss
        exact ⟨List.cons_ne_nil _ _, fun b hb => by cases hb; rfl⟩
      exact hpath _ (by simp)
    obtain ⟨raw', hraw'⟩ := exists_parse_path hu hhost (p := slash :: p ++ climb)
      (fun b hb => by cases hb; rfl)
    have hcovers : e.covers env ⟨u.scheme, u.host, slash :: p ++ climb⟩ = true := by
      refine covers_iff.mpr ⟨fun _ => hscheme, hhosts, fun _ => ?_⟩
      exact pathHasPrefix_iff.mpr ⟨climb, by rw [hp], hclimb.2⟩
    obtain ⟨e', he', hhost', hscheme', hpath'⟩ := h raw' _ hraw'
      ((allows_iff hraw').mpr ⟨hhost, e, he, hcovers⟩)
    refine ⟨e', he', hhost'.trans hhosts.symm, ?_, ?_⟩
    · by_cases hne : e'.scheme = []
      · exact Or.inl hne
      · exact Or.inr ((hscheme' hne).trans hscheme.symm)
    · by_cases hne : e'.pathPrefix = []
      · exact Or.inl hne
      · have hbelow := hpath' hne
        rw [removeDotSegments_climb p (slash_notMem_longSegment al) (longSegment_plain al)]
          at hbelow
        exact eq_root_of_below (slash_notMem_longSegment al) (length_le_longSegment he') hbelow

/-- The segments of the path are no dots. -/
def NoDotSegments (u : Url) : Prop := ∀ s ∈ segments (u.path.drop 1), s ≠ dot ∧ s ≠ dotDot

theorem confined_of_noDotSegments (hu : parse env.rule raw = .ok u)
    (hallows : allows env al raw = true) (hdots : NoDotSegments u) : Confined env al u := by
  obtain ⟨hhost, e, he, hcovers⟩ := (allows_iff hu).mp hallows
  obtain ⟨hscheme, hhosts, hpath⟩ := covers_iff.mp hcovers
  refine ⟨e, he, hhosts, hscheme, fun hne => ?_⟩
  have hresolved : removeDotSegments u.path = u.path := by
    have hhead := head?_path hu hhost
    unfold NoDotSegments at hdots
    generalize u.path = q at hhead hdots
    cases q with
    | nil => rfl
    | cons b q =>
      rw [hhead b rfl]
      exact removeDotSegments_plain hdots
  rw [hresolved]
  exact below_of_pathHasPrefix (hpath hne)

/-- All URLs that a list allows are confined exactly when the paths in it restrict
nothing. A URL without dot segments is confined by every list that allows it. -/
theorem allowlist_confines_iff (env : UrlText) (entries : List Bytes) (al : List AllowEntry)
    (hal : parseAllowlist env entries = .ok al) :
    ((∀ raw u, parse env.rule raw = .ok u → allows env al raw = true → Confined env al u) ↔
      ∀ e ∈ al, Unrestricted al e) ∧
    ∀ raw u, parse env.rule raw = .ok u → allows env al raw = true → NoDotSegments u →
      Confined env al u := by
  refine ⟨⟨fun h e he => unrestricted_of_confined hal h he, fun h raw u hu hallows => ?_⟩,
    fun raw u hu hallows hdots => confined_of_noDotSegments hu hallows hdots⟩
  exact confined_of_unrestricted h hu hallows

/-- Texts in ASCII, where any authority is a host. -/
def asciiText : UrlText where
  rule := .any
  trimSpace := fun s => ((s.dropWhile isSpace).reverse.dropWhile isSpace).reverse
  toLower := List.map lowerByte

def hooksEntry : Bytes := "https://h/hooks".toList.map ascii

def hooksAllowlist : List AllowEntry :=
  [⟨"https".toList.map ascii, "h".toList.map ascii, "/hooks".toList.map ascii, hooksEntry⟩]

theorem allowlist_confines_hooks :
    parseAllowlist asciiText [hooksEntry] = .ok hooksAllowlist ∧
      ((∀ raw u, parse asciiText.rule raw = .ok u → allows asciiText hooksAllowlist raw = true →
        Confined asciiText hooksAllowlist u) ↔
          ∀ e ∈ hooksAllowlist, Unrestricted hooksAllowlist e) := by
  have hal : parseAllowlist asciiText [hooksEntry] = .ok hooksAllowlist := by decide +kernel
  exact ⟨hal, (allowlist_confines_iff asciiText [hooksEntry] hooksAllowlist hal).1⟩

def climbingUrl : Bytes := "https://h/hooks/../admin".toList.map ascii

def climbingParts : Url :=
  ⟨"https".toList.map ascii, "h".toList.map ascii, "/hooks/../admin".toList.map ascii⟩

/-- `https://h/hooks/../admin` is allowed by `https://h/hooks` and goes to `/admin`. -/
theorem hooks_left_by_dotDot :
    parseAllowlist asciiText [hooksEntry] = .ok hooksAllowlist ∧
      allows asciiText hooksAllowlist climbingUrl = true ∧
      parse asciiText.rule climbingUrl = .ok climbingParts ∧
      removeDotSegments climbingParts.path = "/admin".toList.map ascii ∧
      ¬Confined asciiText hooksAllowlist climbingParts := by
  have hresolved : removeDotSegments climbingParts.path = "/admin".toList.map ascii := by
    decide +kernel
  refine ⟨by decide +kernel, by decide +kernel, by decide +kernel, hresolved, ?_⟩
  rintro ⟨e, he, -, -, hpath⟩
  rw [List.mem_singleton.mp he, hresolved] at hpath
  have hnot : ¬"/hooks".toList.map ascii <+: "/admin".toList.map ascii := by decide +kernel
  rcases hpath (by decide +kernel) with h | ⟨rest, h, -⟩
  · exact hnot ⟨[], by rw [h]; exact List.append_nil _⟩
  · exact hnot ⟨rest, h.symm⟩

end Rdq.Server
