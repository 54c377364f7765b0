import Mathlib.Tactic.Common
import Rdq.Foundation.ByteText
import Rdq.Foundation.Fallible
import Rdq.Foundation.JsonText

/-!
# URLs

`url.Parse` of Go, as far as the scheme, the host and the path go. The path is decoded,
and its dot segments are kept. How an authority is read as a host is a parameter.
-/

namespace Rdq.Foundation.NetUrl

open JsonText

structure Url where
  scheme : Bytes
  host : Bytes
  path : Bytes
deriving DecidableEq

/-- Why a text is no URL. -/
inductive Fault
  | control
  | missingScheme
  | colonInSegment
  /-- The text from the percent sign on, at most three bytes. -/
  | escape (text : Bytes)
  | authority (cause : String)
deriving DecidableEq

/-- `parseAuthority`: the host of an authority, given the scheme; user information is not
kept. -/
structure HostRule where
  host : Bytes → Bytes → Except String Bytes
  empty : ∀ scheme, host scheme [] = .ok []

/-- Any authority is a host. -/
def HostRule.any : HostRule := ⟨fun _ authority => .ok authority, fun _ => rfl⟩

/-- What stands before the first separator, and what stands behind it. -/
def cut (sep : UInt8) (text : Bytes) : Bytes × Bytes := (ByteText.cut sep text).getD (text, [])

/-- Percent escapes decoded. -/
def unescape : Bytes → Except Fault Bytes
  | [] => .ok []
  | b :: x :: y :: rest =>
    if b = ascii '%' then
      match hexValue? x, hexValue? y with
      | some i, some j => (unescape rest).map (UInt8.ofNat (16 * i + j) :: ·)
      | _, _ => .error (.escape [b, x, y])
    else (unescape (x :: y :: rest)).map (b :: ·)
  | b :: rest =>
    if b = ascii '%' then .error (.escape (b :: rest)) else (unescape rest).map (b :: ·)

def isLetter (b : UInt8) : Bool :=
  decide (ascii 'a' ≤ b ∧ b ≤ ascii 'z' ∨ ascii 'A' ≤ b ∧ b ≤ ascii 'Z')

/-- The bytes of a scheme, apart from the first one. -/
def inScheme (b : UInt8) : Bool :=
  isLetter b || decide (ascii '0' ≤ b ∧ b ≤ ascii '9') ||
    b == ascii '+' || b == ascii '-' || b == ascii '.'

def lowerByte (b : UInt8) : UInt8 := if ascii 'A' ≤ b ∧ b ≤ ascii 'Z' then b + 32 else b

/-- `getScheme`, with the scheme in lower case: a text without a scheme is all path. -/
def getScheme (text : Bytes) : Except Fault (Bytes × Bytes) :=
  match text with
  | [] => .ok ([], [])
  | b :: _ =>
    if b = ascii ':' then .error .missingScheme
    else if !isLetter b then .ok ([], text)
    else match text.dropWhile inScheme with
      | c :: rest =>
        if c = ascii ':' then .ok ((text.takeWhile inScheme).map lowerByte, rest)
        else .ok ([], text)
      | [] => .ok ([], text)

def isControl (b : UInt8) : Bool := decide (b < 0x20) || b == 0x7f

def slashSlash : Bytes := [ascii '/', ascii '/']

/-- The host and the path behind the scheme. -/
def parseRest (rule : HostRule) (scheme rest : Bytes) : Except Fault Url :=
  if slashSlash <+: rest ∧ (scheme ≠ [] ∨ ¬(slashSlash ++ [ascii '/']) <+: rest) then
    let rest := rest.drop 2
    match rule.host scheme (rest.takeWhile (· != ascii '/')) with
    | .error cause => .error (.authority cause)
    | .ok host => (unescape (rest.dropWhile (· != ascii '/'))).map fun path => ⟨scheme, host, path⟩
  else if rest.head? = some (ascii '/') then
    (unescape rest).map fun path => ⟨scheme, [], path⟩
  else if scheme ≠ [] then .ok ⟨scheme, [], []⟩ -- opaque
  else if (cut (ascii '/') rest).1.contains (ascii ':') then .error .colonInSegment
  else (unescape rest).map fun path => ⟨scheme, [], path⟩

/-- `url.Parse`. -/
def parse (rule : HostRule) (raw : Bytes) : Except Fault Url := do
  let (text, fragment) := cut (ascii '#') raw
  let url ←
    if text.any isControl then .error .control
    else if text = [ascii '*'] then .ok ⟨[], [], [ascii '*']⟩
    else do
      let (scheme, rest) ← getScheme text
      parseRest rule scheme (cut (ascii '?') rest).1
  let _ ← unescape fragment
  return url

/-! ## Escaping -/

def hexDigit (n : Nat) : UInt8 := if n < 10 then UInt8.ofNat (48 + n) else UInt8.ofNat (55 + n)

def escapeByte (b : UInt8) : Bytes :=
  if b = ascii '/' then [b] else [ascii '%', hexDigit (b.toNat / 16), hexDigit (b.toNat % 16)]

/-- Every byte but the slash as a percent escape. -/
def escape (text : Bytes) : Bytes := text.flatMap escapeByte

theorem hexValue?_hexDigit {n : Nat} (h : n < 16) : hexValue? (hexDigit n) = some n := by
  have htable : ∀ n < 16, hexValue? (hexDigit n) = some n := by decide
  exact htable n h

theorem unescape_cons {b : UInt8} (hb : b ≠ ascii '%') (rest : Bytes) :
    unescape (b :: rest) = (unescape rest).map (b :: ·) := by
  cases rest with
  | nil => simp [unescape, hb]
  | cons x rest =>
    cases rest with
    | nil => simp [unescape, hb]
    | cons y rest => rw [unescape, if_neg hb]

theorem unescape_escape (text : Bytes) : unescape (escape text) = .ok text := by
  induction text with
  | nil => rfl
  | cons b text ih =>
    have hcons : escape (b :: text) = escapeByte b ++ escape text := rfl
    rw [hcons, escapeByte]
    split
    · rename_i hb
      rw [List.singleton_append, unescape_cons (by rw [hb]; decide), ih]
      rfl
    · have hhigh : b.toNat / 16 < 16 := by
        have hlt := b.toNat_lt
        omega
      have hback : UInt8.ofNat (16 * (b.toNat / 16) + b.toNat % 16) = b := by
        rw [Nat.div_add_mod, UInt8.ofNat_toNat]
      change unescape (ascii '%' :: _ :: _ :: escape text) = _
      rw [unescape, if_pos rfl, hexValue?_hexDigit hhigh,
        hexValue?_hexDigit (Nat.mod_lt _ (by decide)), ih]
      exact congrArg (fun c => Except.ok (c :: text)) hback

theorem hexDigit_clean {n : Nat} (h : n < 16) :
    isControl (hexDigit n) = false ∧ hexDigit n ≠ ascii '?' ∧ hexDigit n ≠ ascii '#' := by
  have htable : ∀ n < 16,
      isControl (hexDigit n) = false ∧ hexDigit n ≠ ascii '?' ∧ hexDigit n ≠ ascii '#' := by
    decide
  exact htable n h

/-- A byte that may stand in front of the query. -/
def Clean (b : UInt8) : Prop := isControl b = false ∧ b ≠ ascii '?' ∧ b ≠ ascii '#'

theorem clean_of_mem_escape {text : Bytes} {b : UInt8} (h : b ∈ escape text) : Clean b := by
  obtain ⟨c, -, hc⟩ := List.mem_flatMap.mp h
  unfold escapeByte at hc
  split at hc
  · rename_i hslash
    rw [List.mem_singleton.mp hc, hslash]
    exact ⟨by decide, by decide, by decide⟩
  · rcases List.mem_cons.mp hc with rfl | hc
    · exact ⟨by decide, by decide, by decide⟩
    · rcases List.mem_cons.mp hc with rfl | hc
      · apply hexDigit_clean
        have hlt := c.toNat_lt
        omega
      · rw [List.mem_singleton.mp hc]
        exact hexDigit_clean (Nat.mod_lt _ (by decide))

theorem head?_escape {p : Bytes} (hp : ∀ b ∈ p.head?, b = ascii '/') :
    Stops (· != ascii '/') (escape p) := by
  cases p with
  | nil => exact stops_nil _
  | cons b p =>
    have hb : b = ascii '/' := hp b rfl
    subst hb
    exact stops_cons (by decide) _

/-! ## URLs with a given path -/

theorem cut_of_notMem {sep : UInt8} {text : Bytes} (h : sep ∉ text) :
    cut sep text = (text, []) := by
  rw [cut, ByteText.cut, if_neg h]
  rfl

theorem mem_cut {sep b : UInt8} {text : Bytes} (h : b ∈ (cut sep text).1) : b ∈ text ∧ b ≠ sep := by
  by_cases hsep : sep ∈ text
  · rw [cut, ByteText.cut, if_pos hsep] at h
    have hb := List.mem_takeWhile_imp h
    exact ⟨(List.takeWhile_prefix _).subset h, bne_iff_ne.mp hb⟩
  · rw [cut_of_notMem hsep] at h
    exact ⟨h, fun heq => hsep (heq ▸ h)⟩

theorem getScheme_colon {b : UInt8} {front : Bytes} (hletter : isLetter b = true)
    (hall : ∀ x ∈ b :: front, inScheme x = true) (tail : Bytes) :
    getScheme (b :: front ++ ascii ':' :: tail) = .ok ((b :: front).map lowerByte, tail) := by
  have hcolon : b ≠ ascii ':' := by
    rintro rfl
    cases hletter
  have hstops : Stops inScheme (ascii ':' :: tail) := stops_cons (by decide) _
  have htake := takeWhile_append_stops hall hstops
  have hdrop := dropWhile_append_stops hall hstops
  rw [List.cons_append] at htake hdrop ⊢
  unfold getScheme
  dsimp only
  rw [if_neg hcolon, hletter, hdrop, htake]
  rfl

/-- A text has no scheme, or a scheme in front of a colon. -/
theorem getScheme_cases {text scheme rest : Bytes} (h : getScheme text = .ok (scheme, rest)) :
    (scheme = [] ∧ rest = text) ∨
      ∃ b front, isLetter b = true ∧ (∀ x ∈ b :: front, inScheme x = true) ∧
        scheme = (b :: front).map lowerByte ∧ text = b :: front ++ ascii ':' :: rest := by
  cases text with
  | nil =>
    cases h
    exact Or.inl ⟨rfl, rfl⟩
  | cons b text =>
    unfold getScheme at h
    dsimp only at h
    split_ifs at h with hcolon hletter
    · cases h
      exact Or.inl ⟨rfl, rfl⟩
    · have hb : isLetter b = true := by simpa using hletter
      have hin : inScheme b = true := by simp [inScheme, hb]
      have hsplit := List.takeWhile_append_dropWhile (p := inScheme) (l := b :: text)
      have hall : ∀ x ∈ (b :: text).takeWhile inScheme, inScheme x = true :=
        fun x hx => List.mem_takeWhile_imp hx
      rw [List.takeWhile_cons_of_pos hin] at h hsplit hall
      split at h
      · rename_i c rest' hdrop
        split_ifs at h with hc
        · cases h
          rw [hdrop, hc] at hsplit
          exact Or.inr ⟨b, text.takeWhile inScheme, hb, hall, rfl, hsplit.symm⟩
        · cases h
          exact Or.inl ⟨rfl, rfl⟩
      · cases h
        exact Or.inl ⟨rfl, rfl⟩

/-- The text in front of the authority may be kept while the rest changes. -/
theorem getScheme_front {text scheme rest : Bytes} (h : getScheme text = .ok (scheme, rest)) :
    ∃ front, (∀ b ∈ front, b ∈ text) ∧ (∀ b ∈ rest, b ∈ text) ∧
      ∀ tail, getScheme (front ++ ascii '/' :: tail) = .ok (scheme, ascii '/' :: tail) := by
  rcases getScheme_cases h with ⟨rfl, rfl⟩ | ⟨b, front, hletter, hall, rfl, rfl⟩
  · exact ⟨[], by simp, fun _ hb => hb, fun _ => rfl⟩
  · refine ⟨b :: front ++ [ascii ':'], ?_, ?_, ?_⟩
    · intro x hx
      simp only [List.mem_append, List.mem_cons, List.not_mem_nil, or_false] at hx ⊢
      tauto
    · intro x hx
      simp [hx]
    · intro tail
      rw [List.append_assoc, List.singleton_append]
      exact getScheme_colon hletter hall _

theorem head?_unescape_slash {text path : Bytes} (h : unescape text = .ok path)
    (hstops : Stops (· != ascii '/') text) : ∀ b ∈ path.head?, b = ascii '/' := by
  cases text with
  | nil =>
    cases h
    intro b hb
    cases hb
  | cons c text =>
    have hc : c = ascii '/' := by simpa using hstops c rfl
    subst hc
    rw [unescape_cons (by decide)] at h
    obtain ⟨rest, -, rfl⟩ := map_eq_ok.mp h
    intro b hb
    cases hb
    rfl

theorem stops_dropWhile (p : UInt8 → Bool) (text : Bytes) : Stops p (text.dropWhile p) := by
  intro b hb
  have hne := List.head?_dropWhile_not p text
  rw [Option.mem_def.mp hb] at hne
  simpa using hne

/-- A host is read from an authority in front of the path. -/
theorem parseRest_host {rule : HostRule} {scheme rest : Bytes} {u : Url}
    (h : parseRest rule scheme rest = .ok u) (hhost : u.host ≠ []) :
    u.scheme = scheme ∧ (∀ b ∈ u.path.head?, b = ascii '/') ∧
      ∃ authority, rule.host scheme authority = .ok u.host ∧
        authority ≠ [] ∧ ∀ b ∈ authority, b ∈ rest ∧ b ≠ ascii '/' := by
  unfold parseRest at h
  dsimp only at h
  split at h
  · split at h
    · cases h
    · rename_i host hrule
      obtain ⟨path, hpath, rfl⟩ := map_eq_ok.mp h
      refine ⟨rfl, head?_unescape_slash hpath (stops_dropWhile _ _), _, hrule, ?_, ?_⟩
      · intro hnil
        rw [hnil, rule.empty] at hrule
        cases hrule
        exact hhost rfl
      · intro b hb
        refine ⟨List.mem_of_mem_drop ((List.takeWhile_prefix _).subset hb), ?_⟩
        exact bne_iff_ne.mp (List.mem_takeWhile_imp (p := (· != ascii '/')) hb)
  · exfalso
    apply hhost
    split_ifs at h
    · obtain ⟨path, -, rfl⟩ := map_eq_ok.mp h
      rfl
    · cases h
      rfl
    · obtain ⟨path, -, rfl⟩ := map_eq_ok.mp h
      rfl

/-- A URL that was parsed: the bytes in front of the query are clean, and the scheme and
the rest are those of the text. -/
theorem parse_inv {rule : HostRule} {raw : Bytes} {u : Url} (h : parse rule raw = .ok u)
    (hhost : u.host ≠ []) : ∃ text scheme rest, (∀ b ∈ text, isControl b = false ∧ b ≠ ascii '#') ∧
      getScheme text = .ok (scheme, rest) ∧
      parseRest rule scheme (cut (ascii '?') rest).1 = .ok u := by
  unfold parse at h
  dsimp only at h
  split_ifs at h with hcontrol hstar
  · obtain ⟨-, h, -⟩ := bind_eq_ok.mp h
    cases h
  · obtain ⟨v, hv, h⟩ := bind_eq_ok.mp h
    obtain ⟨-, -, h⟩ := bind_eq_ok.mp h
    cases hv
    cases h
    exact absurd rfl hhost
  · obtain ⟨⟨scheme, rest⟩, hscheme, h⟩ := bind_eq_ok.mp h
    obtain ⟨v, hrest, h⟩ := bind_eq_ok.mp h
    obtain ⟨-, -, h⟩ := bind_eq_ok.mp h
    cases h
    refine ⟨_, scheme, rest, fun b hb => ⟨?_, (mem_cut hb).2⟩, hscheme, hrest⟩
    simp only [List.any_eq_true, not_exists, not_and] at hcontrol
    simpa using hcontrol b hb

/-- The path of a URL with a host is empty or starts with a slash. -/
theorem head?_path {rule : HostRule} {raw : Bytes} {u : Url} (h : parse rule raw = .ok u)
    (hhost : u.host ≠ []) : ∀ b ∈ u.path.head?, b = ascii '/' := by
  obtain ⟨_, _, _, -, -, hrest⟩ := parse_inv h hhost
  exact (parseRest_host hrest hhost).2.1

/-- A text of clean bytes behind a scheme. -/
theorem parse_of_clean {rule : HostRule} {front rest scheme : Bytes}
    (hclean : ∀ b ∈ front ++ rest, isControl b = false ∧ b ≠ ascii '#')
    (hscheme : getScheme (front ++ rest) = .ok (scheme, rest)) (hquery : ascii '?' ∉ rest)
    (hstar : front ++ rest ≠ [ascii '*']) {u : Url} (hrest : parseRest rule scheme rest = .ok u) :
    parse rule (front ++ rest) = .ok u := by
  have hcontrol : (front ++ rest).any isControl = false := by
    rw [List.any_eq_false]
    intro b hb
    rw [(hclean b hb).1]
    exact Bool.false_ne_true
  have hsharp : ascii '#' ∉ front ++ rest := fun hmem => (hclean _ hmem).2 rfl
  unfold parse
  rw [cut_of_notMem hsharp]
  dsimp only
  rw [hcontrol, if_neg Bool.false_ne_true, if_neg hstar, hscheme]
  change (parseRest rule scheme (cut (ascii '?') rest).1 >>= _) = _
  rw [cut_of_notMem hquery, hrest]
  rfl

/-- With a host that some URL has, every path can be written. -/
theorem exists_parse_path {rule : HostRule} {raw : Bytes} {u : Url}
    (h : parse rule raw = .ok u) (hhost : u.host ≠ []) {p : Bytes}
    (hp : ∀ b ∈ p.head?, b = ascii '/') :
    ∃ raw', parse rule raw' = .ok ⟨u.scheme, u.host, p⟩ := by
  obtain ⟨text, scheme, rest, htext, hscheme, hrest⟩ := parse_inv h hhost
  obtain ⟨hsame, -, authority, hrule, hne, hauthority⟩ := parseRest_host hrest hhost
  obtain ⟨front, hfront, hsub, hnew⟩ := getScheme_front hscheme
  subst hsame
  have hparts : ∀ b ∈ authority ++ escape p,
      isControl b = false ∧ b ≠ ascii '#' ∧ b ≠ ascii '?' := by
    intro b hb
    rcases List.mem_append.mp hb with hb | hb
    · have hmem := mem_cut (hauthority b hb).1
      exact ⟨(htext b (hsub b hmem.1)).1, (htext b (hsub b hmem.1)).2, hmem.2⟩
    · obtain ⟨hcontrol, hquery, hsharp⟩ := clean_of_mem_escape hb
      exact ⟨hcontrol, hsharp, hquery⟩
  have hget : getScheme (front ++ (slashSlash ++ (authority ++ escape p))) =
      .ok (u.scheme, slashSlash ++ (authority ++ escape p)) := hnew _
  refine ⟨front ++ (slashSlash ++ (authority ++ escape p)), parse_of_clean ?_ hget ?_ ?_ ?_⟩
  · intro b hb
    rcases List.mem_append.mp hb with hb | hb
    · exact htext b (hfront b hb)
    · rcases List.mem_append.mp hb with hb | hb
      · have hslash : b = ascii '/' := by simpa [slashSlash] using hb
        rw [hslash]
        decide
      · exact ⟨(hparts b hb).1, (hparts b hb).2.1⟩
  · intro hmem
    rcases List.mem_append.mp hmem with hmem | hmem
    · revert hmem
      decide
    · exact (hparts _ hmem).2.2 rfl
  · intro heq
    have hlen := congrArg List.length heq
    simp only [slashSlash, List.length_append, List.length_cons, List.length_nil] at hlen
    omega
  · obtain ⟨a, as, rfl⟩ := List.exists_cons_of_ne_nil hne
    have hslash : a ≠ ascii '/' := (hauthority a List.mem_cons_self).2
    have hall : ∀ b ∈ a :: as, (b != ascii '/') = true :=
      fun b hb => bne_iff_ne.mpr (hauthority b hb).2
    have htriple : ¬(slashSlash ++ [ascii '/']) <+: slashSlash ++ (a :: as ++ escape p) := by
      rw [List.prefix_append_right_inj, List.cons_append, List.cons_prefix_cons]
      exact fun hpre => hslash hpre.1.symm
    unfold parseRest
    rw [if_pos ⟨List.prefix_append _ _, Or.inr htriple⟩]
    change (match rule.host u.scheme ((a :: as ++ escape p).takeWhile (· != ascii '/')) with
      | .error cause => _
      | .ok host => _) = _
    rw [takeWhile_append_stops hall (head?_escape hp), hrule]
    change (unescape ((a :: as ++ escape p).dropWhile (· != ascii '/'))).map _ = _
    rw [dropWhile_append_stops hall (head?_escape hp), unescape_escape]
    rfl

end Rdq.Foundation.NetUrl
