import Mathlib.Tactic.Common
import Rdq.Foundation.JsonString

/-!
# Dot segments of a path

A path that starts with a slash is a list of segments. RFC 3986, section 5.2.4, says how
the segments `.` and `..` are resolved: the first is dropped, the second takes the
segment before it away, and either leaves a final slash when it stands last.
-/

namespace Rdq.Foundation.DotSegments

open JsonText (Bytes ascii)

def slash : UInt8 := ascii '/'

def dot : Bytes := [ascii '.']

def dotDot : Bytes := [ascii '.', ascii '.']

/-- The texts between the slashes. -/
def segments : Bytes → List Bytes
  | [] => [[]]
  | b :: bs =>
    if b = slash then [] :: segments bs
    else match segments bs with
      | [] => [[b]]
      | s :: ss => (b :: s) :: ss

/-- The segments, each after a slash. -/
def path (ss : List Bytes) : Bytes := ss.flatMap (slash :: ·)

/-- What resolving has put out so far, the last segment first. -/
def resolve (out : List Bytes) : List Bytes → List Bytes
  | [] => out.reverse
  | s :: rest =>
    if s = dot then if rest = [] then ([] :: out).reverse else resolve out rest
    else if s = dotDot then
      if rest = [] then ([] :: out.tail).reverse else resolve out.tail rest
    else resolve (s :: out) rest

/-- `remove_dot_segments`, for a path that is empty or starts with a slash. -/
def removeDotSegments : Bytes → Bytes
  | [] => []
  | _ :: p => path (resolve [] (segments p))

/-- The path is the directory, or lies below it on a segment boundary. -/
def Below (directory p : Bytes) : Prop :=
  p = directory ∨ ∃ rest, p = directory ++ rest ∧
    (rest.head? = some slash ∨ directory.getLast? = some slash)

/-! ## Segments -/

theorem segments_ne_nil (p : Bytes) : segments p ≠ [] := by
  cases p with
  | nil => exact List.cons_ne_nil _ _
  | cons b bs =>
    unfold segments
    split
    · exact List.cons_ne_nil _ _
    · split <;> exact List.cons_ne_nil _ _

theorem segments_append_slash (p q : Bytes) :
    segments (p ++ slash :: q) = segments p ++ segments q := by
  induction p with
  | nil => simp [segments]
  | cons b bs ih =>
    simp only [List.cons_append, segments, ih]
    obtain ⟨s, ss, hs⟩ := List.exists_cons_of_ne_nil (segments_ne_nil bs)
    split
    · rfl
    · simp [hs]

theorem path_segments (p : Bytes) : path (segments p) = slash :: p := by
  induction p with
  | nil => rfl
  | cons b bs ih =>
    obtain ⟨s, ss, hs⟩ := List.exists_cons_of_ne_nil (segments_ne_nil bs)
    rw [hs, path, List.flatMap_cons, List.cons_append] at ih
    have htail := List.tail_eq_of_cons_eq ih
    unfold segments
    split
    · rename_i hb
      rw [hs, path, List.flatMap_cons, List.flatMap_cons, List.cons_append, List.nil_append,
        List.cons_append, htail, hb]
    · rw [hs]
      change slash :: (b :: s ++ path ss) = _
      rw [List.cons_append]
      exact congrArg (slash :: b :: ·) htail

theorem segments_of_notMem {s : Bytes} (h : slash ∉ s) : segments s = [s] := by
  induction s with
  | nil => rfl
  | cons b bs ih =>
    obtain ⟨hb, hbs⟩ := not_or.mp (mt List.mem_cons.mpr h)
    rw [segments, if_neg (Ne.symm hb), ih hbs]

/-! ## Resolving -/

/-- Segments that are no dots are kept. -/
theorem resolve_plain {ss : List Bytes} (h : ∀ s ∈ ss, s ≠ dot ∧ s ≠ dotDot) (out : List Bytes) :
    resolve out ss = out.reverse ++ ss := by
  induction ss generalizing out with
  | nil => simp [resolve]
  | cons s ss ih =>
    obtain ⟨hs, hss⟩ := List.forall_mem_cons.mp h
    rw [resolve, if_neg hs.1, if_neg hs.2, ih hss]
    simp

/-- A path without dot segments resolves to itself. -/
theorem removeDotSegments_plain {p : Bytes}
    (h : ∀ s ∈ segments p, s ≠ dot ∧ s ≠ dotDot) :
    removeDotSegments (slash :: p) = slash :: p := by
  rw [removeDotSegments, resolve_plain h, List.reverse_nil, List.nil_append, path_segments]

/-- Each segment puts out at most one segment. -/
theorem resolve_append (ss : List Bytes) {ts : List Bytes} (hts : ts ≠ []) (out : List Bytes) :
    ∃ out', out'.length ≤ out.length + ss.length ∧ resolve out (ss ++ ts) = resolve out' ts := by
  induction ss generalizing out with
  | nil => exact ⟨out, Nat.le_refl _, rfl⟩
  | cons s ss ih =>
    have hne : ss ++ ts ≠ [] := List.append_ne_nil_of_right_ne_nil ss hts
    rw [List.cons_append, resolve, if_neg hne, if_neg hne]
    split
    · obtain ⟨out', hlen, hout⟩ := ih out
      exact ⟨out', Nat.le_trans hlen (by simp), hout⟩
    · split
      · obtain ⟨out', hlen, hout⟩ := ih out.tail
        refine ⟨out', Nat.le_trans hlen ?_, hout⟩
        simp only [List.length_tail, List.length_cons]
        omega
      · obtain ⟨out', hlen, hout⟩ := ih (s :: out)
        refine ⟨out', Nat.le_trans hlen ?_, hout⟩
        simp only [List.length_cons]
        omega

/-- Enough `..` take everything away. -/
theorem resolve_climb {k : Nat} {out : List Bytes} (hk : out.length ≤ k) {s : Bytes}
    (hs : s ≠ dot ∧ s ≠ dotDot) :
    resolve out (List.replicate k dotDot ++ [s]) = [s] := by
  induction k generalizing out with
  | zero =>
    rw [List.length_eq_zero_iff.mp (Nat.le_zero.mp hk)]
    simp [resolve, hs]
  | succ k ih =>
    have hne : List.replicate k dotDot ++ [s] ≠ [] := by simp
    have hdots : dotDot ≠ dot := by decide
    rw [List.replicate_succ, List.cons_append, resolve, if_neg hdots, if_pos rfl, if_neg hne]
    apply ih
    simp only [List.length_tail]
    omega

theorem resolve_ne_nil {ss : List Bytes} (hss : ss ≠ []) (out : List Bytes) :
    resolve out ss ≠ [] := by
  induction ss generalizing out with
  | nil => exact absurd rfl hss
  | cons s ss ih =>
    have hlast : ∀ out, resolve (s :: out) ss ≠ [] := by
      intro out
      by_cases hnil : ss = []
      · simp [hnil, resolve]
      · exact ih hnil _
    unfold resolve
    split_ifs with hdot hnil hdots hnil
    · simp
    · exact ih hnil _
    · simp
    · exact ih hnil _
    · exact hlast out

theorem below_root {p : Bytes} (hp : p ≠ []) : Below [slash] (removeDotSegments p) := by
  obtain ⟨b, p, rfl⟩ := List.exists_cons_of_ne_nil hp
  obtain ⟨s, ss, hs⟩ := List.exists_cons_of_ne_nil (resolve_ne_nil (segments_ne_nil p) [])
  rw [removeDotSegments, hs, path, List.flatMap_cons, List.cons_append]
  exact Or.inr ⟨_, rfl, Or.inr rfl⟩

/-- Only the root and the empty path have every long segment below them. -/
theorem eq_root_of_below {directory s : Bytes} (hslash : slash ∉ s)
    (hlen : directory.length ≤ s.length) (h : Below directory (slash :: s)) :
    directory = [] ∨ directory = [slash] := by
  rcases h with h | ⟨rest, h, hboundary⟩
  · rw [← h] at hlen
    exact absurd hlen (by simp)
  · cases directory with
    | nil => exact Or.inl rfl
    | cons b directory =>
      right
      rw [List.cons_append, List.cons.injEq] at h
      obtain ⟨rfl, rfl⟩ := h
      have hclean : ∀ b ∈ directory, b ≠ slash := fun b hb heq =>
        hslash (heq ▸ List.mem_append_left _ hb)
      rcases hboundary with hrest | hlast
      · exact absurd (List.mem_append_right directory (List.mem_of_mem_head? hrest)) hslash
      · cases directory with
        | nil => rfl
        | cons x xs =>
          rw [List.getLast?_cons_cons] at hlast
          exact absurd rfl (hclean slash (List.mem_of_getLast? hlast))

theorem segments_path {ss : List Bytes} (hss : ∀ s ∈ ss, slash ∉ s) (p : Bytes) :
    segments (p ++ path ss) = segments p ++ ss := by
  induction ss generalizing p with
  | nil => simp [path]
  | cons s ss ih =>
    obtain ⟨hs, hrest⟩ := List.forall_mem_cons.mp hss
    have hsplit : p ++ path (s :: ss) = (p ++ slash :: s) ++ path ss := by
      simp [path]
    rw [hsplit, ih hrest, segments_append_slash, segments_of_notMem hs, List.append_assoc]
    rfl

/-- From anywhere, one can climb to the root and enter any segment. -/
theorem removeDotSegments_climb (p : Bytes) {s : Bytes} (hslash : slash ∉ s)
    (hs : s ≠ dot ∧ s ≠ dotDot) :
    removeDotSegments (slash :: p ++ path
      (List.replicate (segments p).length dotDot ++ [s])) = slash :: s := by
  have hclean : ∀ t ∈ List.replicate (segments p).length dotDot ++ [s], slash ∉ t := by
    intro t ht
    rcases List.mem_append.mp ht with ht | ht
    · rw [List.eq_of_mem_replicate ht]
      decide
    · rwa [List.mem_singleton.mp ht]
  have hne : List.replicate (segments p).length dotDot ++ [s] ≠ [] := by simp
  obtain ⟨out, hlen, hout⟩ := resolve_append (segments p) hne []
  rw [List.cons_append, removeDotSegments, segments_path hclean, hout,
    resolve_climb (by simpa using hlen) hs]
  simp [path]

end Rdq.Foundation.DotSegments
