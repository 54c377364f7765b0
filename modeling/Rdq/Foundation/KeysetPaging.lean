import Mathlib.Data.List.Sort
import Mathlib.Order.WithBot

/-!
# Keyset paging

A walk reads a collection page by page, each page in the order of a key and past
the last key of the page before it. Every page may see another state of the
collection. `IsPage` says what one page is, whatever computes it, and `Walk`
chains the pages of one walk up to the page that returns no cursor.

Nothing is assumed about how the states differ, so rows may appear on either
side of a cursor. What a walk lists is then in key order, and it lists every row
that is there all along, and every row that appears past all keys there are.

A client holds its position as an opaque text. `follow` is the client that hands
each returned text to the next call until it is empty, and `walk_follow` says that
its pages are a walk.
-/

namespace Rdq.Foundation.KeysetPaging

variable {α κ : Type*} [LinearOrder κ] (key : α → κ)

/-- `page` and the cursor `next` are a page of `rows` past a position. -/
structure IsPage (rows : Set α) (pos : WithBot κ) (page : List α) (next : Option κ) : Prop where
  sorted : page.Pairwise fun a b => key a < key b
  mem : ∀ a ∈ page, a ∈ rows ∧ pos < key a
  /-- Without a cursor the page holds all that is left. -/
  last : next = none → ∀ a ∈ rows, pos < key a → a ∈ page
  /-- A cursor is the last key of the page, and nothing up to it is left out. -/
  cursor : ∀ k, next = some k → (∃ a ∈ page, key a = k) ∧ (∀ a ∈ page, key a ≤ k) ∧
    ∀ a ∈ rows, pos < key a → key a ≤ k → a ∈ page

/-- One page of a walk and the rows it was taken from. -/
structure Taken (α : Type*) where
  rows : Set α
  page : List α

/-- The rows listed by the pages of a walk. -/
def listing (ps : List (Taken α)) : List α := ps.flatMap Taken.page

@[simp] theorem listing_nil : listing ([] : List (Taken α)) = [] := rfl

@[simp] theorem listing_cons (p : Taken α) (ps : List (Taken α)) :
    listing (p :: ps) = p.page ++ listing ps := rfl

/-- The pages of a walk from a position on, up to the page with the cursor `next`. -/
inductive Walk : WithBot κ → List (Taken α) → Option κ → Prop
  | stop {pos : WithBot κ} {p : Taken α} {next : Option κ} (h : IsPage key p.rows pos p.page next) :
      Walk pos [p] next
  | follow {pos : WithBot κ} {p : Taken α} {ps : List (Taken α)} {k : κ} {next : Option κ}
      (h : IsPage key p.rows pos p.page (some k)) (rest : Walk (k : WithBot κ) ps next) :
      Walk pos (p :: ps) next

variable {key} {pos : WithBot κ} {ps : List (Taken α)} {next : Option κ}

namespace Walk

theorem pos_lt (h : Walk key pos ps next) {a : α} (ha : a ∈ listing ps) : pos < key a := by
  induction h with
  | stop hp => exact (hp.mem a (by simpa using ha)).2
  | follow hp _ ih =>
    rcases List.mem_append.mp ha with ha | ha
    · exact (hp.mem a ha).2
    · obtain ⟨⟨b, hb, rfl⟩, -, -⟩ := hp.cursor _ rfl
      exact (hp.mem b hb).2.trans (ih ha)

/-- The listed keys strictly increase. -/
theorem sorted (h : Walk key pos ps next) :
    (listing ps).Pairwise fun a b => key a < key b := by
  induction h with
  | stop hp => simpa using hp.sorted
  | follow hp rest ih =>
    rw [listing_cons, List.pairwise_append]
    refine ⟨hp.sorted, ih, ?_⟩
    intro a ha b hb
    have hle : key a ≤ _ := (hp.cursor _ rfl).2.1 a ha
    exact hle.trans_lt (WithBot.coe_lt_coe.mp (rest.pos_lt hb))

/-- A row past the position is listed by a finished walk if every page finds it, or
finds none but rows before it, and the last page finds it. -/
theorem mem_listing (h : Walk key pos ps none) {a : α} (hpos : pos < key a)
    (hpages : ∀ p ∈ ps, a ∈ p.rows ∨ ∀ b ∈ p.rows, key b < key a)
    (hlast : ∀ p ∈ ps.getLast?, a ∈ p.rows) : a ∈ listing ps := by
  generalize hnext : (none : Option κ) = next at h
  induction h with
  | stop hp =>
    subst hnext
    simpa using hp.last rfl a (hlast _ rfl) hpos
  | @follow _ p ps k _ hp rest ih =>
    rw [listing_cons, List.mem_append]
    obtain ⟨⟨b, hb, hkey⟩, -, hall⟩ := hp.cursor k rfl
    -- the row is on this page unless it lies past the cursor
    by_cases hle : key a ≤ k
    · left
      rcases hpages p List.mem_cons_self with hrow | hnone
      · exact hall a hrow hpos hle
      · have hlt := hnone b (hp.mem b hb).1
        rw [hkey] at hlt
        exact absurd hle (not_le.mpr hlt)
    · right
      refine ih (WithBot.coe_lt_coe.mpr (not_le.mp hle)) ?_ ?_ hnext
      · exact fun q hq => hpages q (List.mem_cons_of_mem p hq)
      · intro q hq
        refine hlast q ?_
        cases rest <;> simpa using hq

/-- A row that every page finds is listed by a finished walk. -/
theorem mem_listing_of_forall (h : Walk key pos ps none) {a : α} (hpos : pos < key a)
    (hpages : ∀ p ∈ ps, a ∈ p.rows) : a ∈ listing ps :=
  h.mem_listing hpos (fun p hp => Or.inl (hpages p hp))
    fun p hp => hpages p (List.mem_of_getLast? hp)

end Walk

/-! ## Computing a page -/

section Take
variable {rows : Set α} {l : List α}

/-- The first `n` of the rows past a position, in key order, are a page. Its cursor is
the last key taken, unless no row is left. -/
theorem isPage_take (hsorted : l.Pairwise fun a b => key a < key b)
    (hmem : ∀ a, a ∈ l ↔ a ∈ rows ∧ pos < key a) {n : Nat} (hn : 0 < n) :
    IsPage key rows pos (l.take n)
      (if n < l.length then (l.take n).getLast?.map key else none) where
  sorted := hsorted.sublist (List.take_sublist n l)
  mem := fun a ha => (hmem a).mp (List.mem_of_mem_take ha)
  last := by
    intro hnone a ha hpos
    have hl : a ∈ l := (hmem a).mpr ⟨ha, hpos⟩
    split at hnone
    · rename_i hlt
      -- a page of one row or more has a last key
      rw [Option.map_eq_none_iff, List.getLast?_eq_none_iff, List.take_eq_nil_iff] at hnone
      rcases hnone with rfl | rfl
      · omega
      · cases hl
    · rwa [List.take_of_length_le (by omega)]
  cursor := by
    intro k hk
    split at hk
    · obtain ⟨b, hb, rfl⟩ := Option.map_eq_some_iff.mp hk
      have hbt := List.mem_of_getLast? hb
      obtain ⟨front, hfront⟩ := List.getLast?_eq_some_iff.mp hb
      refine ⟨⟨b, hbt, rfl⟩, ?_, ?_⟩
      · intro a ha
        have hs := hsorted.sublist (List.take_sublist n l)
        rw [hfront] at ha hs
        rcases List.mem_append.mp ha with ha | ha
        · exact ((List.pairwise_append.mp hs).2.2 a ha b (by simp)).le
        · rw [List.mem_singleton.mp ha]
      · intro a ha hpos hle
        have hl : a ∈ l := (hmem a).mpr ⟨ha, hpos⟩
        rw [← List.take_append_drop n l, List.mem_append] at hl
        rcases hl with hl | hl
        · exact hl
        · rw [← List.take_append_drop n l] at hsorted
          exact absurd hle (not_le.mpr ((List.pairwise_append.mp hsorted).2.2 b hbt a hl))
    · cases hk

end Take

/-! ## Following the cursors -/

section Follow
variable {σ β ε : Type*} (call : σ → String → Except ε (β × String))

/-- The calls of a client that is given the states it will meet, in order. It passes
the cursor it got last, and stops when it is empty. -/
def follow (cursor : String) : List σ → List (σ × String)
  | [] => []
  | s :: ss =>
    (s, cursor) ::
      match call s cursor with
      | .ok (_, next) => if next = "" then [] else follow next ss
      | .error _ => []

/-- The client got an empty cursor. -/
def Finished (calls : List (σ × String)) : Prop :=
  ∃ p out, calls.getLast? = some p ∧ call p.1 p.2 = .ok (out, "")

/-- The client meets the states from the first one on, in their order. -/
theorem follow_states (cursor : String) (ss : List σ) :
    (follow call cursor ss).map Prod.fst <+: ss := by
  induction ss generalizing cursor with
  | nil => exact List.prefix_rfl
  | cons s ss ih =>
    simp only [follow, List.map_cons, List.cons_prefix_cons, true_and]
    split
    · split
      · exact List.nil_prefix
      · exact ih _
    · exact List.nil_prefix

variable {call}
variable {cursor : String} {ss : List σ}

theorem mem_of_mem_follow {p : σ × String} (hp : p ∈ follow call cursor ss) : p.1 ∈ ss :=
  (follow_states call cursor ss).mem (List.mem_map_of_mem hp)

/-- A relation between earlier and later states relates every state met to the last one. -/
theorem rel_last_of_mem_follow {r : σ → σ → Prop} (hrefl : ∀ s, r s s) (hss : ss.Pairwise r)
    {p q : σ × String} (hp : p ∈ follow call cursor ss)
    (hq : (follow call cursor ss).getLast? = some q) : r p.1 q.1 := by
  have hsorted := hss.sublist (follow_states call cursor ss).sublist
  obtain ⟨front, hfront⟩ := List.getLast?_eq_some_iff.mp hq
  rw [hfront] at hp hsorted
  rw [List.map_append, List.pairwise_append] at hsorted
  rcases List.mem_append.mp hp with hp | hp
  · exact hsorted.2.2 p.1 (List.mem_map_of_mem hp) q.1 (by simp)
  · rw [List.mem_singleton.mp hp]
    exact hrefl q.1

theorem finished_cons {p : σ × String} {ps : List (σ × String)} (hne : ps ≠ []) :
    Finished call (p :: ps) ↔ Finished call ps := by
  unfold Finished
  rw [List.getLast?_cons_of_ne_nil hne]

theorem follow_ne_nil (hne : ss ≠ []) :
    follow call cursor ss ≠ [] := by
  cases ss with
  | nil => exact absurd rfl hne
  | cons s ss => simp [follow]

variable (call) (key) (shown : σ → Set α) (rows : σ → String → List α)
  (denotes : String → WithBot κ → Prop)

/-- In state `s` a call at a cursor that denotes a position returns a page of the shown
rows, and an empty cursor exactly after the last page. -/
def Serves (s : σ) : Prop :=
  ∀ cursor pos, denotes cursor pos → ∃ out text next,
    call s cursor = .ok (out, text) ∧ IsPage key (shown s) pos (rows s cursor) next ∧
      (text = "" ↔ next = none) ∧ ∀ k : κ, next = some k → denotes text k

/-- The pages of a client. -/
def pages (ps : List (σ × String)) : List (Taken α) := ps.map fun p => ⟨shown p.1, rows p.1 p.2⟩

theorem listing_pages (ps : List (σ × String)) :
    listing (pages shown rows ps) = ps.flatMap fun p => rows p.1 p.2 := by
  simp only [listing, pages, List.flatMap_map]

variable {call} {key} {shown} {rows} {denotes}

/-- Every call of a client is served at a cursor with a meaning. -/
theorem denotes_of_mem_follow (hserves : ∀ s ∈ ss, Serves key call shown rows denotes s)
    (hc : denotes cursor pos) {p : σ × String} (hp : p ∈ follow call cursor ss) :
    ∃ pos', denotes p.2 pos' := by
  induction ss generalizing cursor pos with
  | nil => cases hp
  | cons s ss ih =>
    obtain ⟨out, text, next, hcall, -, htext, hnext⟩ :=
      hserves s List.mem_cons_self cursor pos hc
    simp only [follow, hcall] at hp
    rcases List.mem_cons.mp hp with rfl | hp
    · exact ⟨pos, hc⟩
    · split at hp
      · cases hp
      · rename_i hne
        cases next with
        | none => exact absurd (htext.mpr rfl) hne
        | some k =>
          exact ih (fun s' hs' => hserves s' (List.mem_cons_of_mem s hs')) (hnext k rfl) hp

/-- A client whose calls fail in the states outside `good` gets the pages of the states before
the first of them, and ends there with a call at a cursor with a meaning. -/
theorem follow_takeWhile {good : σ → Bool}
    (hserves : ∀ s ∈ ss, good s = true → Serves key call shown rows denotes s)
    (hfails : ∀ s ∈ ss, good s = false → ∀ c pos', denotes c pos' → ∃ e, call s c = .error e)
    (hc : denotes cursor pos) :
    follow call cursor ss = follow call cursor (ss.takeWhile good) ∨
      ∃ s ∈ ss, good s = false ∧ ∃ c pos', denotes c pos' ∧
        follow call cursor ss = follow call cursor (ss.takeWhile good) ++ [(s, c)] := by
  induction ss generalizing cursor pos with
  | nil => exact .inl rfl
  | cons s ss ih =>
    cases hgood : good s with
    | false =>
      obtain ⟨e, he⟩ := hfails s List.mem_cons_self hgood cursor pos hc
      refine .inr ⟨s, List.mem_cons_self, hgood, cursor, pos, hc, ?_⟩
      simp [follow, hgood, he]
    | true =>
      obtain ⟨out, text, next, hcall, -, htext, hnext⟩ :=
        hserves s List.mem_cons_self hgood cursor pos hc
      rw [List.takeWhile_cons_of_pos hgood]
      simp only [follow, hcall]
      cases next with
      | none =>
        rw [if_pos (htext.mpr rfl), if_pos (htext.mpr rfl)]
        exact .inl rfl
      | some k =>
        have hne : ¬ text = "" := fun h => by cases htext.mp h
        rw [if_neg hne, if_neg hne]
        rcases ih (fun s' hs' => hserves s' (List.mem_cons_of_mem s hs'))
          (fun s' hs' => hfails s' (List.mem_cons_of_mem s hs')) (hnext k rfl) with h | h
        · exact .inl (by rw [h])
        · obtain ⟨s', hs', hbad, c, pos', hpos, heq⟩ := h
          exact .inr ⟨s', List.mem_cons_of_mem s hs', hbad, c, pos', hpos, by
            rw [heq, List.cons_append]⟩

/-- The pages of a client are a walk. -/
theorem walk_follow (hne : ss ≠ []) (hserves : ∀ s ∈ ss, Serves key call shown rows denotes s)
    (hc : denotes cursor pos) :
    ∃ next, Walk key pos (pages shown rows (follow call cursor ss)) next ∧
      (Finished call (follow call cursor ss) ↔ next = none) := by
  induction ss generalizing cursor pos with
  | nil => exact absurd rfl hne
  | cons s ss ih =>
    obtain ⟨out, text, next, hcall, hpage, htext, hnext⟩ :=
      hserves s List.mem_cons_self cursor pos hc
    have hone : Finished call [(s, cursor)] ↔ next = none := by
      rw [← htext]
      constructor
      · rintro ⟨p, out', hp, hp'⟩
        rw [List.getLast?_singleton, Option.some.injEq] at hp
        rw [← hp, hcall] at hp'
        cases hp'
        rfl
      · rintro rfl
        exact ⟨_, _, rfl, hcall⟩
    simp only [follow, hcall]
    cases next with
    | none =>
      rw [if_pos (htext.mpr rfl)]
      exact ⟨none, .stop hpage, hone⟩
    | some k =>
      have htext' : ¬ text = "" := fun h => by cases htext.mp h
      rw [if_neg htext']
      by_cases hss : ss = []
      · rw [hss]
        exact ⟨some k, .stop hpage, hone⟩
      · obtain ⟨next', hwalk, hiff⟩ := ih hss
          (fun s' hs' => hserves s' (List.mem_cons_of_mem s hs')) (hnext k rfl)
        refine ⟨next', .follow hpage hwalk, ?_⟩
        rw [finished_cons (follow_ne_nil hss)]
        exact hiff

end Follow

end Rdq.Foundation.KeysetPaging
