import Rdq.Server.Router

/-!
# Which requests are authorized for what they act on

The middleware and the mux read one request with two parsers. A slash that is
percent-encoded inside a segment separates segments for the middleware only, and
`HEAD` is `GET` for the mux only. Here the requests are characterised for which
the two agree, so that every answer a handler gives was authorized for the queue
it reads or changes.
-/

namespace Rdq.Server

open Rdq.Foundation.ServeMux

/-- The principal holds the role on what a handler reads or changes; for a task
this is the queue the task is stored with. -/
def Holds (srv : ApiServer) (principal : Principal) (need : Role) : Access → Prop
  | .queue q => principal.allows q need = true
  | .task id => ∀ get task, srv.storage = some get → get id = .ok task →
      principal.allows task.queue need = true
  | .allQueues => principal.allowsGlobal need = true

/-- Whatever a handler answers, other than 404 and 405, was classified and
authorized for what the handler acts on. -/
def Authorized (srv : ApiServer) (principal : Principal) (method : Method) (p : EscapedPath) :
    Prop :=
  ∀ r answer, srv.serve (some principal) method p = .answered r answer →
    answer.status ≠ 404 → answer.status ≠ 405 →
    (∃ op, classifyAuthOp method p.path = some op ∧ op.role = r.role) ∧
      ∀ x, answer.access = some x → Holds srv principal r.role x

/-! ## The segments the middleware sees -/

section Segments

theorem rdropWhile_append_of_ne {w x : List Char} (h : x.rdropWhile (· = '/') ≠ []) :
    (w ++ x).rdropWhile (· = '/') = w ++ x.rdropWhile (· = '/') := by
  unfold List.rdropWhile at h ⊢
  rw [List.reverse_append, List.dropWhile_append, if_neg, List.reverse_append,
    List.reverse_reverse]
  simpa using h

theorem rdropWhile_append_of_eq {w x : List Char} (h : x.rdropWhile (· = '/') = []) :
    (w ++ x).rdropWhile (· = '/') = w.rdropWhile (· = '/') := by
  unfold List.rdropWhile at h ⊢
  rw [List.reverse_append, List.dropWhile_append, if_pos]
  simpa using h

theorem splitOn_append_slash (a b : List Char) :
    (a ++ '/' :: b).splitOn '/' = a.splitOn '/' ++ b.splitOn '/' :=
  List.splitOnP_append_cons a b (by simp)

theorem splitOn_ne_nil (a : List Char) : a.splitOn '/' ≠ [] := List.splitOnP_ne_nil _ a

/-- An encoded slash gives at least two segments. -/
theorem splitOn_of_mem {q : List Char} (h : '/' ∈ q) :
    ∃ a b rest, q.splitOn '/' = a :: b :: rest := by
  obtain ⟨x, y, rfl⟩ := List.append_of_mem h
  rw [splitOn_append_slash]
  obtain ⟨a, as, ha⟩ := List.exists_cons_of_ne_nil (splitOn_ne_nil x)
  obtain ⟨b, bs, hb⟩ := List.exists_cons_of_ne_nil (splitOn_ne_nil y)
  rw [ha, hb]
  cases as with
  | nil => exact ⟨a, b, bs, rfl⟩
  | cons c cs => exact ⟨a, c, cs ++ b :: bs, rfl⟩

/-- The text without the slashes at its end. -/
def trimRight (x : List Char) : List Char := x.rdropWhile (· = '/')

/-- The segments of a text behind the first part of a path. -/
def segmentsOf (x : List Char) : List (List Char) :=
  if trimRight x = [] then [] else (trimRight x).splitOn '/'

theorem splitOn_trimSlashes {w x : List Char} (hne : w ≠ [])
    (hfront : w.dropWhile (· = '/') = w) (hback : trimRight w = w) :
    (trimSlashes ('/' :: (w ++ '/' :: x))).splitOn '/' = w.splitOn '/' ++ segmentsOf x := by
  have hdrop : ('/' :: (w ++ '/' :: x)).dropWhile (· = '/') = w ++ '/' :: x := by
    rw [List.dropWhile_cons_of_pos (by simp), List.dropWhile_append, hfront,
      if_neg (by simpa using hne)]
  unfold trimSlashes segmentsOf
  rw [hdrop]
  by_cases hx : trimRight x = []
  · have hslash : ('/' :: x).rdropWhile (· = '/') = [] := by
      rw [← List.singleton_append, rdropWhile_append_of_eq hx]
      decide
    rw [if_pos hx, List.append_nil, rdropWhile_append_of_eq hslash]
    exact congrArg _ hback
  · have hslash : ('/' :: x).rdropWhile (· = '/') = '/' :: trimRight x := by
      rw [← List.singleton_append, rdropWhile_append_of_ne hx]
      rfl
    rw [if_neg hx, rdropWhile_append_of_ne (by simp [hslash]), hslash, splitOn_append_slash]

theorem trimRight_eq_self {x : List Char} (h : '/' ∉ x) : trimRight x = x := by
  rw [trimRight, List.rdropWhile_eq_self_iff]
  intro hx hlast
  rw [decide_eq_true_eq] at hlast
  exact h (hlast ▸ List.getLast_mem hx)

theorem segmentsOf_eq_singleton {x : List Char} (h : '/' ∉ x) (hne : x ≠ []) :
    segmentsOf x = [x] := by
  rw [segmentsOf, trimRight_eq_self h, if_neg hne, List.splitOn_eq_singleton h]

theorem segmentsOf_append {q tail : List Char} (htail : '/' ∉ tail) (hne : tail ≠ []) :
    segmentsOf (q ++ '/' :: tail) = q.splitOn '/' ++ [tail] := by
  have hslash : ('/' :: tail).rdropWhile (· = '/') = '/' :: tail := by
    rw [← List.singleton_append, rdropWhile_append_of_ne]
    · exact congrArg _ (trimRight_eq_self htail)
    · exact fun h => hne ((trimRight_eq_self htail).symm.trans h)
  have htrim : trimRight (q ++ '/' :: tail) = q ++ '/' :: tail := by
    rw [trimRight, rdropWhile_append_of_ne (by simp [hslash]), hslash]
  rw [segmentsOf, htrim, if_neg (by simp), splitOn_append_slash, List.splitOn_eq_singleton htail]

end Segments

/-! ## What the mux makes of a path -/

section Dispatch
variable {p : EscapedPath} {m : Method} {r : Route} {values : List (List Char)}

/-- The last segments under `/queues/{queue}/`, each with its handler and its method. -/
def queueTails : List (String × Route × Method) :=
  [("tasks", .submitTask, .post), ("tasks:batch", .batchSubmit, .post), ("dlq", .dlqList, .get),
    ("dlq:redrive", .redrive, .post), ("dlq:purge", .purge, .post), ("stats", .stats, .get)]

theorem texts_eq_of_keys {keys : List (List Char)} (h : segmentKeys p.segments = keys)
    (hlast : keys.getLast? ≠ some ['/']) : p.texts = keys := by
  rw [← h] at hlast ⊢
  exact (segmentKeys_eq hlast).symm

/-- The routes a request can be dispatched to, with the segments of its path. -/
inductive Routed (m : Method) (p : EscapedPath) : Route → List (List Char) → Prop
  | queue {tail : String} {r : Route} {m' : Method} (htail : (tail, r, m') ∈ queueTails)
      (q : List Char) (hq : q ≠ ['/']) (h : p.texts = ["queues".toList, q, tail.toList]) :
      Routed m p r [q]
  | task (id : List Char) (hid : id ≠ ['/']) (hne : id ≠ []) (h : p.texts = ["tasks".toList, id]) :
      Routed m p .getTask [id]
  | action (x : List Char) (xs : List (List Char))
      (h : p.texts = "admin".toList :: "queues".toList :: x :: xs) : Routed m p .queueAction []
  | listing (hm : m = .get ∨ m = .head) (h : p.texts = ["admin".toList, "queues".toList]) :
      Routed m p .listQueues []
  | config (q : List Char) (hq : q ≠ ['/'])
      (h : p.texts = ["admin".toList, "queues".toList, q, "config".toList]) :
      Routed m p .queueConfig [q]
  | delete (hm : m = .delete) (q : List Char) (hq : q ≠ ['/']) (hne : q ≠ [])
      (h : p.texts = ["admin".toList, "queues".toList, q]) : Routed m p .deleteQueue [q]
  | notFound (values : List (List Char)) : Routed m p .notFound values

theorem routed_queue {tail : String} (m' : Method) (htail : (tail, r, m') ∈ queueTails)
    (hslash : tail.toList ≠ ['/'])
    (h : Fits (queuePattern tail r).segments (segmentKeys p.segments) values) :
    Routed m p r values := by
  obtain ⟨k₁, hk, h₁⟩ := h.of_literal
  obtain ⟨q, k₂, vs, rfl, rfl, hq, h₂⟩ := h₁.of_wildcard
  obtain ⟨k₃, rfl, h₃⟩ := h₂.of_literal
  obtain ⟨rfl, rfl⟩ := h₃.of_nil
  exact .queue htail q hq (texts_eq_of_keys hk (by simpa using hslash))

/-- The segments under `/admin/queues`. -/
theorem keys_admin {ps : List PatternSegment}
    (h : Fits (.literal "admin".toList :: .literal "queues".toList :: ps)
      (segmentKeys p.segments) values) :
    ∃ keys, segmentKeys p.segments = "admin".toList :: "queues".toList :: keys ∧
      Fits ps keys values := by
  obtain ⟨k₁, hk, h₁⟩ := h.of_literal
  obtain ⟨k₂, rfl, h₂⟩ := h₁.of_literal
  exact ⟨k₂, hk, h₂⟩

/-- A wildcard in last position takes a text that is not empty. -/
theorem ne_nil_of_last (keys : List (List Char)) {key : List Char}
    (h : segmentKeys p.segments = keys ++ [key]) : key ≠ [] := by
  rintro rfl
  exact getLast?_segmentKeys_ne p.segments (by rw [h]; simp)

theorem routed_of_dispatch (h : dispatch v1Patterns m p = .handler r values) :
    Routed m p r values := by
  obtain ⟨pat, hpat, rfl, hm, hfits, _⟩ := dispatch_handler h
  simp only [v1Patterns, List.mem_cons, List.not_mem_nil, or_false] at hpat
  rcases hpat with rfl | rfl | rfl | rfl | rfl | rfl | rfl | rfl | rfl | rfl | rfl | rfl
  · exact routed_queue .post (by decide) (by decide) hfits
  · exact routed_queue .post (by decide) (by decide) hfits
  · obtain ⟨k₁, hk, h₁⟩ := hfits.of_literal
    obtain ⟨id, k₂, vs, rfl, rfl, hid, h₂⟩ := h₁.of_wildcard
    obtain ⟨rfl, rfl⟩ := h₂.of_nil
    exact .task id hid (ne_nil_of_last ["tasks".toList] hk)
      (texts_eq_of_keys hk (by simpa using hid))
  · exact routed_queue .get (by decide) (by decide) hfits
  · exact routed_queue .post (by decide) (by decide) hfits
  · exact routed_queue .post (by decide) (by decide) hfits
  · exact routed_queue .get (by decide) (by decide) hfits
  · obtain ⟨k, hk, h₁⟩ := keys_admin hfits
    obtain ⟨key, rest, rfl, rfl⟩ := h₁.of_rest
    obtain ⟨s₁, l₁, hl₁, hs₁, hk₁⟩ := segmentKeys_cons_cons hk
    obtain ⟨s₂, l₂, rfl, hs₂, hk₂⟩ := segmentKeys_cons_cons hk₁
    cases l₂ with
    | nil => cases hk₂
    | cons s₃ l₃ =>
      refine .action (unescape s₃) (l₃.map unescape) ?_
      rw [EscapedPath.texts, hl₁, List.map_cons, List.map_cons, List.map_cons, hs₁, hs₂]
  · obtain ⟨k, hk, h₁⟩ := keys_admin hfits
    obtain ⟨rfl, rfl⟩ := h₁.of_nil
    refine .listing ?_ (texts_eq_of_keys hk (by decide))
    rcases hm with hm | hm | ⟨_, hm⟩
    · cases hm
    · exact Or.inl (Option.some.inj hm).symm
    · exact Or.inr hm
  · obtain ⟨k, hk, h₁⟩ := keys_admin hfits
    obtain ⟨q, k₂, vs, rfl, rfl, hq, h₂⟩ := h₁.of_wildcard
    obtain ⟨k₃, rfl, h₃⟩ := h₂.of_literal
    obtain ⟨rfl, rfl⟩ := h₃.of_nil
    exact .config q hq (texts_eq_of_keys hk (by simp))
  · obtain ⟨k, hk, h₁⟩ := keys_admin hfits
    obtain ⟨q, k₂, vs, rfl, rfl, hq, h₂⟩ := h₁.of_wildcard
    obtain ⟨rfl, rfl⟩ := h₂.of_nil
    refine .delete ?_ q hq (ne_nil_of_last ["admin".toList, "queues".toList] hk)
      (texts_eq_of_keys hk (by simpa using hq))
    rcases hm with hm | hm | ⟨hm, _⟩
    · cases hm
    · exact (Option.some.inj hm).symm
    · cases hm
  · exact .notFound values

end Dispatch

/-! ## What the middleware makes of a path -/

section Classify
variable (m : Method)

theorem classify_queue (q : List Char) {tail : List Char} (htail : '/' ∉ tail) (hne : tail ≠ []) :
    classifyAuthOp m ('/' :: ("queues".toList ++ '/' :: (q ++ '/' :: tail))) =
      classifyQueue m (q.splitOn '/' ++ [tail]) := by
  rw [classifyAuthOp, splitOn_trimSlashes (by decide) (by decide) (by decide),
    segmentsOf_append htail hne]
  rfl

theorem classify_task (id : List Char) :
    classifyAuthOp m ('/' :: ("tasks".toList ++ '/' :: id)) = classifyTask m (segmentsOf id) := by
  rw [classifyAuthOp, splitOn_trimSlashes (by decide) (by decide) (by decide)]
  rfl

theorem classify_admin (name : List Char) :
    classifyAuthOp m ('/' :: ("admin/queues".toList ++ '/' :: name)) =
      classifyAdmin m ("queues".toList :: segmentsOf name) := by
  rw [classifyAuthOp, splitOn_trimSlashes (by decide) (by decide) (by decide)]
  rfl

/-- An operation on a queue whose name has no slash is classified as its handler needs it. -/
theorem classifyQueue_of_mem {tail : String} {r : Route} {q : List Char}
    (htail : (tail, r, m) ∈ queueTails) (hq : q ≠ []) :
    classifyQueue m [q, tail.toList] = some ⟨r.role, .queue q⟩ := by
  simp only [queueTails, List.mem_cons, Prod.mk.injEq, List.not_mem_nil, or_false] at htail
  rcases htail with ⟨rfl, rfl, rfl⟩ | ⟨rfl, rfl, rfl⟩ | ⟨rfl, rfl, rfl⟩ | ⟨rfl, rfl, rfl⟩ |
    ⟨rfl, rfl, rfl⟩ | ⟨rfl, rfl, rfl⟩ <;> simp [classifyQueue, hq, Route.role]

theorem tail_of_mem {tail : String} {r : Route} {m' : Method}
    (htail : (tail, r, m') ∈ queueTails) : '/' ∉ tail.toList ∧ tail.toList ≠ [] := by
  have hall : ∀ t ∈ queueTails, '/' ∉ t.1.toList ∧ t.1.toList ≠ [] := by decide
  exact hall _ htail

end Classify

section Serve
variable {srv : ApiServer} {principal : Principal} {m : Method} {p : EscapedPath} {r : Route}
  {a : Answer}

/-- A handler answers only what the middleware let through. -/
theorem serve_answered (h : srv.serve (some principal) m p = .answered r a) :
    (∃ values, Routed m p r values ∧ a = srv.handle m p.path r values ∧
        (m ≠ .connect → p.clean = true)) ∧
      ∀ op, classifyAuthOp m p.path = some op → srv.authorize principal op = .ok true := by
  have hnext : srv.next m p = .answered r a ∧
      ∀ op, classifyAuthOp m p.path = some op → srv.authorize principal op = .ok true := by
    simp only [ApiServer.serve] at h
    cases hop : classifyAuthOp m p.path with
    | none =>
      rw [hop] at h
      exact ⟨h, fun op hop' => by cases hop'⟩
    | some op =>
      rw [hop] at h
      simp only at h
      split at h
      · cases h
      · cases h
      · rename_i hok
        refine ⟨h, fun op' hop' => ?_⟩
        cases hop'
        exact hok
  refine ⟨?_, hnext.2⟩
  have hn := hnext.1
  unfold ApiServer.next at hn
  split at hn
  · cases hn
  · cases hn
  · rename_i r' values hd
    cases hn
    obtain ⟨_, _, _, _, _, hclean⟩ := dispatch_handler hd
    exact ⟨values, routed_of_dispatch hd, rfl, hclean⟩

/-- In a clean path only the last segment can be empty. -/
theorem ne_nil_of_clean (hclean : p.clean = true) (l₁ : List (List Char))
    {l₂ : List (List Char)} {q b : List Char}
    (h : p.texts = l₁ ++ q :: b :: l₂) : q ≠ [] := by
  obtain ⟨s₁, s₂, hs, _, h₂⟩ := List.map_eq_append_iff.mp h
  obtain ⟨s, s₃, rfl, hq, h₃⟩ := List.map_eq_cons_iff.mp h₂
  obtain ⟨t, s₄, rfl, _, _⟩ := List.map_eq_cons_iff.mp h₃
  unfold EscapedPath.clean at hclean
  rw [Bool.and_eq_true, List.all_eq_true, hs] at hclean
  have hs' := hclean.1 s (by rw [List.dropLast_append_of_ne_nil (by simp)]; simp)
  rw [← hq]
  simpa [unescape] using hs'

theorem status_only {allowed : Method} (h : (only allowed m a).status ≠ 405) :
    m = allowed ∧ only allowed m a = a := by
  unfold only at h ⊢
  split at h
  · exact absurd rfl h
  · rename_i hm
    exact ⟨not_not.mp hm, if_neg hm⟩

theorem handle_queue {tail : String} {m' : Method} (htail : (tail, r, m') ∈ queueTails)
    (path q : List Char) :
    srv.handle m path r [q] = only m' m (srv.onQueue r (String.ofList q)) := by
  simp only [queueTails, List.mem_cons, Prod.mk.injEq, List.not_mem_nil, or_false] at htail
  rcases htail with ⟨_, rfl, rfl⟩ | ⟨_, rfl, rfl⟩ | ⟨_, rfl, rfl⟩ | ⟨_, rfl, rfl⟩ |
    ⟨_, rfl, rfl⟩ | ⟨_, rfl, rfl⟩ <;> rfl

theorem ne_connect {tail : String} {m' : Method} (htail : (tail, r, m') ∈ queueTails) :
    m' ≠ .connect := by
  have hall : ∀ t ∈ queueTails, t.2.2 ≠ .connect := by decide
  exact hall _ htail

theorem access_handleGetTask {id : String} {x : Access}
    (h : (srv.handleGetTask id).access = some x) : x = .task id := by
  unfold ApiServer.handleGetTask at h
  split at h
  · cases h
  · split at h <;> exact (Option.some.inj h).symm

theorem access_onQueue {q : String} {x : Access} (h : (srv.onQueue r q).access = some x) :
    x = .queue q := by
  unfold ApiServer.onQueue at h
  split at h
  · cases h
  · exact (Option.some.inj h).symm

theorem access_handleListQueues {x : Access} (h : srv.handleListQueues.access = some x) :
    x = .allQueues := by
  unfold ApiServer.handleListQueues at h
  split at h
  · cases h
  · exact (Option.some.inj h).symm

theorem access_onConfig {q : String} {x : Access} (h : (srv.onConfig r q).access = some x) :
    x = .queue q ∧ validQueue q = true := by
  unfold ApiServer.onConfig at h
  split at h
  · cases h
  · split at h
    · cases h
    · rename_i hvalid
      exact ⟨(Option.some.inj h).symm, by simpa using hvalid⟩

theorem slash_notMem_of_validQueue {q : List Char} (h : validQueue (String.ofList q) = true) :
    '/' ∉ q := by
  intro hmem
  simp only [validQueue, String.toList_ofList, Bool.and_eq_true, List.all_eq_true] at h
  exact absurd (h.2 '/' hmem) (by decide)

theorem holds_queue {q : List Char} {need : Role}
    (h : srv.authorize principal ⟨need, .queue q⟩ = .ok true) :
    Holds srv principal need (.queue (String.ofList q)) := by
  simpa [ApiServer.authorize, Holds] using h

theorem holds_task {id : List Char} {need : Role}
    (h : srv.authorize principal ⟨need, .fromTask id⟩ = .ok true) :
    Holds srv principal need (.task (String.ofList id)) := by
  intro get task hget htask
  simpa [ApiServer.authorize, hget, htask] using h

end Serve

/-- The two parsers read the request alike: where a segment stands for a queue or a
task it holds no slash, and the listing is not asked for by `HEAD`. A segment that is
an encoded slash alone is no wildcard to the mux. For a deletion, the slashes at the
end may stay: the handler rejects such a name. -/
structure Unambiguous (m : Method) (texts : List (List Char)) : Prop where
  queue : ∀ q tail r, texts = ["queues".toList, q, tail.toList] → (tail, r, m) ∈ queueTails →
    q ≠ ['/'] → '/' ∉ q
  task : ∀ id, texts = ["tasks".toList, id] → m = .get → id ≠ ['/'] → '/' ∉ id
  listing : texts = ["admin".toList, "queues".toList] → m ≠ .head
  config : ∀ q, texts = ["admin".toList, "queues".toList, q, "config".toList] →
    m = .get ∨ m = .put → q ≠ ['/'] → '/' ∉ q
  delete : ∀ q, texts = ["admin".toList, "queues".toList, q] → m = .delete → q ≠ ['/'] → q ≠ [] →
    trimRight q ≠ [] ∧ '/' ∉ trimRight q ∧ ':' ∉ trimRight q

section Agree
variable {srv : ApiServer} {principal : Principal} {m : Method} {p : EscapedPath} {r : Route}
  {q : List Char}

theorem path_eq {texts : List (List Char)} (h : p.texts = texts) :
    p.path = texts.flatMap ('/' :: ·) := by
  rw [EscapedPath.path, h]

/-- A handler of a queue, classified for its queue. -/
theorem queue_classified {tail : String} (htail : (tail, r, m) ∈ queueTails)
    (h : p.texts = ["queues".toList, q, tail.toList]) (hq : '/' ∉ q) (hne : q ≠ []) :
    classifyAuthOp m p.path = some ⟨r.role, .queue q⟩ := by
  obtain ⟨hslash, htne⟩ := tail_of_mem htail
  have hpath : p.path = '/' :: ("queues".toList ++ '/' :: (q ++ '/' :: tail.toList)) := by
    rw [path_eq h]
    simp
  rw [hpath, classify_queue m q hslash htne, List.splitOn_eq_singleton hq]
  exact classifyQueue_of_mem m htail hne

theorem task_classified (h : p.texts = ["tasks".toList, q]) (hq : '/' ∉ q) (hne : q ≠ []) :
    classifyAuthOp .get p.path = some ⟨.submitter, .fromTask q⟩ := by
  have hpath : p.path = '/' :: ("tasks".toList ++ '/' :: q) := by
    rw [path_eq h]
    simp
  rw [hpath, classify_task, segmentsOf_eq_singleton hq hne]
  simp [classifyTask, hne]

theorem path_admin {name : List Char} {rest : List (List Char)}
    (h : p.texts = "admin".toList :: "queues".toList :: name :: rest) :
    p.path = '/' :: ("admin/queues".toList ++ '/' :: (name ++ rest.flatMap ('/' :: ·))) := by
  rw [path_eq h]
  simp

theorem config_classified (h : p.texts = ["admin".toList, "queues".toList, q, "config".toList])
    (hm : m = .get ∨ m = .put) (hq : '/' ∉ q) (hne : q ≠ []) :
    classifyAuthOp m p.path = some ⟨.admin, .queue q⟩ := by
  have hname : q ++ ["config".toList].flatMap ('/' :: ·) = q ++ '/' :: "config".toList := by simp
  rw [path_admin h, hname, classify_admin, segmentsOf_append (by decide) (by decide),
    List.splitOn_eq_singleton hq]
  simp [classifyAdmin, hne, hm]

theorem delete_classified (h : p.texts = ["admin".toList, "queues".toList, q])
    (hne : trimRight q ≠ []) (hslash : '/' ∉ trimRight q) (hcolon : ':' ∉ trimRight q) :
    classifyAuthOp .delete p.path = some ⟨.admin, .queue (trimRight q)⟩ := by
  rw [path_admin h, List.flatMap_nil, List.append_nil, classify_admin, segmentsOf, if_neg hne,
    List.splitOn_eq_singleton hslash]
  simp [classifyAdmin, hcolon]

theorem cutSuffix_eq_some {s suffix q : List Char} (h : cutSuffix s suffix = some q) :
    s = q ++ suffix := by
  unfold cutSuffix at h
  split at h
  · rename_i hs
    obtain ⟨t, rfl⟩ := List.isSuffixOf_iff_suffix.mp hs
    cases h
    simp
  · cases h

/-- The action handler behind its path. -/
theorem handleAdminQueueAction_eq (x : List Char) :
    ApiServer.handleAdminQueueAction m ('/' :: ("admin/queues".toList ++ '/' :: x)) =
      match (cutSuffix x ":pause".toList).or (cutSuffix x ":resume".toList) with
      | none => { status := 404 }
      | some queue =>
        if queue = [] ∨ '/' ∈ queue then { status := 404 }
        else if m ≠ .post then { status := 405 }
        else { status := 204, access := some (.queue (String.ofList queue)) } := by
  rfl

/-- The handler and the classification cut the same action off a name. -/
theorem classifyAction_of_cut {x : List Char} (hne : q ≠ [])
    (h : (cutSuffix x ":pause".toList).or (cutSuffix x ":resume".toList) = some q) :
    classifyAction x = some ⟨.operator, .queue q⟩ ∧ ∃ action, '/' ∉ action ∧ x = q ++ action := by
  have hfilter : (some q).filter (· ≠ []) = some q := by simp [Option.filter, hne]
  rcases Option.or_eq_some_iff.mp h with h | ⟨hnone, h⟩
  · exact ⟨by rw [classifyAction, h, hfilter], _, by decide, cutSuffix_eq_some h⟩
  · exact ⟨by rw [classifyAction, hnone, h, hfilter]; rfl, _, by decide, cutSuffix_eq_some h⟩

/-- What the action handler acts on was classified, whatever the path. -/
theorem action_classified {name : List Char} {rest : List (List Char)}
    (h : p.texts = "admin".toList :: "queues".toList :: name :: rest)
    (h404 : (ApiServer.handleAdminQueueAction m p.path).status ≠ 404)
    (h405 : (ApiServer.handleAdminQueueAction m p.path).status ≠ 405) :
    ∃ q, classifyAuthOp m p.path = some ⟨.operator, .queue q⟩ ∧
      (ApiServer.handleAdminQueueAction m p.path).access = some (.queue (String.ofList q)) := by
  rw [path_admin h, handleAdminQueueAction_eq] at h404 h405 ⊢
  generalize name ++ rest.flatMap ('/' :: ·) = x at h404 h405 ⊢
  cases hcut : (cutSuffix x ":pause".toList).or (cutSuffix x ":resume".toList) with
  | none =>
    rw [hcut] at h404
    exact absurd rfl h404
  | some q =>
    simp only [hcut] at h404 h405 ⊢
    split at h404
    · exact absurd rfl h404
    rename_i hq
    rw [if_neg hq] at h405 ⊢
    rw [not_or] at hq
    split at h405
    · exact absurd rfl h405
    rename_i hm
    rw [if_neg hm]
    obtain ⟨hclass, action, haction, rfl⟩ := classifyAction_of_cut hq.1 hcut
    refine ⟨q, ?_, rfl⟩
    rw [classify_admin, segmentsOf_eq_singleton (by simp [hq.2, haction]) (by simp [hq.1]),
      not_not.mp hm]
    simpa [classifyAdmin] using hclass

/-- Requests that both parsers read alike are authorized for what they act on. -/
theorem authorized_of_unambiguous (h : p.clean = true → Unambiguous m p.texts)
    (srv : ApiServer) (principal : Principal) : Authorized srv principal m p := by
  intro r a hserve h404 h405
  obtain ⟨⟨values, hrouted, rfl, hclean⟩, hauth⟩ := serve_answered hserve
  cases hrouted with
  | queue htail q hq htexts =>
    rw [handle_queue htail] at h405 ⊢
    obtain ⟨rfl, honly⟩ := status_only h405
    have hc := hclean (ne_connect htail)
    have hslash := (h hc).queue q _ _ htexts htail hq
    have hclass := queue_classified htail htexts hslash
      (ne_nil_of_clean hc ["queues".toList] htexts)
    refine ⟨⟨_, hclass, rfl⟩, ?_⟩
    intro x hx
    rw [honly] at hx
    rw [access_onQueue hx]
    exact holds_queue (hauth _ hclass)
  | task id hid hne htexts =>
    obtain ⟨rfl, honly⟩ := status_only h405
    have hslash := (h (hclean (by simp))).task id htexts rfl hid
    have hclass := task_classified htexts hslash hne
    refine ⟨⟨_, hclass, rfl⟩, ?_⟩
    intro x hx
    rw [access_handleGetTask ((congrArg Answer.access honly).symm.trans hx)]
    exact holds_task (hauth _ hclass)
  | action x xs htexts =>
    obtain ⟨q, hclass, haccess⟩ := action_classified htexts h404 h405
    refine ⟨⟨_, hclass, rfl⟩, ?_⟩
    intro y hy
    cases hy.symm.trans haccess
    exact holds_queue (hauth _ hclass)
  | listing hm htexts =>
    have hget : m = .get := by
      refine hm.resolve_right fun hhead => ?_
      exact (h (hclean (by simp [hhead]))).listing htexts hhead
    subst hget
    have hclass : classifyAuthOp .get p.path = some ⟨.admin, .global⟩ := by
      rw [path_eq htexts]
      decide
    refine ⟨⟨_, hclass, rfl⟩, ?_⟩
    intro x hx
    rw [access_handleListQueues hx]
    exact Except.ok.inj (hauth _ hclass)
  | config q hq htexts =>
    have hm : m = .get ∨ m = .put := by
      by_contra hm
      exact h405 (by simp [ApiServer.handle, hm])
    have hc := hclean (by rcases hm with rfl | rfl <;> simp)
    have hclass := config_classified htexts hm ((h hc).config q htexts hm hq)
      (ne_nil_of_clean hc ["admin".toList, "queues".toList] htexts)
    refine ⟨⟨_, hclass, rfl⟩, ?_⟩
    intro x hx
    simp only [ApiServer.handle, if_pos hm] at hx
    rw [(access_onConfig hx).1]
    exact holds_queue (hauth _ hclass)
  | delete hm q hq hne htexts =>
    subst hm
    obtain ⟨htrim, hslash, hcolon⟩ := (h (hclean (by simp))).delete q htexts rfl hq hne
    have hclass := delete_classified htexts htrim hslash hcolon
    refine ⟨⟨_, hclass, rfl⟩, ?_⟩
    intro x hx
    obtain ⟨rfl, hvalid⟩ := access_onConfig hx
    have hsame : trimRight q = q := trimRight_eq_self (slash_notMem_of_validQueue hvalid)
    rw [hsame] at hclass
    exact holds_queue (hauth _ hclass)
  | notFound values => exact absurd rfl h404

end Agree

/-! ## Requests that are read differently -/

section Differ
variable {m : Method} {p : EscapedPath} {r : Route} {q : List Char}

/-- A server without stores: its handlers answer 503. -/
def bareServer : ApiServer where
  storage := none
  configStore := false
  finish := fun r _ => r.endings.headD 0
  finish_mem := by
    intro r q h
    obtain ⟨n, ns, hns⟩ := List.exists_cons_of_ne_nil h
    simp [hns]

/-- A request that is not classified goes to its handler. -/
theorem not_authorized_of_unclassified (hclass : classifyAuthOp m p.path = none)
    {values : List (List Char)} (hd : dispatch v1Patterns m p = .handler r values)
    (hstatus : (bareServer.handle m p.path r values).status = 503) (principal : Principal) :
    ¬ Authorized bareServer principal m p := by
  intro h
  have hserve : bareServer.serve (some principal) m p =
      .answered r (bareServer.handle m p.path r values) := by
    simp [ApiServer.serve, hclass, ApiServer.next, hd]
  obtain ⟨⟨op, hop, _⟩, _⟩ := h r _ hserve (by simp [hstatus]) (by simp [hstatus])
  rw [hclass] at hop
  cases hop

/-- A pattern without a trailing slash is dispatched as found. -/
theorem dispatch_of_found (hclean : p.clean = true) {values : List (List Char)}
    (hlast : p.texts.getLast? ≠ some [])
    (h : matchMethodAndPath v1Patterns m p.texts = some ⟨r, values, none⟩) :
    dispatch v1Patterns m p = .handler r values := by
  have hkeys : segmentKeys p.segments = p.texts := segmentKeys_eq_of_last hlast
  simp [dispatch, hclean, hkeys, h, exactMatch]

/-- Beside the listing and the deletion, patterns without a method decide. -/
theorem found_of_plain {keys : List (List Char)} {f : Found Route} (hdelete : m ≠ .delete)
    (hhead : m ≠ .head) (hkeys : keys ≠ ["admin".toList, "queues".toList])
    (h : matchPath (registered none v1Patterns) keys = some f) :
    matchMethodAndPath v1Patterns m keys = some f := by
  have hmethod : matchPath (registered (some m) v1Patterns) keys = none := by
    cases hf : matchPath (registered (some m) v1Patterns) keys with
    | none => rfl
    | some f =>
      obtain ⟨pat, hpat, _, hm, hfits⟩ := fits_of_registered hf
      simp only [v1Patterns, List.mem_cons, List.not_mem_nil, or_false] at hpat
      rcases hpat with rfl | rfl | rfl | rfl | rfl | rfl | rfl | rfl | rfl | rfl | rfl | rfl <;>
        try cases hm
      · obtain ⟨k₁, rfl, h₁⟩ := hfits.of_literal
        obtain ⟨k₂, rfl, h₂⟩ := h₁.of_literal
        obtain ⟨rfl, _⟩ := h₂.of_nil
        exact absurd rfl hkeys
      · exact absurd rfl hdelete
  rw [matchMethodAndPath, hmethod, if_neg hhead, h]
  rfl

theorem matches_queue {tail : String} (htail : (tail, r, m) ∈ queueTails) (hq : q ≠ ['/']) :
    matchMethodAndPath v1Patterns m ["queues".toList, q, tail.toList] = some ⟨r, [q], none⟩ := by
  simp only [queueTails, List.mem_cons, Prod.mk.injEq, List.not_mem_nil, or_false] at htail
  rcases htail with ⟨rfl, rfl, rfl⟩ | ⟨rfl, rfl, rfl⟩ | ⟨rfl, rfl, rfl⟩ | ⟨rfl, rfl, rfl⟩ |
    ⟨rfl, rfl, rfl⟩ | ⟨rfl, rfl, rfl⟩ <;>
  exact found_of_plain (by decide) (by decide) (by simp)
    (matchPath_literal (matchPath_wildcard hq rfl rfl))

theorem matches_task (hq : q ≠ ['/']) :
    matchMethodAndPath v1Patterns .get ["tasks".toList, q] = some ⟨.getTask, [q], none⟩ :=
  found_of_plain (by decide) (by decide) (by simp)
    (matchPath_literal (matchPath_wildcard hq rfl rfl))

theorem matches_listing :
    matchMethodAndPath v1Patterns .head ["admin".toList, "queues".toList] =
      some ⟨.listQueues, [], none⟩ := rfl

theorem matches_config (hm : m = .get ∨ m = .put) (hq : q ≠ ['/']) :
    matchMethodAndPath v1Patterns m ["admin".toList, "queues".toList, q, "config".toList] =
      some ⟨.queueConfig, [q], none⟩ := by
  rcases hm with rfl | rfl <;>
  exact found_of_plain (by decide) (by decide) (by simp)
    (matchPath_literal (matchPath_literal (matchPath_wildcard hq rfl rfl)))

theorem matches_delete (hq : q ≠ ['/']) :
    matchMethodAndPath v1Patterns .delete ["admin".toList, "queues".toList, q] =
      some ⟨.deleteQueue, [q], none⟩ := by
  rw [matchMethodAndPath,
    matchPath_literal (matchPath_literal (matchPath_wildcard hq rfl rfl))]
  rfl

/-- The middleware takes a queue with a slash for several segments. -/
theorem classifyQueue_of_slash (hq : '/' ∈ q) (tail : List Char) :
    classifyQueue m (q.splitOn '/' ++ [tail]) = none := by
  obtain ⟨a, b, rest, h⟩ := splitOn_of_mem hq
  rw [h]
  cases rest <;> rfl

theorem classifyConfig_of_slash (hq : '/' ∈ q) (tail : List Char) :
    classifyAdmin m ("queues".toList :: (q.splitOn '/' ++ [tail])) = none := by
  obtain ⟨a, b, rest, h⟩ := splitOn_of_mem hq
  rw [h]
  cases rest <;> rfl

theorem classifyDelete_eq_none
    (h : ¬(trimRight q ≠ [] ∧ '/' ∉ trimRight q ∧ ':' ∉ trimRight q)) :
    classifyAdmin .delete ("queues".toList :: segmentsOf q) = none := by
  unfold segmentsOf
  split
  · rfl
  · rename_i hne
    by_cases hslash : '/' ∈ trimRight q
    · obtain ⟨a, b, rest, hsplit⟩ := splitOn_of_mem hslash
      rw [hsplit]
      cases rest with
      | nil => simp [classifyAdmin]
      | cons c rest => rfl
    · have hcolon : ':' ∈ trimRight q := by
        by_contra hcolon
        exact h ⟨hne, hslash, hcolon⟩
      rw [List.splitOn_eq_singleton hslash]
      simp [classifyAdmin, hcolon]

/-- The task the middleware asks for is not the one the handler reads. -/
theorem taskID_ne {op : AuthOp} (hid : '/' ∈ q)
    (h : classifyTask .get (segmentsOf q) = some op) :
    ∃ id, id ≠ q ∧ op = ⟨.submitter, .fromTask id⟩ := by
  unfold classifyTask at h
  split at h
  · rename_i id hsegs
    split at h
    · cases h
      refine ⟨id, ?_, rfl⟩
      rintro rfl
      unfold segmentsOf at hsegs
      split at hsegs
      · cases hsegs
      · -- a single segment is the whole text, which then has no slash
        have hjoin : ['/'].intercalate ((trimRight id).splitOn '/') = trimRight id :=
          List.intercalate_splitOn '/'
        rw [hsegs] at hjoin
        have hself : trimRight id = id := by simpa using hjoin.symm
        obtain ⟨a, b, rest, hsplit⟩ := splitOn_of_mem hid
        rw [hself, hsplit] at hsegs
        cases hsegs
    · cases h
  · cases h

/-- A server with two queues: the task under `id` is in queue `a`, all others in `b`. -/
def twoQueues (id : String) : ApiServer where
  storage := some fun x => .ok (Envelope.submitted x (if x = id then "a" else "b") "h" 0)
  configStore := false
  finish := bareServer.finish
  finish_mem := bareServer.finish_mem

/-- A submitter on queue `a` alone. -/
def submitterOnA : Principal := ⟨"a-team", [⟨"a", .submitter⟩]⟩

theorem submitterOnA_allows {queue : String} :
    submitterOnA.allows queue .submitter = true ↔ queue = "a" := by
  have hglob : glob "a" queue = true ↔ queue = "a" := by
    rw [glob, globOver_of_notMem Foundation.selfSync_utf8 (by decide),
      show "a".toList = ['a'] from rfl, Foundation.Matches.cons_iff (by decide)]
    constructor
    · rintro ⟨c, s, hs, hc, h⟩
      rw [Foundation.Matches.nil_iff.mp h, ← hc.resolve_left (by decide)] at hs
      exact String.toList_inj.mp hs
    · rintro rfl
      exact ⟨'a', [], rfl, Or.inr rfl, .nil⟩
  simp [submitterOnA, Principal.allows, hglob]

/-- Reading a task under the grant for another one. -/
theorem not_authorized_task {id : List Char} (hne : id ≠ q)
    (hclass : classifyAuthOp .get p.path = some ⟨.submitter, .fromTask id⟩)
    (hd : dispatch v1Patterns .get p = .handler .getTask [q]) :
    ¬ Authorized (twoQueues (String.ofList id)) submitterOnA .get p := by
  intro h
  have hne' : String.ofList q ≠ String.ofList id := by
    intro heq
    exact hne (String.ofList_injective heq).symm
  have hserve : (twoQueues (String.ofList id)).serve (some submitterOnA) .get p =
      .answered .getTask { status := 200, access := some (.task (String.ofList q)) } := by
    have hallows : (twoQueues (String.ofList id)).authorize submitterOnA
        ⟨.submitter, .fromTask id⟩ = .ok true := by
      simp [ApiServer.authorize, twoQueues, Envelope.submitted, submitterOnA_allows]
    simp only [ApiServer.serve, hclass, hallows, ApiServer.next, hd]
    rfl
  obtain ⟨_, hholds⟩ := h _ _ hserve (by simp) (by simp)
  have hb := hholds _ rfl _ _ rfl rfl
  simp [Envelope.submitted, Route.role, submitterOnA_allows, hne'] at hb

/-- Requests that are authorized on every server and for every principal are read alike. -/
theorem unambiguous_of_authorized
    (h : ∀ srv principal, Authorized srv principal m p) (hclean : p.clean = true) :
    Unambiguous m p.texts where
  queue := by
    intro q tail r htexts htail hq hslash
    obtain ⟨htslash, htne⟩ := tail_of_mem htail
    have hpath : p.path = '/' :: ("queues".toList ++ '/' :: (q ++ '/' :: tail.toList)) := by
      rw [path_eq htexts]
      simp
    have hclass : classifyAuthOp m p.path = none := by
      rw [hpath, classify_queue m q htslash htne, classifyQueue_of_slash hslash]
    refine not_authorized_of_unclassified hclass
      (dispatch_of_found hclean (by simpa [htexts] using htne)
        (htexts ▸ matches_queue htail hq)) ?_ submitterOnA (h _ _)
    rw [handle_queue htail]
    simp [only, ApiServer.onQueue, bareServer]
  task := by
    rintro id htexts rfl hid hslash
    have hpath : p.path = '/' :: ("tasks".toList ++ '/' :: id) := by
      rw [path_eq htexts]
      simp
    have hne : id ≠ [] := List.ne_nil_of_mem hslash
    have hd := dispatch_of_found hclean (by simpa [htexts] using hne)
      (htexts ▸ matches_task hid)
    cases hop : classifyTask .get (segmentsOf id) with
    | none =>
      exact not_authorized_of_unclassified (by rw [hpath, classify_task, hop]) hd rfl
        submitterOnA (h _ _)
    | some op =>
      obtain ⟨id', hne', rfl⟩ := taskID_ne hslash hop
      exact not_authorized_task hne' (by rw [hpath, classify_task, hop]) hd (h _ _)
  listing := by
    rintro htexts rfl
    have hclass : classifyAuthOp .head p.path = none := by
      rw [path_eq htexts]
      decide
    exact not_authorized_of_unclassified hclass
      (dispatch_of_found hclean (by rw [htexts]; decide) (htexts ▸ matches_listing)) rfl
      submitterOnA (h _ _)
  config := by
    intro q htexts hm hq hslash
    have hname : q ++ ["config".toList].flatMap ('/' :: ·) = q ++ '/' :: "config".toList := by
      simp
    have hclass : classifyAuthOp m p.path = none := by
      rw [path_admin htexts, hname, classify_admin, segmentsOf_append (by decide) (by decide),
        classifyConfig_of_slash hslash]
    refine not_authorized_of_unclassified hclass
      (dispatch_of_found hclean (by rw [htexts]; simp) (htexts ▸ matches_config hm hq)) ?_
      submitterOnA (h _ _)
    simp [ApiServer.handle, hm, ApiServer.onConfig, bareServer]
  delete := by
    rintro q htexts rfl hq hne
    by_contra hcond
    have hclass : classifyAuthOp .delete p.path = none := by
      rw [path_admin htexts, List.flatMap_nil, List.append_nil, classify_admin,
        classifyDelete_eq_none hcond]
    exact not_authorized_of_unclassified hclass
      (dispatch_of_found hclean (by simpa [htexts] using hne) (htexts ▸ matches_delete hq)) rfl
      submitterOnA (h _ _)

end Differ

/-- A method and a path are safe on every server and for every principal exactly when
the middleware and the mux read them alike. -/
theorem authorized_iff_unambiguous (m : Method) (p : EscapedPath) :
    (∀ srv principal, Authorized srv principal m p) ↔
      (p.clean = true → Unambiguous m p.texts) :=
  ⟨unambiguous_of_authorized, authorized_of_unambiguous⟩

/-- A segment without percent-encoded characters. -/
def plainSegment (s : String) : Segment := s.toList.map .plain

/-- `/admin/queues` -/
def listingPath : EscapedPath := ⟨[plainSegment "admin", plainSegment "queues"], by simp, by decide⟩

/-- `/queues/a%2Fb/dlq:purge` -/
def purgePath : EscapedPath :=
  ⟨[plainSegment "queues", plainSegment "a" ++ .encoded '/' :: plainSegment "b",
    plainSegment "dlq:purge"], by simp, by decide⟩

/-- `/tasks/x%2Fy` -/
def taskPath : EscapedPath :=
  ⟨[plainSegment "tasks", plainSegment "x" ++ .encoded '/' :: plainSegment "y"], by simp,
    by decide⟩

/-- A server with both stores; every task is in queue `payments`. -/
def configuredServer : ApiServer where
  storage := some fun id => .ok (Envelope.submitted id "payments" "h" 0)
  configStore := true
  finish := bareServer.finish
  finish_mem := bareServer.finish_mem

/-- A principal without grants. -/
def nobody : Principal := ⟨"nobody", []⟩

/-- Without any grant: `HEAD` lists the queues, and an encoded slash leads to the purge of
a queue and to a task. -/
theorem nobody_is_answered :
    configuredServer.serve (some nobody) .head listingPath =
        .answered .listQueues { status := 200, access := some .allQueues } ∧
      configuredServer.serve (some nobody) .post purgePath =
        .answered .purge { status := 200, access := some (.queue "a/b") } ∧
      configuredServer.serve (some nobody) .get taskPath =
        .answered .getTask { status := 200, access := some (.task "x/y") } ∧
      ∀ queue need, nobody.allows queue need = false ∧ nobody.allowsGlobal need = false :=
  ⟨rfl, rfl, rfl, fun _ _ => ⟨rfl, rfl⟩⟩

end Rdq.Server
