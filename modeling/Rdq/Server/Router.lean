import Mathlib.Data.List.DropRight
import Rdq.Core.Glob
import Rdq.Core.Spi
import Rdq.Foundation.ServeMux

/-!
# The versioned API behind its authorization

The routes of `/v1` and the boundary before them: `server/http/router.go`, the
mounts and guards of `tasks.go`, `dlq.go`, `ops.go` and `admin.go`, the
middleware of `auth.go` and the grants of `server/auth`. The middleware reads
the decoded path with a parser of its own, while the mux routes by the escaped
one.

## Implementation notes

A handler is modelled up to the point where it has its queue or task, with every
answer it gives before; how it ends from there, which depends on the body and the
stores, is an input (`ApiServer.finish`). `Answer.access` says what the handler
reads or changes. Names are texts; the paths here are relative to `/v1`.
-/

namespace Rdq.Server

open Rdq.Foundation.ServeMux

/-! ## Grants -/

inductive Role
  | none
  | submitter
  | operator
  | admin
deriving DecidableEq, Repr

/-- Roles are ordered; a higher one includes the lower ones. -/
def Role.level : Role → Nat
  | .none => 0
  | .submitter => 1
  | .operator => 2
  | .admin => 3

structure Grant where
  queue : String
  role : Role
deriving DecidableEq, Repr

structure Principal where
  name : String
  grants : List Grant
deriving DecidableEq, Repr

namespace Principal
variable (p : Principal)

/-- `Principal.Allows`. -/
def allows (queue : String) (need : Role) : Bool :=
  p.grants.any fun g => decide (need.level ≤ g.role.level) && glob g.queue queue

/-- `Principal.AllowsGlobal`: only the catch-all grant counts. -/
def allowsGlobal (need : Role) : Bool :=
  p.grants.any fun g => decide (need.level ≤ g.role.level) && g.queue = "*"

end Principal

/-! ## Classifying a request -/

/-- Where the queue of an operation comes from. -/
inductive AuthTarget
  | queue (queue : List Char)
  /-- The listing of all queues. -/
  | global
  /-- The queue of the stored task. -/
  | fromTask (taskID : List Char)
deriving DecidableEq, Repr

structure AuthOp where
  role : Role
  target : AuthTarget
deriving DecidableEq, Repr

/-- `strings.CutSuffix`. -/
def cutSuffix (s suffix : List Char) : Option (List Char) :=
  if suffix.isSuffixOf s then some (s.take (s.length - suffix.length)) else none

/-- `strings.Trim(path, "/")`. -/
def trimSlashes (path : List Char) : List Char :=
  (path.dropWhile (· = '/')).rdropWhile (· = '/')

def classifyTask (method : Method) (segs : List (List Char)) : Option AuthOp :=
  match segs with
  | [id] => if method = .get ∧ id ≠ [] then some ⟨.submitter, .fromTask id⟩ else none
  | _ => none

def classifyQueue (method : Method) (segs : List (List Char)) : Option AuthOp :=
  match segs with
  | [queue, tail] =>
    if queue = [] then none
    else if (tail = "tasks".toList ∧ method = .post) ∨
        (tail = "tasks:batch".toList ∧ method = .post) ∨
        (tail = "stats".toList ∧ method = .get) then some ⟨.submitter, .queue queue⟩
    else if (tail = "dlq".toList ∧ method = .get) ∨
        (tail = "dlq:redrive".toList ∧ method = .post) ∨
        (tail = "dlq:purge".toList ∧ method = .post) then some ⟨.operator, .queue queue⟩
    else none
  | _ => none

/-- `POST /admin/queues/{queue}:pause` and `:resume`. -/
def classifyAction (name : List Char) : Option AuthOp :=
  match (cutSuffix name ":pause".toList).filter (· ≠ []) with
  | some q => some ⟨.operator, .queue q⟩
  | none =>
    match (cutSuffix name ":resume".toList).filter (· ≠ []) with
    | some q => some ⟨.operator, .queue q⟩
    | none => none

def classifyAdmin (method : Method) (segs : List (List Char)) : Option AuthOp :=
  match segs with
  | [queues] => if queues = "queues".toList ∧ method = .get then some ⟨.admin, .global⟩ else none
  | [queues, name] =>
    if queues ≠ "queues".toList then none
    else if method = .post then classifyAction name
    else if method = .delete ∧ ':' ∉ name then some ⟨.admin, .queue name⟩
    else none
  | [queues, name, last] =>
    if queues = "queues".toList ∧ last = "config".toList ∧ name ≠ [] ∧
        (method = .get ∨ method = .put) then some ⟨.admin, .queue name⟩
    else none
  | _ => none

/-- `classifyAuthOp`, on the decoded path. -/
def classifyAuthOp (method : Method) (path : List Char) : Option AuthOp :=
  match (trimSlashes path).splitOn '/' with
  | first :: segs =>
    if first = "tasks".toList then classifyTask method segs
    else if first = "queues".toList then classifyQueue method segs
    else if first = "admin".toList then classifyAdmin method segs
    else none
  | [] => none

/-! ## Routes -/

/-- The handlers mounted under `/v1`. -/
inductive Route
  | submitTask
  | batchSubmit
  | getTask
  | dlqList
  | redrive
  | purge
  | stats
  | queueAction
  | listQueues
  | queueConfig
  | deleteQueue
  | notFound
deriving DecidableEq, Repr

/-- The role a handler's operation needs (design 04 §5). -/
def Route.role : Route → Role
  | .submitTask | .batchSubmit | .getTask | .stats => .submitter
  | .dlqList | .redrive | .purge | .queueAction => .operator
  | .listQueues | .queueConfig | .deleteQueue => .admin
  | .notFound => .none

/-- `/queues/{queue}/` with a last segment. -/
def queuePattern (tail : String) (r : Route) : Pattern Route :=
  ⟨none, [.literal "queues".toList, .wildcard, .literal tail.toList], r⟩

/-- `v1Handler`, in the order of the mounts. -/
def v1Patterns : List (Pattern Route) :=
  [queuePattern "tasks" .submitTask,
    queuePattern "tasks:batch" .batchSubmit,
    ⟨none, [.literal "tasks".toList, .wildcard], .getTask⟩,
    queuePattern "dlq" .dlqList,
    queuePattern "dlq:redrive" .redrive,
    queuePattern "dlq:purge" .purge,
    queuePattern "stats" .stats,
    ⟨none, [.literal "admin".toList, .literal "queues".toList, .rest], .queueAction⟩,
    ⟨some .get, [.literal "admin".toList, .literal "queues".toList], .listQueues⟩,
    ⟨none, [.literal "admin".toList, .literal "queues".toList, .wildcard,
      .literal "config".toList], .queueConfig⟩,
    ⟨some .delete, [.literal "admin".toList, .literal "queues".toList, .wildcard], .deleteQueue⟩,
    ⟨none, [.rest], .notFound⟩]

/-! ## Handlers -/

/-- What a handler reads or changes. -/
inductive Access
  | queue (queue : String)
  | task (id : String)
  | allQueues
deriving DecidableEq, Repr

structure Answer where
  status : Nat
  access : Option Access := none
deriving DecidableEq, Repr

/-- The answers a handler can give once it has its queue. -/
def Route.endings : Route → List Nat
  | .submitTask => [202, 409, 413, 422, 500]
  | .batchSubmit => [207, 413, 422]
  | .dlqList => [200, 409, 422, 500]
  | .redrive | .purge => [200, 422, 500]
  | .stats | .listQueues => [200, 500]
  | .queueConfig => [200, 404, 422, 500]
  | .deleteQueue => [204, 404, 409, 500]
  | .getTask | .queueAction | .notFound => []

/-- What the handlers find: the stores, if configured, and their part of the answer. -/
structure ApiServer where
  /-- `storage.Get`. -/
  storage : Option (String → Except StorageError Envelope)
  configStore : Bool
  finish : Route → String → Nat
  finish_mem : ∀ r q, r.endings ≠ [] → finish r q ∈ r.endings

/-- `envelope.ValidateQueue`: at most 240 characters of `[a-z0-9._-]`, not none. -/
def validQueue (name : String) : Bool :=
  name ≠ "" && decide (name.utf8ByteSize ≤ 240) && name.toList.all fun c =>
    c.isLower || c.isDigit || c = '.' || c = '_' || c = '-'

/-- `only`. -/
def only (allowed method : Method) (answer : Answer) : Answer :=
  if method ≠ allowed then { status := 405 } else answer

namespace ApiServer
variable (srv : ApiServer)

/-- The data-plane handlers of a queue. -/
def onQueue (r : Route) (queue : String) : Answer :=
  match srv.storage with
  | none => { status := 503 }
  | some _ => { status := srv.finish r queue, access := some (.queue queue) }

def handleGetTask (id : String) : Answer :=
  match srv.storage with
  | none => { status := 503 }
  | some get =>
    match get id with
    | .error .notFound => { status := 404, access := some (.task id) }
    | .error _ => { status := 500, access := some (.task id) }
    | .ok _ => { status := 200, access := some (.task id) }

/-- The config-plane handlers of a queue: a name that is not legal is not found. -/
def onConfig (r : Route) (queue : String) : Answer :=
  if srv.configStore = false then { status := 503 }
  else if validQueue queue = false then { status := 404 }
  else { status := srv.finish r queue, access := some (.queue queue) }

def handleListQueues : Answer :=
  if srv.configStore = false then { status := 503 }
  else { status := srv.finish .listQueues "", access := some .allQueues }

/-- `handleAdminQueueAction`, which reads the decoded path. -/
def handleAdminQueueAction (method : Method) (path : List Char) : Answer :=
  let rest := if "/admin/queues/".toList.isPrefixOf path then path.drop 14 else path
  match (cutSuffix rest ":pause".toList).or (cutSuffix rest ":resume".toList) with
  | none => { status := 404 }
  | some queue =>
    if queue = [] ∨ '/' ∈ queue then { status := 404 }
    else if method ≠ .post then { status := 405 }
    else { status := 204, access := some (.queue (String.ofList queue)) }

/-- The handler of a route, with the value of its wildcard. -/
def handle (method : Method) (path : List Char) (r : Route) (values : List (List Char)) :
    Answer :=
  let value := String.ofList (values.headD [])
  match r with
  | .submitTask | .batchSubmit | .redrive | .purge => only .post method (srv.onQueue r value)
  | .dlqList | .stats => only .get method (srv.onQueue r value)
  | .getTask => only .get method (srv.handleGetTask value)
  | .queueAction => handleAdminQueueAction method path
  | .listQueues => srv.handleListQueues
  | .queueConfig =>
    if method = .get ∨ method = .put then srv.onConfig r value else { status := 405 }
  | .deleteQueue => srv.onConfig r value
  | .notFound => { status := 404 }

/-! ## The middleware -/

/-- `authorize`: the decision, or the status of the problem. -/
def authorize (principal : Principal) (op : AuthOp) : Except Nat Bool :=
  match op.target with
  | .global => .ok (principal.allowsGlobal op.role)
  | .fromTask id =>
    match srv.storage with
    | none => .error 503
    | some get =>
      match get (String.ofList id) with
      | .error .notFound => .error 404
      | .error _ => .error 500
      | .ok task => .ok (principal.allows task.queue op.role)
  | .queue q => .ok (principal.allows (String.ofList q) op.role)

/-- What becomes of a request. -/
inductive Outcome
  /-- Answered by the middleware. -/
  | refused (status : Nat)
  | redirected
  /-- The mux's own 404 or 405. -/
  | unmatched
  | answered (r : Route) (answer : Answer)

/-- The mux behind the middleware. -/
def next (method : Method) (p : EscapedPath) : Outcome :=
  match dispatch v1Patterns method p with
  | .redirect => .redirected
  | .unmatched => .unmatched
  | .handler r values => .answered r (srv.handle method p.path r values)

/-- `authMiddleware`; the principal is what `Authenticate` made of the token. -/
def serve (principal : Option Principal) (method : Method) (p : EscapedPath) : Outcome :=
  match principal with
  | none => .refused 401
  | some principal =>
    match classifyAuthOp method p.path with
    | none => srv.next method p
    | some op =>
      match srv.authorize principal op with
      | .error status => .refused status
      | .ok false => .refused 403
      | .ok true => srv.next method p

end ApiServer

end Rdq.Server
