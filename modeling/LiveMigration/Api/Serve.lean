import LiveMigration.Api.MediaType
import LiveMigration.Api.Message
import LiveMigration.Api.Route
import LiveMigration.Controller.Basic
import LiveMigration.Json.Reader

namespace LiveMigration.Api

structure Request where
  method : String
  target : String
  contentType : Option String
  body : String
  deriving DecidableEq, Repr

inductive Body
  | text (s : String)
  | json (j : Json)
  deriving Repr

structure Response where
  status : Nat
  body : Body
  deriving Repr

def Response.empty (status : Nat) : Response := ⟨status, .text ""⟩

def Response.ok [Jsonable α] (a : α) : Response := ⟨200, .json (toJson a)⟩

def statusOf : ErrorKind → Nat
  | .notFound => 404
  | .conflict | .referentialIntegrity => 409
  | .invalidRequest => 400
  | _ => 500

def Response.ofError (e : Error) : Response := ⟨statusOf e.kind, .json (toJson (ErrorBody.ofError e))⟩

def Response.badJob : Response := ⟨400, .text "<path rejection>"⟩

/-- The value of a body, which must be announced as JSON; text after the value does not count. -/
def Request.read [Jsonable α] (r : Request) : Except Error α :=
  if !r.contentType.any MediaType.isJson then .error (.invalid .contentType)
  else
    match (Json.ofFront? r.body.toList).bind fun (j, _) => ofJson? j with
    | none => .error (.invalid .body)
    | some a => .ok a

end LiveMigration.Api

namespace LiveMigration.Controller

open Api

def respond [Jsonable α] (c : Controller) (r : Except Error (Controller × α)) : Controller × Response :=
  match r with
  | .ok (c, a) => (c, .ok a)
  | .error e => (c, .ofError e)

def serveMigrate (c : Controller) (now : Timestamp) (fresh : JobId) (r : Request) :
    Except Error (Controller × MigrateResponse) := do
  let q : MigrateRequest ← r.read
  let c ← c.submit now fresh ⟨q.source, q.targetHost, q.newIdentity⟩
  return (c, ⟨fresh⟩)

def serveReattach (c : Controller) (r : Request) : Except Error (Controller × ReattachResponse) := do
  let q : ReattachRequest ← r.read
  let (c, changed) ← c.reattach q.addr q.egress q.mac q.host
  return (c, ⟨"success", changed⟩)

def serveJob (c : Controller) (id : JobId) : Except Error (Controller × JobReport) :=
  match c.job? id with
  | none => .error (.notFound (.job id))
  | some j => .ok (c, j.report)

def serveCancel (c : Controller) (id : JobId) : Except Error (Controller × JobReport) := do
  let (c, j) ← c.cancel id
  return (c, j.report)

def serveCleanup (c : Controller) : Except Error (Controller × CleanupResponse) := do
  let (c, removed) ← c.cleanup
  return (c, ⟨"success", UInt64.ofNat removed⟩)

def health (c : Controller) : HealthResponse :=
  ⟨"ok", UInt64.ofNat c.store.tables.endpoints.size, UInt64.ofNat c.running⟩

def serveRoute (c : Controller) (now : Timestamp) (fresh : JobId) (r : Request) :
    Route → Controller × Response
  | .migrate => c.respond (c.serveMigrate now fresh r)
  | .reattach => c.respond (c.serveReattach r)
  | .jobs => (c, .ok (c.jobs.map Job.report))
  | .job segment =>
    match Route.jobId? segment with
    | none => (c, .badJob)
    | some id => c.respond (c.serveJob id)
  | .cancel segment =>
    match Route.jobId? segment with
    | none => (c, .badJob)
    | some id => c.respond (c.serveCancel id)
  | .cleanup => c.respond c.serveCleanup
  | .health => (c, .ok c.health)

/-- Answer a request. A new job gets the fresh identifier; `HEAD` asks for a `GET` without its body. -/
def serve (c : Controller) (now : Timestamp) (fresh : JobId) (r : Request) : Controller × Response :=
  match Route.ofTarget? r.target with
  | none => (c, .empty 404)
  | some route =>
    match route.method, r.method with
    | .get, "GET" | .post, "POST" => c.serveRoute now fresh r route
    | .get, "HEAD" =>
      let (c, response) := c.serveRoute now fresh r route
      (c, { response with body := .text "" })
    | _, _ => (c, .empty 405)

end LiveMigration.Controller
