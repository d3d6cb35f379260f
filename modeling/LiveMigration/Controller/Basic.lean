import LiveMigration.Controller.Request
import LiveMigration.Forwarding.Provision
import LiveMigration.Job.Registry
import LiveMigration.Job.Report
import LiveMigration.Migration.Step

/-!
# The controller

The store, all jobs, and the migrations under way. Requests, and the stretches of a migration between two
waits, are its steps.
-/

namespace LiveMigration

structure Controller where
  config : Config
  store : Store
  registry : Registry
  runs : List Run

namespace Controller

def ofConfig (config : Config) : Except Error Controller := do
  return ⟨config, ← config.provision, .empty, []⟩

def job? (c : Controller) (id : JobId) : Option Job := c.registry.get? id

def jobs (c : Controller) : List Job := c.registry.list

def running (c : Controller) : Nat := c.registry.running

def run? (c : Controller) (id : JobId) : Option Run := c.runs.find? (·.plan.id = id)

def checkRequest (c : Controller) (source : Endpoint) (r : MigrationRequest) : Except Error Unit :=
  match r.newIdentity with
  | none =>
    if r.targetHost = source.host then .error (.invalid (.alreadyThere source.addr source.host))
    else .ok ()
  | some new =>
    if new.addr = source.addr then .error (.invalid .sameIdentity)
    else if (c.store.tables.memberOf? source.addr).isNone then
      .error (.invalid (.notMember source.addr))
    else .ok ()

/-- Take a request under a new identifier: the source, and the address of its replacement, are leased to
the job, whose migration waits to be started. -/
def submit (c : Controller) (now : Timestamp) (id : JobId) (r : MigrationRequest) :
    Except Error Controller :=
  match c.store.tables.endpoints.get? r.source with
  | none => .error (.notFound (.endpoint r.source))
  | some source =>
    match c.config.inventory.get r.targetHost with
    | .error e => .error (.ofHost e)
    | .ok host => do
      c.checkRequest source r
      let job := Job.new id source r.targetHost r.newIdentity c.config.migration.teardownPolicy now
      let (store, lease) ← c.store.lease source.addr (r.newIdentity.map Identity.addr) id
      let plan : Plan := {
        id, source, mode := job.mode, policy := job.teardownPolicy
        target := source.migrated r.targetHost host.egress r.newIdentity
        member := c.store.tables.memberOf? r.source }
      return { c with store, registry := c.registry.insert job, runs := c.runs ++ [.new plan lease] }

/-- Ask for a job to be cancelled. A job that has been cancelled may be cancelled again. -/
def cancel (c : Controller) (id : JobId) : Except Error (Controller × Job) :=
  match c.job? id with
  | none => .error (.notFound (.job id))
  | some j =>
    if j.status = .cancelled then .ok (c, j)
    else if j.isTerminal then .error (.conflict (.finished id))
    else if j.isCancellable then
      let request := fun j : Job => { j with cancelRequested := true }
      .ok ({ c with registry := c.registry.update id request }, request j)
    else .error (.conflict (.committed id j.phase))

def turn (c : Controller) (id : JobId) (step : Turn → Turn) : Controller × List Effect :=
  match c.run? id, c.job? id with
  | some run, some job =>
    let t := step ⟨c.store, job, run, []⟩
    let runs := match t.run.stage with
      | .finished => c.runs.filter (·.plan.id ≠ id)
      | _ => c.runs.map fun r => if r.plan.id = id then t.run else r
    ({ c with store := t.store, registry := c.registry.update id fun _ => t.job, runs }, t.effects)
  | _, _ => (c, [])

def start (c : Controller) (m : Moment) (id : JobId) : Controller × List Effect :=
  c.turn id (Turn.start m)

def wake (c : Controller) (id : JobId) : Controller × List Effect := c.turn id Turn.wake

def answer (c : Controller) (m : Moment) (id : JobId) (call : Call) (o : Outcome call.Reply) :
    Controller × List Effect :=
  c.turn id (Turn.answer c.config m call o)

def onStore (c : Controller) (f : Store → Except Error (Store × α)) : Except Error (Controller × α) := do
  let (store, a) ← f c.store
  return ({ c with store }, a)

/-- Point an endpoint at another attachment, unless a migration holds it. -/
def reattach (c : Controller) (addr : Addr) (egress : EgressPort) (mac : Option Mac)
    (host : Option HostName) : Except Error (Controller × Bool) :=
  match c.store.leases.get? addr with
  | some owner => .error (.conflict (.leased addr owner))
  | none => c.onStore fun s => s.relocate addr egress mac host

def cleanup (c : Controller) : Except Error (Controller × Nat) := c.onStore Store.teardownAll

end Controller

end LiveMigration
