import LiveMigration.Fleet.Config
import LiveMigration.Snapshot

namespace LiveMigration

inductive Call
  | quiesce (e : Endpoint)
  | resume (e : Endpoint)
  | probe (e : Endpoint)
  | capture (e : Endpoint) (id : String)
  | prepare (host : HostName) (image : Option String)
  | transfer (s : Snapshot) (target : HostName)
  | measure (s : Snapshot)
  | restore (s : Snapshot) (target : Endpoint) (options : RestoreOptions)
  | teardown (e : Endpoint)
  | reattach (e : Endpoint) (peers : List Neighbor)
  | announce (e : Endpoint)
  | detach (e : Endpoint)
  | discard (s : Snapshot)
  deriving DecidableEq, Repr

inductive Outcome (α : Type)
  | ok (a : α)
  | failed (e : HostError)
  | expired
  deriving DecidableEq, Repr

def Outcome.ofExcept : Except HostError α → Outcome α
  | .ok a => .ok a
  | .error e => .failed e

def Outcome.ofEnding? : Ending α → Option (Outcome α)
  | .ok a => some (.ok a)
  | .error e => some (.failed e)
  | .crashed => none

namespace Call

abbrev Reply : Call → Type
  | .probe _ | .measure _ => UInt64
  | .capture .. | .transfer .. => Snapshot
  | _ => Unit

def limit? (m : MigrationKnobs) : Call → Option Span
  | .capture .. | .prepare .. | .restore .. => some m.agentTimeout.toNat
  | .transfer .. => some m.transferTimeout.toNat
  | _ => none

def expiry? (m : MigrationKnobs) : Call → Option Error
  | .capture .. => some (.agentTimeout "checkpoint export" m.agentTimeout.toNat)
  | .prepare .. => some (.agentTimeout "target preparation" m.agentTimeout.toNat)
  | .restore .. => some (.agentTimeout "checkpoint restore" m.agentTimeout.toNat)
  | .transfer .. =>
    some (.transport s!"snapshot transfer timed out after {Span.text m.transferTimeout.toNat}")
  | _ => none

/-- What an outcome means; none for one that cannot be. -/
def result? (m : MigrationKnobs) (c : Call) : Outcome α → Option (Except Error α)
  | .ok a => some (.ok a)
  | .failed e => some (.error (.ofHost e))
  | .expired => (c.expiry? m).map .error

end Call

end LiveMigration
