import LiveMigration.Json.Decode

namespace LiveMigration

inductive Phase
  | idle | quiescing | draining | checkpointing | targetPreparing | transferring | verifying | restoring
  | reattachingNetwork | forwardingUpdate | sourceTeardown | done | failed | cancelled
  deriving DecidableEq, Repr

namespace Phase

def all : List Phase := [.idle, .quiescing, .draining, .checkpointing, .targetPreparing, .transferring,
  .verifying, .restoring, .reattachingNetwork, .forwardingUpdate, .sourceTeardown, .done, .failed,
  .cancelled]

def name : Phase → String
  | .idle => "idle"
  | .quiescing => "quiescing"
  | .draining => "draining"
  | .checkpointing => "checkpointing"
  | .targetPreparing => "target_preparing"
  | .transferring => "transferring"
  | .verifying => "verifying"
  | .restoring => "restoring"
  | .reattachingNetwork => "reattaching_network"
  | .forwardingUpdate => "forwarding_update"
  | .sourceTeardown => "source_teardown"
  | .done => "done"
  | .failed => "failed"
  | .cancelled => "cancelled"

def isTerminal : Phase → Bool
  | .done | .failed | .cancelled => true
  | _ => false

/-- The phases from which there is no way back to a running source. -/
def isCommitted : Phase → Bool
  | .restoring | .reattachingNetwork | .forwardingUpdate | .sourceTeardown => true
  | _ => false

instance : Jsonable Phase := .ofWords all name

end Phase

inductive Mode
  | sameIdentity
  | memberRebind
  deriving DecidableEq, Repr

def Mode.name : Mode → String
  | .sameIdentity => "same_identity"
  | .memberRebind => "member_rebind"

instance : Jsonable Mode := .ofWords [.sameIdentity, .memberRebind] Mode.name

inductive TeardownPolicy
  | auto
  | beforeRestore
  | beforeForwarding
  | afterForwarding
  deriving DecidableEq, Repr

namespace TeardownPolicy

def name : TeardownPolicy → String
  | .auto => "auto"
  | .beforeRestore => "before_restore"
  | .beforeForwarding => "before_forwarding"
  | .afterForwarding => "after_forwarding"

/-- A source that keeps its address must be gone before its copy answers for it; one that is replaced
may serve until traffic has moved. -/
def resolve : TeardownPolicy → Mode → TeardownPolicy
  | .auto, .sameIdentity => .beforeRestore
  | .auto, .memberRebind => .afterForwarding
  | policy, _ => policy

theorem resolve_ne_auto (p : TeardownPolicy) (m : Mode) : p.resolve m ≠ .auto := by
  cases p <;> cases m <;> decide

instance : Jsonable TeardownPolicy :=
  .ofWords [.auto, .beforeRestore, .beforeForwarding, .afterForwarding] name

end TeardownPolicy

inductive JobStatus
  | running | succeeded | failed | cancelled
  deriving DecidableEq, Repr

def JobStatus.name : JobStatus → String
  | .running => "running"
  | .succeeded => "succeeded"
  | .failed => "failed"
  | .cancelled => "cancelled"

instance : Jsonable JobStatus := .ofWords [.running, .succeeded, .failed, .cancelled] JobStatus.name

end LiveMigration
