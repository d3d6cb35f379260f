import LiveMigration.Job.Phase
import LiveMigration.Time.Span

namespace LiveMigration

inductive RestoreFailure
  | replayRejected
  | other
  deriving DecidableEq, Repr

def RestoreFailure.name : RestoreFailure → String
  | .replayRejected => "transport_replay_rejected"
  | .other => "other"

def RestoreFailure.label : RestoreFailure → String
  | .replayRejected => "TransportReplayRejected"
  | .other => "Other"

instance : Jsonable RestoreFailure := .ofWords [.replayRejected, .other] RestoreFailure.name

inductive HostError
  | command (host : HostName) (command : String) (exitCode : Option Int) (stderr : String)
  | restore (failure : RestoreFailure) (message log : String)
  | sizeMismatch (expected actual : UInt64)
  | reattach (message : String)
  | timeout (after : Span)
  | unknownHost (host : HostName)
  | unreadable (message : String)
  | io (message : String)
  deriving DecidableEq, Repr

/-- What work on hosts comes to. It crashes where a number goes out of range: that is no error, and what waits for
the work never hears of it. -/
inductive Ending (α : Type)
  | ok (a : α)
  | error (e : HostError)
  | crashed
  deriving DecidableEq, Repr

def Ending.ofExcept : Except HostError α → Ending α
  | .ok a => .ok a
  | .error e => .error e

def exitText : Option Int → String
  | none => "None"
  | some n => s!"Some({n})"

def HostError.message : HostError → String
  | .command host line code stderr =>
    s!"command `{line}` on {host} failed (exit {exitText code}): {stderr}"
  | .restore failure message _ => s!"restore failed ({failure.label}): {message}"
  | .sizeMismatch expected actual =>
    s!"transfer size mismatch: expected {expected} bytes, found {actual}"
  | .reattach message => s!"network reattach failed: {message}"
  | .timeout after => s!"Timeout: {Span.text after}"
  | .unknownHost host => s!"Unknown host: {host}"
  | .unreadable message => s!"Parse error: {message}"
  | .io message => s!"IO error: {message}"

inductive Missing
  | endpoint (addr : Addr)
  | group (vip : Addr)
  | slot (index : UInt16) (vip : Addr)
  | member (index : UInt16) (vip : Addr)
  | rule (destination : Addr)
  | host (name : HostName)
  | job (id : JobId)
  | other (text : String)
  deriving DecidableEq, Repr

def Missing.text : Missing → String
  | .endpoint addr => s!"endpoint {addr.text}"
  | .group vip => s!"group {vip.text}"
  | .slot index vip => s!"member index {index} in group {vip.text}"
  | .member index vip => s!"member {index} in group {vip.text}"
  | .rule destination => s!"forwarding rule for {destination.text}"
  | .host name => s!"host {name}"
  | .job id => s!"job {id.text}"
  | .other text => text

inductive Clash
  | capacity (vip : Addr) (capacity : UInt16)
  | leased (addr : Addr) (owner : JobId)
  | inFlight (addr : Addr) (owner : JobId)
  | registered (addr : Addr)
  | reserved (addr : Addr) (owner : JobId)
  | committed (job : JobId) (phase : Phase)
  | finished (job : JobId)
  | other (text : String)
  deriving DecidableEq, Repr

def Clash.text : Clash → String
  | .capacity vip n => s!"group {vip.text} already exists with capacity {n}"
  | .leased addr owner => s!"endpoint {addr.text} is being migrated by job {owner.text}"
  | .inFlight addr owner => s!"endpoint {addr.text} already has migration {owner.text} in flight"
  | .registered addr => s!"address {addr.text} is already registered"
  | .reserved addr owner => s!"address {addr.text} is reserved by migration {owner.text}"
  | .committed job phase => s!"job {job.text} can no longer be cancelled (phase {phase.name})"
  | .finished job => s!"job {job.text} already finished"
  | .other text => text

inductive Dangling
  | members (vip : Addr)
  | nat (port : UInt16) (vip : Addr)
  | bound (addr : Addr) (index : UInt16)
  | routed (addr : Addr)
  | inUse (addr : Addr)
  | other (text : String)
  deriving DecidableEq, Repr

def Dangling.text : Dangling → String
  | .members vip => s!"group {vip.text} still has members"
  | .nat port vip => s!"NAT rule for port {port} still references group {vip.text}"
  | .bound addr index => s!"endpoint {addr.text} is still bound to member {index}"
  | .routed addr => s!"endpoint {addr.text} still has a forwarding rule"
  | .inUse addr => s!"forwarding rule for {addr.text} is still used by a member"
  | .other text => text

inductive Malformed
  | zeroCapacity
  | alreadyThere (addr : Addr) (host : HostName)
  | sameIdentity
  | notMember (addr : Addr)
  | contentType
  | body
  | other (text : String)
  deriving DecidableEq, Repr

def Malformed.text : Malformed → String
  | .zeroCapacity => "group capacity must be positive"
  | .alreadyThere addr host => s!"endpoint {addr.text} already runs on {host}"
  | .sameIdentity => "replacement identity must differ from the source identity"
  | .notMember addr => s!"endpoint {addr.text} is not a group member and cannot be replaced"
  | .contentType => "Expected request with `Content-Type: application/json`"
  | .body => "<json rejection>"
  | .other text => text

inductive ConfigFault
  | unreadable (path reason : String)
  | hostTwice (name : HostName)
  | unknownHost (node : Addr) (host : HostName)
  | nodeTwice (node : Addr)
  | zeroCapacity
  | indexOutside (node : Addr) (index capacity : UInt16)
  | indexTwice (index : UInt16)
  | zeroPoll
  | shortCeiling
  | other (text : String)
  deriving DecidableEq, Repr

def ConfigFault.text : ConfigFault → String
  | .unreadable path reason => s!"cannot read {path}: {reason}"
  | .hostTwice name => s!"host {name} declared twice"
  | .unknownHost node host => s!"node {node.text} refers to unknown host {host}"
  | .nodeTwice node => s!"node {node.text} declared twice"
  | .zeroCapacity => "group_capacity must be at least 1"
  | .indexOutside node index capacity =>
    s!"node {node.text} member index {index} outside group capacity {capacity}"
  | .indexTwice index => s!"member index {index} used twice"
  | .zeroPoll => "drain_poll_interval_ms must be positive"
  | .shortCeiling => "drain_ceiling_ms must not be shorter than drain_poll_interval_ms"
  | .other text => text

inductive Error
  | notFound (what : Missing)
  | conflict (clash : Clash)
  | integrity (dangling : Dangling)
  | sizeMismatch (expected actual : UInt64)
  | restore (failure : RestoreFailure) (message log : String)
  | agentTimeout (operation : String) (after : Span)
  | reattach (message : String)
  | transport (message : String)
  | cancelled
  | invalid (fault : Malformed)
  | inPhase (phase : Phase) (source : Error)
  | io (message : String)
  | json
  | config (fault : ConfigFault)
  deriving DecidableEq, Repr

inductive ErrorKind
  | notFound | conflict | referentialIntegrity | transferIntegrity | restoreReplayRejected | restore
  | agentTimeout | networkReattach | transport | cancelled | invalidRequest | internal
  deriving DecidableEq, Repr

namespace ErrorKind

def all : List ErrorKind := [.notFound, .conflict, .referentialIntegrity, .transferIntegrity,
  .restoreReplayRejected, .restore, .agentTimeout, .networkReattach, .transport, .cancelled,
  .invalidRequest, .internal]

def name : ErrorKind → String
  | .notFound => "not_found"
  | .conflict => "conflict"
  | .referentialIntegrity => "referential_integrity"
  | .transferIntegrity => "transfer_integrity"
  | .restoreReplayRejected => "restore_replay_rejected"
  | .restore => "restore"
  | .agentTimeout => "agent_timeout"
  | .networkReattach => "network_reattach"
  | .transport => "transport"
  | .cancelled => "cancelled"
  | .invalidRequest => "invalid_request"
  | .internal => "internal"

instance : Jsonable ErrorKind := .ofWords all name

def remediation? : ErrorKind → Option String
  | .restoreReplayRejected => some <|
    "unacknowledged send-queue data was rejected on replay: quiesce the source earlier or reduce its " ++
    "output rate so draining empties the send queue before the checkpoint, then submit a new migration"
  | .transferIntegrity =>
    some "the snapshot arrived truncated; check target disk space and retry"
  | _ => none

end ErrorKind

namespace Error

def ofHost : HostError → Error
  | .restore failure message log => .restore failure message log
  | .sizeMismatch expected actual => .sizeMismatch expected actual
  | .reattach message => .reattach message
  | .unknownHost host => .notFound (.host host)
  | .timeout after => .transport s!"command timed out after {Span.text after}"
  | e => .transport e.message

/-- Say in which phase an error arose, unless that is already said. -/
def within (phase : Phase) : Error → Error
  | .inPhase p e => .inPhase p e
  | e => .inPhase phase e

def phase? : Error → Option Phase
  | .inPhase p _ => some p
  | _ => none

def root : Error → Error
  | .inPhase _ e => e.root
  | e => e

def message : Error → String
  | .notFound what => s!"Not found: {what.text}"
  | .conflict clash => s!"Conflict: {clash.text}"
  | .integrity dangling => s!"Referential integrity violation: {dangling.text}"
  | .sizeMismatch expected actual =>
    s!"Transfer integrity error: expected {expected} bytes, received {actual}"
  | .restore failure message _ => s!"Restore error ({failure.label}): {message}"
  | .agentTimeout operation after => s!"{operation} timed out after {Span.text after}"
  | .reattach message => s!"Network reattach error: {message}"
  | .transport message => s!"Transport error: {message}"
  | .cancelled => "Migration cancelled"
  | .invalid fault => s!"Invalid request: {fault.text}"
  | .inPhase phase source => s!"{phase.name}: {source.message}"
  | .io message => s!"IO error: {message}"
  | .json => "JSON error"
  | .config fault => s!"Configuration error: {fault.text}"

def kind (e : Error) : ErrorKind :=
  match e.root with
  | .notFound _ => .notFound
  | .conflict _ => .conflict
  | .integrity _ => .referentialIntegrity
  | .sizeMismatch .. => .transferIntegrity
  | .restore .replayRejected .. => .restoreReplayRejected
  | .restore .other .. => .restore
  | .agentTimeout .. => .agentTimeout
  | .reattach _ => .networkReattach
  | .transport _ | .io _ => .transport
  | .cancelled => .cancelled
  | .invalid _ | .json => .invalidRequest
  | .config _ | .inPhase .. => .internal

def agentLog? (e : Error) : Option String :=
  match e.root with
  | .restore _ _ log => if log = "" then none else some log
  | _ => none

@[simp] theorem root_within (p : Phase) (e : Error) : (e.within p).root = e.root := by
  cases e <;> rfl

theorem within_within (p q : Phase) (e : Error) : (e.within p).within q = e.within p := by
  cases e <;> rfl

end Error

end LiveMigration
