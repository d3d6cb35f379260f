import LiveMigration.Error

namespace LiveMigration

structure Host where
  name : HostName
  /-- Where to reach it; `localhost` is the controller itself. -/
  ssh : String
  egress : EgressPort
  uplink : String
  checkpointDir : String
  deriving DecidableEq, Repr

def Host.isLocal (h : Host) : Bool := h.ssh = "localhost"

structure Node where
  addr : Addr
  mac : Mac
  host : HostName
  container : String
  memberIndex : Option UInt16
  isMember : Bool
  deriving DecidableEq, Repr

structure MigrationKnobs where
  drainPoll : UInt64
  drainCeiling : UInt64
  agentTimeout : UInt64
  transferTimeout : UInt64
  commandTimeout : UInt64
  teardownPolicy : TeardownPolicy
  image : Option String
  quiesceSignal : String
  resumeSignal : String
  deriving DecidableEq, Repr

def MigrationKnobs.default : MigrationKnobs where
  drainPoll := 100
  drainCeiling := 2000
  agentTimeout := 30000
  transferTimeout := 60000
  commandTimeout := 60000
  teardownPolicy := .auto
  image := none
  quiesceSignal := "SIGUSR1"
  resumeSignal := "SIGUSR2"

structure TelemetryPaths where
  recordDir : Option String
  flagFile : Option String
  deriving DecidableEq, Repr

def TelemetryPaths.default : TelemetryPaths := ⟨none, some "/tmp/migration_event"⟩

structure Config where
  listenAddr : SocketAddr
  vip : Addr
  servicePort : UInt16
  slots : Option UInt16
  /-- Whether a migration that keeps the address drops the reply rule of the service port. -/
  suppressNat : Bool
  hosts : List Host
  nodes : List Node
  peers : List Neighbor
  migration : MigrationKnobs
  telemetry : TelemetryPaths
  logDir : String
  deriving DecidableEq, Repr

/-- The hosts that commands can be sent to; of two with one name the later counts. -/
structure Inventory where
  hosts : List Host
  deriving DecidableEq, Repr

namespace Inventory

def find? (i : Inventory) (name : HostName) : Option Host := i.hosts.reverse.find? (·.name = name)

def get (i : Inventory) (name : HostName) : Except HostError Host :=
  match i.find? name with
  | some h => .ok h
  | none => .error (.unknownHost name)

def contains (i : Inventory) (name : HostName) : Bool := (i.find? name).isSome

end Inventory

namespace Config

def inventory (c : Config) : Inventory := ⟨c.hosts⟩

def memberNodes (c : Config) : List Node := c.nodes.filter Node.isMember

/-- The number of slots of the group, one for each member node unless the configuration says more. -/
def capacity (c : Config) : UInt16 := c.slots.getD (UInt16.ofNat (max c.memberNodes.length 1))

def members (c : Config) : List (UInt16 × Node) :=
  c.memberNodes.zipIdx.map fun (n, i) => (n.memberIndex.getD (UInt16.ofNat i), n)

def checkHosts : (seen : List HostName) → List Host → Except ConfigFault (List HostName)
  | seen, [] => .ok seen
  | seen, h :: rest =>
    if seen.contains h.name then .error (.hostTwice h.name) else checkHosts (h.name :: seen) rest

def checkNodes (names : List HostName) : (seen : List Addr) → List Node → Except ConfigFault Unit
  | _, [] => .ok ()
  | seen, n :: rest =>
    if !names.contains n.host then .error (.unknownHost n.addr n.host)
    else if seen.contains n.addr then .error (.nodeTwice n.addr)
    else checkNodes names (n.addr :: seen) rest

def checkMembers (capacity : UInt16) : (seen : List UInt16) → List (UInt16 × Node) →
    Except ConfigFault Unit
  | _, [] => .ok ()
  | seen, (i, n) :: rest =>
    if capacity ≤ i then .error (.indexOutside n.addr i capacity)
    else if seen.contains i then .error (.indexTwice i)
    else checkMembers capacity (i :: seen) rest

def checkDrain (m : MigrationKnobs) : Except ConfigFault Unit :=
  if m.drainPoll = 0 then .error .zeroPoll
  else if m.drainCeiling < m.drainPoll then .error .shortCeiling
  else .ok ()

def validate (c : Config) : Except ConfigFault Unit := do
  let names ← checkHosts [] c.hosts
  checkNodes names [] c.nodes
  if c.capacity = 0 then .error .zeroCapacity
  checkMembers c.capacity [] c.members
  checkDrain c.migration

end Config

end LiveMigration
