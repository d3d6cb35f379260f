import LiveMigration.Error
import LiveMigration.Forwarding.Selection

/-!
# Forwarding tables

Groups of member slots, endpoints, forwarding rules and reply rules, and the single operations on them. An
operation fails where it would refer to a record that is not there or drop one that is referred to.
-/

namespace LiveMigration

structure Member where
  index : UInt16
  endpoint : Addr
  active : Bool
  deriving DecidableEq, Repr

/-- The slots that serve one virtual address. -/
structure Group where
  vip : Addr
  slots : List (Option Member)
  deriving DecidableEq, Repr

structure Rule where
  destination : Addr
  egress : EgressPort
  mac : Option Mac
  deriving DecidableEq, Repr

structure Resolution where
  vip : Option Addr
  memberIndex : Option UInt16
  endpoint : Addr
  egress : EgressPort
  mac : Option Mac
  deriving DecidableEq, Repr

inductive Op
  | createGroup (vip : Addr) (capacity : UInt16)
  | deleteGroup (vip : Addr)
  | putEndpoint (endpoint : Endpoint)
  | removeEndpoint (addr : Addr)
  | bind (vip : Addr) (index : UInt16) (endpoint : Addr)
  | unbind (vip : Addr) (index : UInt16)
  | setActive (vip : Addr) (index : UInt16) (active : Bool)
  | putRule (rule : Rule)
  | removeRule (destination : Addr)
  | putNat (port : UInt16) (vip : Addr)
  | deleteNat (port : UInt16)
  deriving DecidableEq, Repr

structure Batch where
  ops : List Op
  deriving DecidableEq, Repr

structure Tables where
  groups : Table Addr Group
  endpoints : Table Addr Endpoint
  rules : Table Addr Rule
  nat : Table UInt16 Addr
  deriving DecidableEq, Inhabited

namespace Group

def empty (vip : Addr) (capacity : UInt16) : Group := ⟨vip, List.replicate capacity.toNat none⟩

def capacity (g : Group) : UInt16 := UInt16.ofNat g.slots.length

def members (g : Group) : List Member := g.slots.filterMap id

def member? (g : Group) (index : UInt16) : Option Member := (g.slots[index.toNat]?).bind id

def isEmpty (g : Group) : Bool := g.slots.all Option.isNone

def eligible (g : Group) : List Bool := g.slots.map fun s => s.any Member.active

def slot (g : Group) (index : UInt16) : Except Error (Option Member) :=
  match g.slots[index.toNat]? with
  | none => .error (.notFound (.slot index g.vip))
  | some s => .ok s

def setSlot (g : Group) (index : UInt16) (s : Option Member) : Group :=
  { g with slots := g.slots.set index.toNat s }

end Group

namespace Tables

def empty : Tables := ⟨∅, ∅, ∅, ∅⟩

def members (t : Tables) : List Member := t.groups.values.flatMap Group.members

def group (t : Tables) (vip : Addr) : Except Error Group :=
  match t.groups.get? vip with
  | none => .error (.notFound (.group vip))
  | some g => .ok g

def setGroup (t : Tables) (vip : Addr) (g : Group) : Tables :=
  { t with groups := t.groups.insert vip g }

def occupant? (t : Tables) (vip : Addr) (index : UInt16) : Option Addr :=
  ((t.groups.get? vip).bind fun g => g.member? index).map Member.endpoint

def touched (t : Tables) : Op → List Addr
  | .putEndpoint e => [e.addr]
  | .removeEndpoint addr => [addr]
  | .bind vip index endpoint => endpoint :: (t.occupant? vip index).toList
  | .unbind vip index | .setActive vip index _ => (t.occupant? vip index).toList
  | .putRule rule => [rule.destination]
  | .removeRule destination => [destination]
  | .createGroup .. | .deleteGroup _ | .putNat .. | .deleteNat _ => []

/-! ## Operations

Each gives the tables after it and whether it reports a change. -/

def createGroup (t : Tables) (vip : Addr) (capacity : UInt16) : Except Error (Tables × Bool) :=
  if capacity = 0 then .error (.invalid .zeroCapacity)
  else
    match t.groups.get? vip with
    | some g =>
      if g.capacity = capacity then .ok (t, false)
      else .error (.conflict (.capacity vip g.capacity))
    | none => .ok (t.setGroup vip (.empty vip capacity), true)

def deleteGroup (t : Tables) (vip : Addr) : Except Error (Tables × Bool) := do
  let g ← t.group vip
  if !g.isEmpty then .error (.integrity (.members vip))
  else
    match t.nat.entries.find? (·.2 = vip) with
    | some (port, _) => .error (.integrity (.nat port vip))
    | none => .ok ({ t with groups := t.groups.erase vip }, true)

def putEndpoint (t : Tables) (e : Endpoint) : Except Error (Tables × Bool) :=
  .ok ({ t with endpoints := t.endpoints.insert e.addr e }, t.endpoints.get? e.addr ≠ some e)

def removeEndpoint (t : Tables) (addr : Addr) : Except Error (Tables × Bool) :=
  if !t.endpoints.contains addr then .error (.notFound (.endpoint addr))
  else
    match t.members.find? (·.endpoint = addr) with
    | some m => .error (.integrity (.bound addr m.index))
    | none =>
      if t.rules.contains addr then .error (.integrity (.routed addr))
      else .ok ({ t with endpoints := t.endpoints.erase addr }, true)

def bind (t : Tables) (vip : Addr) (index : UInt16) (endpoint : Addr) :
    Except Error (Tables × Bool) := do
  if !t.endpoints.contains endpoint then .error (.notFound (.endpoint endpoint))
  else
    let g ← t.group vip
    match ← g.slot index with
    | some m =>
      if m.endpoint = endpoint then .ok (t, false)
      else .ok (t.setGroup vip (g.setSlot index (some { m with endpoint })), true)
    | none => .ok (t.setGroup vip (g.setSlot index (some ⟨index, endpoint, true⟩)), true)

def unbind (t : Tables) (vip : Addr) (index : UInt16) : Except Error (Tables × Bool) := do
  let g ← t.group vip
  match ← g.slot index with
  | none => .error (.notFound (.member index vip))
  | some _ => .ok (t.setGroup vip (g.setSlot index none), true)

def setActive (t : Tables) (vip : Addr) (index : UInt16) (active : Bool) :
    Except Error (Tables × Bool) := do
  let g ← t.group vip
  match ← g.slot index with
  | none => .error (.notFound (.member index vip))
  | some m => .ok (t.setGroup vip (g.setSlot index (some { m with active })), m.active ≠ active)

/-- Write a rule and the egress port of its endpoint; only the rule counts for the report. -/
def putRule (t : Tables) (rule : Rule) : Except Error (Tables × Bool) :=
  match t.endpoints.get? rule.destination with
  | none => .error (.notFound (.endpoint rule.destination))
  | some e =>
    .ok ({ t with
        endpoints := t.endpoints.insert rule.destination { e with egress := rule.egress }
        rules := t.rules.insert rule.destination rule },
      t.rules.get? rule.destination ≠ some rule)

def removeRule (t : Tables) (destination : Addr) : Except Error (Tables × Bool) :=
  if !t.rules.contains destination then .error (.notFound (.rule destination))
  else if t.members.any (·.endpoint = destination) then .error (.integrity (.inUse destination))
  else .ok ({ t with rules := t.rules.erase destination }, true)

def putNat (t : Tables) (port : UInt16) (vip : Addr) : Except Error (Tables × Bool) :=
  if !t.groups.contains vip then .error (.notFound (.group vip))
  else .ok ({ t with nat := t.nat.insert port vip }, t.nat.get? port ≠ some vip)

def deleteNat (t : Tables) (port : UInt16) : Except Error (Tables × Bool) :=
  .ok ({ t with nat := t.nat.erase port }, t.nat.contains port)

def apply (t : Tables) : Op → Except Error (Tables × Bool)
  | .createGroup vip capacity => t.createGroup vip capacity
  | .deleteGroup vip => t.deleteGroup vip
  | .putEndpoint e => t.putEndpoint e
  | .removeEndpoint addr => t.removeEndpoint addr
  | .bind vip index endpoint => t.bind vip index endpoint
  | .unbind vip index => t.unbind vip index
  | .setActive vip index active => t.setActive vip index active
  | .putRule rule => t.putRule rule
  | .removeRule destination => t.removeRule destination
  | .putNat port vip => t.putNat port vip
  | .deleteNat port => t.deleteNat port

def memberOf? (t : Tables) (endpoint : Addr) : Option (Addr × UInt16) :=
  t.groups.values.findSome? fun g =>
    (g.members.find? (·.endpoint = endpoint)).map fun m => (g.vip, m.index)

def resolve? (t : Tables) (flow : FiveTuple) : Option Resolution :=
  match t.groups.get? flow.dstAddr with
  | some g => do
    let index ← Selection.select flow.hash g.eligible
    let m ← (g.slots[index]?).bind id
    let rule ← t.rules.get? m.endpoint
    return ⟨some g.vip, some m.index, m.endpoint, rule.egress, rule.mac⟩
  | none => do
    let rule ← t.rules.get? flow.dstAddr
    return ⟨none, none, rule.destination, rule.egress, rule.mac⟩

def teardownOps (t : Tables) : List Op :=
  t.nat.keys.map .deleteNat ++
  t.groups.values.flatMap (fun g => g.members.map fun m => .unbind g.vip m.index) ++
  t.groups.keys.map .deleteGroup ++
  t.rules.keys.map .removeRule ++
  t.endpoints.keys.map .removeEndpoint

end Tables

end LiveMigration
