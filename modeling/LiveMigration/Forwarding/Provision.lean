import LiveMigration.Fleet.Config
import LiveMigration.Forwarding.Store

namespace LiveMigration

def Node.endpoint (n : Node) (h : Host) : Endpoint := ⟨⟨n.addr, n.mac⟩, n.host, h.egress, n.container⟩

namespace Config

def nodeOps (i : Inventory) : List Node → Except HostError (List Op)
  | [] => .ok []
  | n :: rest => do
    let h ← i.get n.host
    let ops ← nodeOps i rest
    return .putEndpoint (n.endpoint h) :: .putRule ⟨n.addr, h.egress, some n.mac⟩ :: ops

def provisionBatch (c : Config) : Except HostError Batch := do
  let nodes ← nodeOps c.inventory c.nodes
  return ⟨.createGroup c.vip c.capacity :: nodes ++
    c.members.map (fun (i, n) => .bind c.vip i n.addr) ++ [.putNat c.servicePort c.vip]⟩

def provision (c : Config) : Except Error Store :=
  match c.provisionBatch with
  | .error e => .error (.ofHost e)
  | .ok b => (Store.empty.apply b).map Prod.fst

end Config

end LiveMigration
