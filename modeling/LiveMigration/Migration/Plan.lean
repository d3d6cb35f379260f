import LiveMigration.Forwarding.Store
import LiveMigration.Snapshot

namespace LiveMigration

structure Plan where
  id : JobId
  source : Endpoint
  target : Endpoint
  mode : Mode
  policy : TeardownPolicy
  member : Option (Addr × UInt16)
  deriving DecidableEq, Repr

/-- The endpoint that a migration makes: the source at another place, or a replacement with an identity
and a container of its own. -/
def Endpoint.migrated (e : Endpoint) (host : HostName) (egress : EgressPort) : Option Identity → Endpoint
  | none => e.relocated host egress
  | some identity =>
    { identity, host, egress
      container := e.container ++ "-" ++ String.ofList (identity.addr.joined '-') }

namespace Plan

def snapshotId (p : Plan) : String := "ferry-" ++ p.id.text

def restoreOptions (p : Plan) : RestoreOptions where
  resumeTransport := true
  identityChange :=
    match p.mode with
    | .sameIdentity => none
    | .memberRebind => some ⟨p.source.identity, p.target.identity⟩

def targetRule (p : Plan) : Rule := ⟨p.target.addr, p.target.egress, some p.target.mac⟩

/-- The one change that ends the outage: traffic goes to the target. A source that keeps its address also
loses the reply rule of the service port, if there is one to drop; a replacement takes over the slot. -/
def forwardingBatch (p : Plan) (replyPort : Option UInt16) : Batch where
  ops := [.putEndpoint p.target, .putRule p.targetRule] ++
    match p.mode with
    | .sameIdentity => (replyPort.map Op.deleteNat).toList
    | .memberRebind => (p.member.map fun (vip, index) => Op.bind vip index p.target.addr).toList

def retireBatch (p : Plan) : Batch := ⟨[.removeRule p.source.addr, .removeEndpoint p.source.addr]⟩

end Plan

end LiveMigration
