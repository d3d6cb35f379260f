import LiveMigration.Net.Addr
import LiveMigration.Net.Mac

namespace LiveMigration

abbrev HostName := String

abbrev EgressPort := UInt16

structure Identity where
  addr : Addr
  mac : Mac
  deriving DecidableEq, Repr

def Identity.text (i : Identity) : String := i.addr.text ++ "/" ++ i.mac.text

structure Endpoint where
  identity : Identity
  host : HostName
  egress : EgressPort
  container : String
  deriving DecidableEq, Repr

namespace Endpoint

def addr (e : Endpoint) : Addr := e.identity.addr

def mac (e : Endpoint) : Mac := e.identity.mac

def relocated (e : Endpoint) (host : HostName) (egress : EgressPort) : Endpoint :=
  { e with host, egress }

@[simp] theorem addr_relocated (e : Endpoint) (host : HostName) (egress : EgressPort) :
    (e.relocated host egress).addr = e.addr := rfl

end Endpoint

structure Neighbor where
  addr : Addr
  mac : Mac
  deriving DecidableEq, Repr

end LiveMigration
