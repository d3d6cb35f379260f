import LiveMigration.Hosts.Network
import LiveMigration.Hosts.Transfer
import LiveMigration.Migration.Call

namespace LiveMigration

def Config.containers (c : Config) : Hosts.Containers where
  reach := ⟨c.inventory, max c.migration.commandTimeout.toNat c.migration.transferTimeout.toNat⟩
  quiesceSignal := c.migration.quiesceSignal
  resumeSignal := c.migration.resumeSignal

namespace Hosts

def carryOut (c : Containers) (now : Timestamp) : (call : Call) → Shell.Session call.Reply
  | .quiesce e => c.quiesce e
  | .resume e => c.resume e
  | .probe e => c.sendQueue e
  | .capture e id => c.capture now e id
  | .prepare host image => c.prepare host image
  | .transfer s target => transfer c.reach s target
  | .measure s => measure c.reach s
  | .restore s target options => c.restore s target options
  | .teardown e => c.teardown e
  | .reattach e peers => reattach c.reach e peers
  | .announce e => announce c.reach e
  | .detach e => detach c.reach e
  | .discard s => c.discard s

end Hosts

end LiveMigration
