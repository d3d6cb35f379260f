import LiveMigration.Shell.Session

namespace LiveMigration.Hosts

open Shell

def configure (r : Reach) (e : Endpoint) (command : Command) : Session Unit := do
  let f ← r.run e.host command
  if f.success then return ()
  else .fail (.reattach s!"{e.identity.text} on {e.host}: {Text.trimString f.stderr}")

def reattach (r : Reach) (e : Endpoint) (peers : List Neighbor) : Session Unit := do
  let h ← r.host e.host
  configure r e (.bindLink e.identity h.uplink peers)

def announce (r : Reach) (e : Endpoint) : Session Unit := configure r e (.announce e.addr)

def detach (r : Reach) (e : Endpoint) : Session Unit := configure r e (.unbindLink e.addr)

end LiveMigration.Hosts
