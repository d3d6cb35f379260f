import LiveMigration.Hosts.Reading
import LiveMigration.Path
import LiveMigration.Shell.Session
import LiveMigration.Snapshot

namespace LiveMigration.Hosts

open Shell

structure Containers where
  reach : Reach
  quiesceSignal : String
  resumeSignal : String
  deriving DecidableEq, Repr

def perform (r : Reach) (host : HostName) (command : Command) : Session Unit := do
  let _ ← r.runChecked host command
  return ()

def fileSize (r : Reach) (host : HostName) (path : String) : Session UInt64 := do
  let f ← r.runChecked host (.fileSize path)
  .ofExcept (readSize f.stdout)

def archiveName (id : String) : String := id ++ ".tar"

namespace Containers

def quiesce (c : Containers) (e : Endpoint) : Session Unit :=
  perform c.reach e.host (.signal e.container c.quiesceSignal)

def isRunning (c : Containers) (e : Endpoint) : Session Bool := do
  let f ← c.reach.run e.host (.inspectRunning e.container)
  return f.success && Text.trimString f.stdout = "true"

def resume (c : Containers) (e : Endpoint) : Session Unit := do
  if !(← c.isRunning e) then perform c.reach e.host (.restoreInPlace e.container)
  perform c.reach e.host (.signal e.container c.resumeSignal)

def sendQueue (c : Containers) (e : Endpoint) : Session UInt64 := do
  let f ← c.reach.runChecked e.host (.sendQueue e.container)
  .done (readSendQueue f.stdout)

def capture (c : Containers) (now : Timestamp) (e : Endpoint) (id : String) : Session Snapshot := do
  let h ← c.reach.host e.host
  let path := Path.join h.checkpointDir (archiveName id)
  perform c.reach e.host (.checkpoint e.container path)
  let size ← fileSize c.reach e.host path
  return { id, endpoint := e.addr, host := e.host, path, size, createdAt := now }

def prepare (c : Containers) (host : HostName) (image : Option String) : Session Unit := do
  let h ← c.reach.host host
  perform c.reach host (.makeDir h.checkpointDir)
  match image with
  | none => return ()
  | some image => perform c.reach host (.imageExists image)

/-- Start a process from a snapshot, after removing what an earlier attempt may have left. -/
def restore (c : Containers) (s : Snapshot) (target : Endpoint) (options : RestoreOptions) :
    Session Unit := do
  c.reach.runBestEffort target.host (.removeLeftover target.container)
  let f ← c.reach.run target.host <|
    .restore s.path target.container options.resumeTransport (options.identityChange.map (·.new))
  if f.success then return ()
  else
    let log := f.stdout ++ f.stderr
    .fail <| .restore (classify log)
      s!"podman restore of {s.id} on {target.host} exited with {exitText f.exitCode}" log

def teardown (c : Containers) (e : Endpoint) : Session Unit :=
  perform c.reach e.host (.removeContainer e.container)

def discard (c : Containers) (s : Snapshot) : Session Unit :=
  perform c.reach s.host (.removeFile s.path)

end Containers

end LiveMigration.Hosts
