import LiveMigration.Hosts.Containers

namespace LiveMigration.Hosts

open Shell

/-- The command, run on the source, that brings an archive to its destination; none if it is there. -/
def transferCommand? (source target : Host) (path destination : String) : Option Command :=
  if source.name = target.name ∧ Path.same path destination then none
  else if source.isLocal ∧ target.isLocal then some (.copy path destination)
  else some (.secureCopy path target.ssh destination)

def destination (s : Snapshot) (target : Host) : String :=
  Path.join target.checkpointDir ((Path.fileName? s.path).getD (archiveName s.id))

def transfer (r : Reach) (s : Snapshot) (target : HostName) : Session Snapshot := do
  let sourceHost ← r.host s.host
  let targetHost ← r.host target
  let path := destination s targetHost
  match transferCommand? sourceHost targetHost s.path path with
  | none => return s.deliveredTo target path
  | some command =>
    perform r s.host command
    return s.deliveredTo target path

def measure (r : Reach) (s : Snapshot) : Session UInt64 := fileSize r s.host s.path

end LiveMigration.Hosts
