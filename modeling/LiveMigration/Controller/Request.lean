import LiveMigration.Json.Decode

namespace LiveMigration

structure MigrationRequest where
  source : Addr
  targetHost : HostName
  newIdentity : Option Identity
  deriving DecidableEq, Repr

instance : Jsonable MigrationRequest where
  ofJson? j := do
    let f ← j.fields? ["source", "target_host", "new_identity"]
    return {
      source := ← f.required "source", targetHost := ← f.required "target_host"
      newIdentity := ← f.defaulted "new_identity" none }
  toJson r := .record [("source", toJson r.source), ("target_host", toJson r.targetHost),
    ("new_identity", toJson r.newIdentity)]

end LiveMigration
