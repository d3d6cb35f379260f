import LiveMigration.Json.Decode

namespace LiveMigration

structure Snapshot where
  id : String
  endpoint : Addr
  host : HostName
  path : String
  size : UInt64
  createdAt : Timestamp
  deriving DecidableEq, Repr

def Snapshot.deliveredTo (s : Snapshot) (host : HostName) (path : String) : Snapshot :=
  { s with host, path }

structure IdentityChange where
  old : Identity
  new : Identity
  deriving DecidableEq, Repr

structure RestoreOptions where
  resumeTransport : Bool
  identityChange : Option IdentityChange
  deriving DecidableEq, Repr

def RestoreOptions.default : RestoreOptions := ⟨true, none⟩

instance : Jsonable Snapshot where
  ofJson? j := do
    let f ← j.fields? ["id", "endpoint", "host", "path", "size_bytes", "created_at"]
    return {
      id := ← f.required "id", endpoint := ← f.required "endpoint", host := ← f.required "host"
      path := ← f.required "path", size := ← f.required "size_bytes"
      createdAt := ← f.required "created_at" }
  toJson s := .record [("id", toJson s.id), ("endpoint", toJson s.endpoint), ("host", toJson s.host),
    ("path", toJson s.path), ("size_bytes", toJson s.size), ("created_at", toJson s.createdAt)]

instance : Jsonable IdentityChange where
  ofJson? j := do
    let f ← j.fields? ["from", "to"]
    return { old := ← f.required "from", new := ← f.required "to" }
  toJson r := .record [("from", toJson r.old), ("to", toJson r.new)]

instance : Jsonable RestoreOptions where
  ofJson? j := do
    let f ← j.fields? ["resume_transport", "rewrite"]
    return {
      resumeTransport := ← f.required "resume_transport", identityChange := ← f.optional "rewrite" }
  toJson o := .record [("resume_transport", toJson o.resumeTransport), ("rewrite", toJson o.identityChange)]

end LiveMigration
