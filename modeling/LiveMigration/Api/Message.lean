import LiveMigration.Error
import LiveMigration.Json.Decode

namespace LiveMigration.Api

structure MigrateRequest where
  source : Addr
  targetHost : HostName
  newIdentity : Option Identity
  deriving DecidableEq, Repr

instance : Jsonable MigrateRequest where
  ofJson? j := do
    let f ← j.fields? ["source_identity", "target_host", "new_identity"]
    return {
      source := ← f.required "source_identity", targetHost := ← f.required "target_host"
      newIdentity := ← f.defaulted "new_identity" none }
  toJson r := .record [("source_identity", toJson r.source), ("target_host", toJson r.targetHost),
    ("new_identity", r.newIdentity.map toJson)]

structure MigrateResponse where
  jobId : JobId
  deriving DecidableEq, Repr

instance : Jsonable MigrateResponse where
  ofJson? j := do
    let f ← j.fields? ["job_id"]
    return { jobId := ← f.required "job_id" }
  toJson r := .record [("job_id", toJson r.jobId)]

structure ReattachRequest where
  addr : Addr
  egress : EgressPort
  mac : Option Mac
  host : Option HostName
  deriving DecidableEq, Repr

instance : Jsonable ReattachRequest where
  ofJson? j := do
    let f ← j.fields? ["identity", "new_egress", "hw_identity", "host"]
    return {
      addr := ← f.required "identity", egress := ← f.required "new_egress"
      mac := ← f.defaulted "hw_identity" none, host := ← f.defaulted "host" none }
  toJson r := .record [("identity", toJson r.addr), ("new_egress", toJson r.egress),
    ("hw_identity", r.mac.map toJson), ("host", r.host.map toJson)]

structure ReattachResponse where
  status : String
  changed : Bool
  deriving DecidableEq, Repr

instance : Jsonable ReattachResponse where
  ofJson? j := do
    let f ← j.fields? ["status", "changed"]
    return { status := ← f.required "status", changed := ← f.required "changed" }
  toJson r := .record [("status", toJson r.status), ("changed", toJson r.changed)]

structure CleanupResponse where
  status : String
  removed : UInt64
  deriving DecidableEq, Repr

instance : Jsonable CleanupResponse where
  ofJson? j := do
    let f ← j.fields? ["status", "removed"]
    return { status := ← f.required "status", removed := ← f.required "removed" }
  toJson r := .record [("status", toJson r.status), ("removed", toJson r.removed)]

structure HealthResponse where
  status : String
  endpoints : UInt64
  runningJobs : UInt64
  deriving DecidableEq, Repr

instance : Jsonable HealthResponse where
  ofJson? j := do
    let f ← j.fields? ["status", "endpoints", "running_jobs"]
    return {
      status := ← f.required "status", endpoints := ← f.required "endpoints"
      runningJobs := ← f.required "running_jobs" }
  toJson r := .record [("status", toJson r.status), ("endpoints", toJson r.endpoints),
    ("running_jobs", toJson r.runningJobs)]

structure ErrorBody where
  error : String
  kind : ErrorKind
  deriving DecidableEq, Repr

def ErrorBody.ofError (e : Error) : ErrorBody := ⟨e.message, e.kind⟩

instance : Jsonable ErrorBody where
  ofJson? j := do
    let f ← j.fields? ["error", "kind"]
    return { error := ← f.required "error", kind := ← f.required "kind" }
  toJson r := .record [("error", toJson r.error), ("kind", toJson r.kind)]

end LiveMigration.Api
