import LiveMigration.Job.Basic

namespace LiveMigration

structure JobReport where
  jobId : JobId
  phase : Phase
  status : JobStatus
  mode : Mode
  sourceIdentity : Identity
  sourceHost : HostName
  targetHost : HostName
  newIdentity : Option Identity
  teardownPolicy : TeardownPolicy
  timings : Timings
  snapshotBytes : Option UInt64
  drain : Option DrainResult
  diagnostic : Option Diagnostic
  cancelRequested : Bool
  submittedAt : Timestamp
  finishedAt : Option Timestamp
  deriving DecidableEq, Repr

def Job.report (j : Job) : JobReport where
  jobId := j.id
  phase := j.phase
  status := j.status
  mode := j.mode
  sourceIdentity := j.source.identity
  sourceHost := j.source.host
  targetHost := j.targetHost
  newIdentity := j.newIdentity
  teardownPolicy := j.teardownPolicy
  timings := j.timings
  snapshotBytes := j.snapshotBytes
  drain := j.drain
  diagnostic := j.diagnostic
  cancelRequested := j.cancelRequested
  submittedAt := j.submittedAt
  finishedAt := j.finishedAt

instance : Jsonable JobReport where
  ofJson? j := do
    let f ← j.fields? ["job_id", "phase", "status", "mode", "source_identity", "source_host",
      "target_host", "new_identity", "teardown_policy", "timings_ms", "snapshot_bytes", "drain",
      "diagnostic", "cancel_requested", "submitted_at", "finished_at"]
    return {
      jobId := ← f.required "job_id", phase := ← f.required "phase", status := ← f.required "status"
      mode := ← f.required "mode", sourceIdentity := ← f.required "source_identity"
      sourceHost := ← f.required "source_host", targetHost := ← f.required "target_host"
      newIdentity := ← f.optional "new_identity"
      teardownPolicy := ← f.required "teardown_policy", timings := ← f.required "timings_ms"
      snapshotBytes := ← f.optional "snapshot_bytes", drain := ← f.optional "drain"
      diagnostic := ← f.optional "diagnostic", cancelRequested := ← f.required "cancel_requested"
      submittedAt := ← f.required "submitted_at", finishedAt := ← f.optional "finished_at" }
  toJson r := .record [("job_id", toJson r.jobId), ("phase", toJson r.phase),
    ("status", toJson r.status), ("mode", toJson r.mode), ("source_identity", toJson r.sourceIdentity),
    ("source_host", toJson r.sourceHost), ("target_host", toJson r.targetHost),
    ("new_identity", r.newIdentity.map toJson), ("teardown_policy", toJson r.teardownPolicy),
    ("timings_ms", toJson r.timings), ("snapshot_bytes", r.snapshotBytes.map toJson),
    ("drain", r.drain.map toJson), ("diagnostic", r.diagnostic.map toJson),
    ("cancel_requested", toJson r.cancelRequested), ("submitted_at", toJson r.submittedAt),
    ("finished_at", r.finishedAt.map toJson)]

namespace Job

def boolText (b : Bool) : String := if b then "true" else "false"

def sampleFields (j : Job) : List (String × String) :=
  [("job_id", j.id.text), ("status", j.status.name), ("mode", j.mode.name),
    ("source_ip", j.source.addr.text), ("source_mac", j.source.mac.text),
    ("source_host", j.source.host), ("target_host", j.targetHost)] ++
  (match j.newIdentity with
    | none => []
    | some i => [("target_ip", i.addr.text), ("target_mac", i.mac.text)]) ++
  [("teardown_policy", j.teardownPolicy.name)] ++
  (j.snapshotBytes.map fun n => ("snapshot_bytes", toString n.toNat)).toList ++
  (match j.drain with
    | none => []
    | some d => ("drain_status", d.status.name) ::
      (d.lastQueue.map fun n => ("drain_last_queue_bytes", toString n.toNat)).toList) ++
  j.timings.named.filterMap (fun (name, x) => x.map fun x => (name, String.ofList (x.fixed 3))) ++
  match j.diagnostic with
  | none => []
  | some d => [("failed_phase", d.phase.name), ("error_kind", d.kind.name),
      ("source_removed", boolText d.sourceRemoved)]

def sampleText (j : Job) : String :=
  String.join (j.sampleFields.map fun (name, x) => name ++ "=" ++ x ++ "\n")

end Job

end LiveMigration
