import LiveMigration.Job.Record
import LiveMigration.Migration.Drain

namespace LiveMigration

structure Job where
  id : JobId
  source : Endpoint
  targetHost : HostName
  mode : Mode
  newIdentity : Option Identity
  teardownPolicy : TeardownPolicy
  phase : Phase
  status : JobStatus
  records : List PhaseRecord
  snapshotBytes : Option UInt64
  drain : Option DrainResult
  diagnostic : Option Diagnostic
  cancelRequested : Bool
  submittedAt : Timestamp
  finishedAt : Option Timestamp
  deriving DecidableEq, Repr

def Mode.ofIdentity : Option Identity → Mode
  | none => .sameIdentity
  | some _ => .memberRebind

namespace Job

def new (id : JobId) (source : Endpoint) (targetHost : HostName) (newIdentity : Option Identity)
    (policy : TeardownPolicy) (submittedAt : Timestamp) : Job where
  id
  source
  targetHost
  mode := .ofIdentity newIdentity
  newIdentity
  teardownPolicy := policy.resolve (.ofIdentity newIdentity)
  phase := .idle
  status := .running
  records := []
  snapshotBytes := none
  drain := none
  diagnostic := none
  cancelRequested := false
  submittedAt
  finishedAt := none

def isTerminal (j : Job) : Bool := j.status ≠ .running

def enter (j : Job) (phase : Phase) (now : UInt64) : Job :=
  { j with phase, records := j.records ++ [⟨phase, now, none⟩] }

def isOpenRecord (phase : Phase) (r : PhaseRecord) : Bool := r.phase = phase && r.isOpen

def closeLast (phase : Phase) (now : UInt64) : List PhaseRecord → List PhaseRecord
  | [] => []
  | r :: l =>
    if l.any (isOpenRecord phase) then r :: closeLast phase now l
    else if isOpenRecord phase r then r.close now :: l
    else r :: l

def leave (j : Job) (phase : Phase) (now : UInt64) : Job :=
  { j with records := closeLast phase now j.records }

def closeOpen (j : Job) (now : UInt64) : Job :=
  { j with records := j.records.map fun r => if r.isOpen then r.close now else r }

def record? (j : Job) (phase : Phase) : Option PhaseRecord := j.records.find? (·.phase = phase)

/-- Whether the job can still be cancelled: it is running, and neither the restore nor the removal of the
source has begun. -/
def isCancellable (j : Job) : Bool :=
  !j.isTerminal && !j.phase.isCommitted && (j.record? .sourceTeardown).isNone

def duration? (j : Job) (phase : Phase) : Option Binary64 := (j.record? phase).bind (·.duration?)

def lastEnd? (j : Job) : Option UInt64 :=
  j.records.foldl (fun latest r =>
    match latest, r.ended with
    | some m, some n => some (max m n)
    | none, n => n
    | m, none => m) none

def timings (j : Job) : Timings where
  quiesce := j.duration? .quiescing
  drain := j.duration? .draining
  checkpoint := j.duration? .checkpointing
  prepare := j.duration? .targetPreparing
  transfer := j.duration? .transferring
  verify := j.duration? .verifying
  restore := j.duration? .restoring
  reattach := j.duration? .reattachingNetwork
  forwarding := j.duration? .forwardingUpdate
  teardown := j.duration? .sourceTeardown
  timeToReady := do
    let start ← j.record? .checkpointing
    let stop ← (← j.record? .forwardingUpdate).ended
    return PhaseRecord.between start.started stop
  total := j.lastEnd?.map milliseconds

def conclude (j : Job) (failure : Option Error) (sourceRemoved : Bool) (now : UInt64)
    (wall : Timestamp) : Job :=
  let j := { j.closeOpen now with finishedAt := some wall }
  match failure with
  | none => { j with status := .succeeded, phase := .done }
  | some e =>
    let j := { j with diagnostic := some (.ofError e j.phase sourceRemoved) }
    match e.root with
    | .cancelled => { j with status := .cancelled, phase := .cancelled }
    | _ => { j with status := .failed, phase := .failed }

end Job

instance : Jsonable Job where
  ofJson? j := do
    let f ← j.fields? ["id", "source", "target_host", "mode", "new_identity", "teardown_policy", "phase",
      "status", "records", "snapshot_bytes", "drain", "diagnostic", "cancel_requested", "submitted_at",
      "finished_at"]
    return {
      id := ← f.required "id", source := ← f.required "source"
      targetHost := ← f.required "target_host", mode := ← f.required "mode"
      newIdentity := ← f.optional "new_identity"
      teardownPolicy := ← f.required "teardown_policy", phase := ← f.required "phase"
      status := ← f.required "status", records := ← f.required "records"
      snapshotBytes := ← f.optional "snapshot_bytes", drain := ← f.optional "drain"
      diagnostic := ← f.optional "diagnostic"
      cancelRequested := ← f.defaulted "cancel_requested" false
      submittedAt := ← f.required "submitted_at", finishedAt := ← f.optional "finished_at" }
  toJson j := .record [("id", toJson j.id), ("source", toJson j.source),
    ("target_host", toJson j.targetHost), ("mode", toJson j.mode),
    ("new_identity", j.newIdentity.map toJson), ("teardown_policy", toJson j.teardownPolicy),
    ("phase", toJson j.phase), ("status", toJson j.status), ("records", toJson j.records),
    ("snapshot_bytes", j.snapshotBytes.map toJson), ("drain", j.drain.map toJson),
    ("diagnostic", j.diagnostic.map toJson), ("cancel_requested", toJson j.cancelRequested),
    ("submitted_at", toJson j.submittedAt), ("finished_at", j.finishedAt.map toJson)]

end LiveMigration
