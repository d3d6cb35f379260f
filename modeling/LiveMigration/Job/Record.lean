import LiveMigration.Error

namespace LiveMigration

structure PhaseRecord where
  phase : Phase
  started : UInt64
  ended : Option UInt64
  deriving DecidableEq, Repr

namespace PhaseRecord

def isOpen (r : PhaseRecord) : Bool := r.ended.isNone

def close (r : PhaseRecord) (now : UInt64) : PhaseRecord := { r with ended := some now }

def between (start stop : UInt64) : Binary64 := milliseconds (if stop < start then 0 else stop - start)

def duration? (r : PhaseRecord) : Option Binary64 := r.ended.map (between r.started)

end PhaseRecord

instance : Jsonable PhaseRecord where
  ofJson? j := do
    let f ← j.fields? ["phase", "started_us", "ended_us"]
    return {
      phase := ← f.required "phase", started := ← f.required "started_us"
      ended := ← f.optional "ended_us" }
  toJson r := .record [("phase", toJson r.phase), ("started_us", toJson r.started),
    ("ended_us", toJson r.ended)]

structure Diagnostic where
  phase : Phase
  kind : ErrorKind
  message : String
  agentLog : Option String
  remediation : Option String
  sourceRemoved : Bool
  deriving DecidableEq, Repr

def Diagnostic.ofError (e : Error) (current : Phase) (sourceRemoved : Bool) : Diagnostic where
  phase := e.phase?.getD current
  kind := e.kind
  message := e.root.message
  agentLog := e.agentLog?
  remediation := e.kind.remediation?
  sourceRemoved

instance : Jsonable Diagnostic where
  ofJson? j := do
    let f ← j.fields? ["phase", "kind", "message", "agent_log", "remediation", "source_removed"]
    return {
      phase := ← f.required "phase", kind := ← f.required "kind", message := ← f.required "message"
      agentLog := ← f.optional "agent_log", remediation := ← f.optional "remediation"
      sourceRemoved := ← f.required "source_removed" }
  toJson d := .record [("phase", toJson d.phase), ("kind", toJson d.kind),
    ("message", toJson d.message), ("agent_log", d.agentLog.map toJson),
    ("remediation", d.remediation.map toJson), ("source_removed", toJson d.sourceRemoved)]

structure Timings where
  quiesce : Option Binary64
  drain : Option Binary64
  checkpoint : Option Binary64
  prepare : Option Binary64
  transfer : Option Binary64
  verify : Option Binary64
  restore : Option Binary64
  reattach : Option Binary64
  forwarding : Option Binary64
  teardown : Option Binary64
  timeToReady : Option Binary64
  total : Option Binary64
  deriving DecidableEq, Repr

def Timings.named (t : Timings) : List (String × Option Binary64) :=
  [("quiesce_ms", t.quiesce), ("drain_ms", t.drain), ("checkpoint_ms", t.checkpoint),
    ("prepare_ms", t.prepare), ("transfer_ms", t.transfer), ("verify_ms", t.verify),
    ("restore_ms", t.restore), ("reattach_ms", t.reattach), ("forwarding_ms", t.forwarding),
    ("teardown_ms", t.teardown), ("time_to_ready_ms", t.timeToReady), ("total_ms", t.total)]

instance : Jsonable Timings where
  ofJson? j := do
    let f ← j.fields? ["quiesce_ms", "drain_ms", "checkpoint_ms", "prepare_ms", "transfer_ms",
      "verify_ms", "restore_ms", "reattach_ms", "forwarding_ms", "teardown_ms", "time_to_ready_ms",
      "total_ms"]
    return {
      quiesce := ← f.optional "quiesce_ms", drain := ← f.optional "drain_ms"
      checkpoint := ← f.optional "checkpoint_ms", prepare := ← f.optional "prepare_ms"
      transfer := ← f.optional "transfer_ms", verify := ← f.optional "verify_ms"
      restore := ← f.optional "restore_ms", reattach := ← f.optional "reattach_ms"
      forwarding := ← f.optional "forwarding_ms", teardown := ← f.optional "teardown_ms"
      timeToReady := ← f.optional "time_to_ready_ms", total := ← f.optional "total_ms" }
  toJson t := .record (t.named.map fun (name, x) => (name, x.map toJson))

end LiveMigration
