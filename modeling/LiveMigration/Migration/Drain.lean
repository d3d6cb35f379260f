import LiveMigration.Error

namespace LiveMigration

inductive DrainStatus
  | drained
  | ceilingReached
  | probeFailed
  deriving DecidableEq, Repr

def DrainStatus.name : DrainStatus → String
  | .drained => "drained"
  | .ceilingReached => "ceiling_reached"
  | .probeFailed => "probe_failed"

instance : Jsonable DrainStatus := .ofWords [.drained, .ceilingReached, .probeFailed] DrainStatus.name

structure DrainResult where
  status : DrainStatus
  duration : Binary64
  lastQueue : Option UInt64
  polls : UInt32
  deriving DecidableEq, Repr

instance : Jsonable DrainResult where
  ofJson? j := do
    let f ← j.fields? ["status", "drain_ms", "last_queue_bytes", "polls"]
    return {
      status := ← f.required "status", duration := ← f.required "drain_ms"
      lastQueue := ← f.optional "last_queue_bytes", polls := ← f.required "polls" }
  toJson r := .record [("status", toJson r.status), ("drain_ms", toJson r.duration),
    ("last_queue_bytes", toJson r.lastQueue), ("polls", toJson r.polls)]

structure DrainLimits where
  poll : Span
  ceiling : Span
  deriving DecidableEq, Repr

def DrainLimits.default : DrainLimits := ⟨100, 2000⟩

structure Drain where
  start : Nat
  polls : UInt32
  lastQueue : Option UInt64
  deriving DecidableEq, Repr

namespace Drain

def begin (now : Nat) : Drain := ⟨now, 1, none⟩

def elapsed (d : Drain) (now : Nat) : Nat := now - d.start

def finish (d : Drain) (now : Nat) (status : DrainStatus) : DrainResult :=
  ⟨status, .ofMicros (d.elapsed now), d.lastQueue, d.polls⟩

inductive Next
  | ended (r : DrainResult)
  | pause (d : Drain) (micros : Nat)
  deriving DecidableEq, Repr

/-- Take the answer to a probe. The pause never reaches beyond the ceiling. -/
def observe (limits : DrainLimits) (now : Nat) (d : Drain) : Except ε UInt64 → Next
  | .error _ => .ended (d.finish now .probeFailed)
  | .ok n =>
    let d := { d with lastQueue := some n }
    if n = 0 then .ended (d.finish now .drained)
    else if limits.ceiling * 1000 ≤ d.elapsed now then .ended (d.finish now .ceilingReached)
    else .pause d (min (limits.poll * 1000) (limits.ceiling * 1000 - d.elapsed now))

def probeAgain (d : Drain) : Drain := { d with polls := d.polls + 1 }

structure Probe (ε : Type) where
  latency : Nat
  found : Except ε UInt64

/-- Go on from the start of a probe until the drain has ended; the result, and when each probe starts. There
is none if so many probes do not do, as when the limits leave no pause between them. -/
def course (limits : DrainLimits) (probes : Nat → Probe ε) :
    (fuel : Nat) → (number now : Nat) → Drain → Option DrainResult × List Nat
  | 0, _, _, _ => (none, [])
  | fuel + 1, number, now, d =>
    let p := probes number
    match d.observe limits (now + p.latency) p.found with
    | .ended r => (some r, [now])
    | .pause d micros =>
      let (r, starts) := course limits probes fuel (number + 1) (now + p.latency + micros) d.probeAgain
      (r, now :: starts)

end Drain

end LiveMigration
