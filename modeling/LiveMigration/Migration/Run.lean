import LiveMigration.Job.Basic
import LiveMigration.Migration.Call
import LiveMigration.Migration.Plan

namespace LiveMigration

def Config.drainLimits (c : Config) : DrainLimits :=
  ⟨c.migration.drainPoll.toNat, c.migration.drainCeiling.toNat⟩

inductive Sequel
  | restore (delivered : Snapshot)
  | forward
  | retire
  deriving DecidableEq, Repr

inductive Stage
  | submitted
  | quiescing
  | probing (d : Drain)
  | pausing (d : Drain)
  | capturing (captured : Option (Except Error Snapshot)) (prepared : Option (Except Error Unit))
  | transferring (exported : Snapshot)
  | verifying (exported delivered : Snapshot)
  | removingSource (next : Sequel)
  | detachingSource (next : Sequel)
  | restoring (delivered : Snapshot)
  | reattaching
  | announcing
  | removingTarget (failure : Error)
  | detachingTarget (failure : Error)
  | resuming (failure : Error)
  | discarding (failure : Option Error) (left : List Snapshot)
  | finished

/-- What a migration has done so far, as far as cleaning up depends on it. -/
structure Progress where
  quiesced : Bool
  snapshots : List Snapshot
  restored : Bool
  forwarded : Bool
  /-- Whether the removal of the source has begun. -/
  sourceRemoved : Bool
  deriving DecidableEq, Repr

def Progress.none : Progress := ⟨false, [], false, false, false⟩

structure Run where
  plan : Plan
  lease : Lease
  start : Nat
  stage : Stage
  progress : Progress

def Stage.awaited (config : Config) (p : Plan) : Stage → List Call
  | .submitted | .pausing _ | .finished => []
  | .quiescing => [.quiesce p.source]
  | .probing _ => [.probe p.source]
  | .capturing captured prepared =>
    (if captured.isNone then [.capture p.source p.snapshotId] else []) ++
      if prepared.isNone then [.prepare p.target.host config.migration.image] else []
  | .transferring s => [.transfer s p.target.host]
  | .verifying _ delivered => [.measure delivered]
  | .removingSource _ => [.teardown p.source]
  | .detachingSource _ => [.detach p.source]
  | .restoring delivered => [.restore delivered p.target p.restoreOptions]
  | .reattaching => [.reattach p.target config.peers]
  | .announcing => [.announce p.target]
  | .removingTarget _ => [.teardown p.target]
  | .detachingTarget _ => [.detach p.target]
  | .resuming _ => [.resume p.source]
  | .discarding _ left => left.map .discard

namespace Run

def new (plan : Plan) (lease : Lease) : Run := ⟨plan, lease, 0, .submitted, .none⟩

def awaited (config : Config) (r : Run) : List Call := r.stage.awaited config r.plan

end Run

end LiveMigration
