import LiveMigration.Migration.Run
import LiveMigration.Path

/-!
# Steps

What a migration does between two waits, as a function of the store, its job and where it stands. The
functions come in the reverse of the order in which a migration that goes well passes through them.
-/

namespace LiveMigration

inductive Effect
  | call (c : Call)
  | write (b : Batch) (r : Except Error Bool)
  | pause (micros : Nat)
  | publish (j : Job)

structure Moment where
  micros : Nat
  wall : Timestamp
  deriving DecidableEq, Inhabited, Repr

structure Turn where
  store : Store
  job : Job
  run : Run
  effects : List Effect

namespace Turn

variable (config : Config) (m : Moment)

def sinceStart (t : Turn) : Nat := m.micros - t.run.start

def now (t : Turn) : UInt64 := UInt64.ofNat (t.sinceStart m)

def progress (t : Turn) : Progress := t.run.progress

def mapProgress (f : Progress → Progress) (t : Turn) : Turn :=
  { t with run := { t.run with progress := f t.run.progress } }

def mapJob (f : Job → Job) (t : Turn) : Turn := { t with job := f t.job }

def await (effects : List Effect) (stage : Stage) (t : Turn) : Turn :=
  { t with run := { t.run with stage }, effects := t.effects ++ effects }

/-- Give the lease back and close the job; only then is the job made known, so that whoever sees it
finished can submit again. -/
def finish (failure : Option Error) (t : Turn) : Turn :=
  let store := t.store.release t.run.lease
  let job := t.job.conclude failure t.progress.sourceRemoved (t.now m) m.wall
  { t with store, job }.await [.publish job] .finished

def discard (failure : Option Error) (t : Turn) : Turn :=
  match t.progress.snapshots with
  | [] => t.finish m failure
  | l => t.await (l.map fun s => .call (.discard s)) (.discarding failure l)

def resumeSource (e : Error) (t : Turn) : Turn :=
  if t.progress.quiesced && !t.progress.sourceRemoved then
    t.await [.call (.resume t.run.plan.source)] (.resuming e)
  else t.discard m (some e)

/-- Give up. Once traffic goes to the target there is nothing to go back to; before that a restored copy
is removed. -/
def fail (e : Error) (t : Turn) : Turn :=
  if t.progress.forwarded then t.discard m (some e)
  else if t.progress.restored then
    t.await [.call (.teardown t.run.plan.target)] (.removingTarget e)
  else t.resumeSource m e

def proceed (phase : Phase) (r : Except Error α) (k : α → Turn → Turn) (t : Turn) : Turn :=
  match r with
  | .ok a => k a t
  | .error e => t.fail m (e.within phase)

def enter (phases : List Phase) (k : Turn → Turn) (t : Turn) : Turn :=
  if t.job.cancelRequested then t.fail m (Error.cancelled.within t.job.phase)
  else k (t.mapJob fun j => phases.foldl (fun j p => j.enter p (t.now m)) j)

def leave (phase : Phase) (t : Turn) : Turn := t.mapJob fun j => j.leave phase (t.now m)

def write (phase : Phase) (b : Batch) (k : Turn → Turn) (t : Turn) : Turn :=
  let r := t.store.applyAs (some t.run.lease.job) b
  let t := { t with effects := t.effects ++ [Effect.write b (r.map Prod.snd)] }
  t.proceed m phase r fun (store, _) t => k { t with store }

def retire (t : Turn) : Turn :=
  match t.run.plan.mode with
  | .sameIdentity => t.discard m none
  | .memberRebind => t.write m .sourceTeardown t.run.plan.retireBatch (discard m none)

def removeSource (next : Sequel) (t : Turn) : Turn :=
  t.enter m [.sourceTeardown] fun t =>
    (t.mapProgress fun p => { p with sourceRemoved := true }).await
      [.call (.teardown t.run.plan.source)] (.removingSource next)

def replyPort : Option UInt16 := if config.suppressNat then some config.servicePort else none

def forward (t : Turn) : Turn :=
  t.enter m [.forwardingUpdate] <| write m .forwardingUpdate
    (t.run.plan.forwardingBatch (replyPort config)) fun t =>
      let t := (t.mapProgress fun p => { p with forwarded := true }).leave m .forwardingUpdate
      if t.run.plan.policy = .afterForwarding then t.removeSource m .retire else t.retire m

def announced (t : Turn) : Turn :=
  let t := t.leave m .reattachingNetwork
  if t.run.plan.policy = .beforeForwarding then t.removeSource m .forward else t.forward config m

def reattached (t : Turn) : Turn := t.await [.call (.announce t.run.plan.target)] .announcing

def restored (t : Turn) : Turn :=
  ((t.mapProgress fun p => { p with restored := true }).leave m .restoring).enter m
    [.reattachingNetwork] fun t =>
      t.await [.call (.reattach t.run.plan.target config.peers)] .reattaching

def restore (delivered : Snapshot) (t : Turn) : Turn :=
  t.enter m [.restoring] fun t =>
    t.await [.call (.restore delivered t.run.plan.target t.run.plan.restoreOptions)]
      (.restoring delivered)

def sourceGone (next : Sequel) (t : Turn) : Turn :=
  let t := t.leave m .sourceTeardown
  match next with
  | .restore delivered => t.restore m delivered
  | .forward => t.forward config m
  | .retire => t.retire m

def measured (exported delivered : Snapshot) (actual : UInt64) (t : Turn) : Turn :=
  if actual ≠ exported.size then
    t.fail m ((Error.sizeMismatch exported.size actual).within .verifying)
  else
    let t := t.leave m .verifying
    if t.run.plan.policy = .beforeRestore then t.removeSource m (.restore delivered)
    else t.restore m delivered

def isElsewhere (s other : Snapshot) : Bool := s.host ≠ other.host || !Path.same s.path other.path

def transferred (exported delivered : Snapshot) (t : Turn) : Turn :=
  let t := if isElsewhere delivered exported then
      t.mapProgress fun p => { p with snapshots := p.snapshots ++ [delivered] }
    else t
  (t.leave m .transferring).enter m [.verifying] fun t =>
    t.await [.call (.measure delivered)] (.verifying exported delivered)

/-- Go on when both the capture and the preparation have ended; a failure of the capture counts first. -/
def captured (captured : Option (Except Error Snapshot)) (prepared : Option (Except Error Unit))
    (t : Turn) : Turn :=
  match captured, prepared with
  | some c, some p =>
    t.proceed m .checkpointing c fun s t =>
      (t.mapProgress fun p => { p with snapshots := p.snapshots ++ [s] }).proceed m .targetPreparing p
        fun _ t =>
          (t.mapJob fun j => { j with snapshotBytes := some s.size }).enter m [.transferring] fun t =>
            t.await [.call (.transfer s t.run.plan.target.host)] (.transferring s)
  | c, p => t.await [] (.capturing c p)

def drained (r : DrainResult) (t : Turn) : Turn :=
  ((t.mapJob fun j => { j with drain := some r }).leave m .draining).enter m
    [.targetPreparing, .checkpointing] fun t =>
      t.await [.call (.capture t.run.plan.source t.run.plan.snapshotId),
        .call (.prepare t.run.plan.target.host config.migration.image)] (.capturing none none)

def probe (d : Drain) (t : Turn) : Turn := t.await [.call (.probe t.run.plan.source)] (.probing d)

def probed (d : Drain) (r : Except Error UInt64) (t : Turn) : Turn :=
  match d.observe config.drainLimits (t.sinceStart m) r with
  | .ended result => t.drained config m result
  | .pause d micros => t.await [.pause micros] (.pausing d)

def quiesced (t : Turn) : Turn :=
  ((t.mapProgress fun p => { p with quiesced := true }).leave m .quiescing).enter m [.draining] fun t =>
    t.probe (.begin (t.sinceStart m))

def begin (t : Turn) : Turn :=
  t.enter m [.quiescing] fun t => t.await [.call (.quiesce t.run.plan.source)] .quiescing

def start (t : Turn) : Turn :=
  match t.run.stage with
  | .submitted => { t with run := { t.run with start := m.micros } }.begin m
  | _ => t

def wake (t : Turn) : Turn :=
  match t.run.stage with
  | .pausing d => t.probe d.probeAgain
  | _ => t

def receive (c : Call) (r : Except Error c.Reply) (t : Turn) : Turn :=
  match t.run.stage, c, r with
  | .quiescing, .quiesce _, r => t.proceed m .quiescing r fun _ t => t.quiesced m
  | .probing d, .probe _, r => t.probed config m d r
  | .capturing _ p, .capture .., r => (t.leave m .checkpointing).captured m (some r) p
  | .capturing c _, .prepare .., r => (t.leave m .targetPreparing).captured m c (some r)
  | .transferring s, .transfer .., r =>
    t.proceed m .transferring r fun delivered t => t.transferred m s delivered
  | .verifying s delivered, .measure _, r =>
    t.proceed m .verifying r fun actual t => t.measured m s delivered actual
  | .removingSource next, .teardown _, r =>
    t.proceed m .sourceTeardown r fun _ t =>
      t.await [.call (.detach t.run.plan.source)] (.detachingSource next)
  | .detachingSource next, .detach _, r =>
    t.proceed m .sourceTeardown r fun _ t => t.sourceGone config m next
  | .restoring _, .restore .., r => t.proceed m .restoring r fun _ t => t.restored config m
  | .reattaching, .reattach .., r => t.proceed m .reattachingNetwork r fun _ t => t.reattached
  | .announcing, .announce _, r => t.proceed m .reattachingNetwork r fun _ t => t.announced config m
  | .removingTarget e, .teardown _, _ =>
    t.await [.call (.detach t.run.plan.target)] (.detachingTarget e)
  | .detachingTarget e, .detach _, _ => t.resumeSource m e
  | .resuming e, .resume _, _ => t.discard m (some e)
  | .discarding failure left, .discard s, _ =>
    match left.erase s with
    | [] => t.finish m failure
    | left => t.await [] (.discarding failure left)
  | _, _, _ => t

/-- Take the outcome of a call. What is not waited for, or cannot be, changes nothing. -/
def answer (c : Call) (o : Outcome c.Reply) (t : Turn) : Turn :=
  if c ∈ t.run.awaited config then
    match c.result? config.migration o with
    | some r => t.receive config m c r
    | none => t
  else t

end Turn

end LiveMigration
