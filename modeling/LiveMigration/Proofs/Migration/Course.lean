import LiveMigration.Proofs.Migration.Journal

/-!
# Courses of a migration

Every way that one migration can go, one small move after the other, whatever the answers of the hosts and
of the store are, whenever it goes on and whenever it is cancelled. Later proofs go by induction on
`Course` and do not open the steps of a turn.
-/

namespace LiveMigration

open Journal

/-- Where a migration stands: at a wait, or in the middle of a turn. -/
inductive Point
  | waiting (s : Stage)
  | entering (s : Stage)
  | gathering (captured : Option (Except Error Snapshot)) (prepared : Option (Except Error Unit))
  | forwarding
  | retiring
  | failing (e : Error)
  | unwinding (e : Error)
  | tidying (failure : Option Error)
  | closing (failure : Option Error)

def Stage.phases : Stage → List Phase
  | .quiescing => [.quiescing]
  | .probing _ => [.draining]
  | .capturing .. => [.targetPreparing, .checkpointing]
  | .transferring _ => [.transferring]
  | .verifying .. => [.verifying]
  | .removingSource _ => [.sourceTeardown]
  | .restoring _ => [.restoring]
  | .reattaching => [.reattachingNetwork]
  | _ => []

def Stage.phase? : Stage → Option Phase
  | .quiescing => some .quiescing
  | .transferring _ => some .transferring
  | .verifying .. => some .verifying
  | .removingSource _ | .detachingSource _ => some .sourceTeardown
  | .restoring _ => some .restoring
  | .reattaching | .announcing => some .reattachingNetwork
  | _ => none

def Sequel.point : Sequel → Point
  | .restore d => .entering (.restoring d)
  | .forward => .forwarding
  | .retire => .retiring

namespace Progress

def entering (pr : Progress) : Stage → Progress
  | .removingSource _ => { pr with sourceRemoved := true }
  | _ => pr

def keeping (pr : Progress) (s : Snapshot) : Progress := { pr with snapshots := pr.snapshots ++ [s] }

end Progress

structure Plan.Opens (p : Plan) (j : Job) : Prop where
  job_new : ∃ host identity policy now, j = .new p.id p.source host identity policy now
  mode : p.mode = j.mode
  policy : p.policy = j.teardownPolicy
  moves : p.source ≠ p.target

inductive Course (config : Config) (p : Plan) : Point → Progress → Job → List Occurrence → Prop
  | accepted : p.Opens j → Course config p (.waiting .submitted) .none j [.accepted p]
  | cancel : Course config p (.waiting s) pr j l → j.isCancellable = true →
      Course config p (.waiting s) pr { j with cancelRequested := true } l
  | started : Course config p (.waiting .submitted) pr j l →
      Course config p (.entering .quiescing) pr j l
  | entered (now : UInt64) : Course config p (.entering s) pr j l → j.cancelRequested = false →
      Course config p (.waiting s) (pr.entering s) (s.phases.foldl (fun j q => j.enter q now) j)
        (l ++ calling (s.awaited config p))
  | cancelled : Course config p (.entering s) pr j l → j.cancelRequested = true →
      Course config p (.failing (Error.cancelled.within j.phase)) pr j l
  | refused : Course config p (.waiting s) pr j l → s.phase? = some q → c ∈ s.awaited config p →
      c.result? config.migration o = some (.error e) →
      Course config p (.failing (e.within q)) pr j (l ++ [.answered c o])
  | quiesced (d : Drain) (now : UInt64) : Course config p (.waiting .quiescing) pr j l →
      Course config p (.entering (.probing d)) { pr with quiesced := true } (j.leave .quiescing now)
        (l ++ [.answered (.quiesce p.source) (.ok ())])
  | probed (d' : Drain) (n : Nat) (o) : Course config p (.waiting (.probing d)) pr j l →
      Course config p (.waiting (.pausing d')) pr j
        (l ++ [.answered (.probe p.source) o, .did (.pause n)])
  | woken (d' : Drain) : Course config p (.waiting (.pausing d)) pr j l →
      Course config p (.waiting (.probing d')) pr j (l ++ [.did (.call (.probe p.source))])
  | drained (r : DrainResult) (now : UInt64) (o) : Course config p (.waiting (.probing d)) pr j l →
      Course config p (.entering (.capturing none none)) pr
        ({ j with drain := some r }.leave .draining now) (l ++ [.answered (.probe p.source) o])
  | captured (r) (now : UInt64) (o) : Course config p (.waiting (.capturing none b)) pr j l →
      (Call.capture p.source p.snapshotId).result? config.migration o = some r →
      Course config p (.gathering (some r) b) pr (j.leave .checkpointing now)
        (l ++ [.answered (.capture p.source p.snapshotId) o])
  | prepared (r) (now : UInt64) (o) : Course config p (.waiting (.capturing a none)) pr j l →
      (Call.prepare p.target.host config.migration.image).result? config.migration o = some r →
      Course config p (.gathering a (some r)) pr (j.leave .targetPreparing now)
        (l ++ [.answered (.prepare p.target.host config.migration.image) o])
  | halfway : Course config p (.gathering a b) pr j l → a = none ∨ b = none →
      Course config p (.waiting (.capturing a b)) pr j l
  | captureFailed : Course config p (.gathering (some (.error e)) (some r)) pr j l →
      Course config p (.failing (e.within .checkpointing)) pr j l
  | prepareFailed : Course config p (.gathering (some (.ok x)) (some (.error e))) pr j l →
      Course config p (.failing (e.within .targetPreparing)) (pr.keeping x) j l
  | gathered : Course config p (.gathering (some (.ok x)) (some (.ok ()))) pr j l →
      Course config p (.entering (.transferring x)) (pr.keeping x)
        { j with snapshotBytes := some x.size } l
  | transferred (d : Snapshot) (now : UInt64) : Course config p (.waiting (.transferring x)) pr j l →
      Course config p (.entering (.verifying x d)) (if Turn.isElsewhere d x then pr.keeping d else pr)
        (j.leave .transferring now) (l ++ [.answered (.transfer x p.target.host) (.ok d)])
  | mismatched : Course config p (.waiting (.verifying x d)) pr j l → n ≠ x.size →
      Course config p (.failing ((Error.sizeMismatch x.size n).within .verifying)) pr j
        (l ++ [.answered (.measure d) (.ok n)])
  | measured (now : UInt64) : Course config p (.waiting (.verifying x d)) pr j l →
      Course config p (.entering
        (if p.policy = .beforeRestore then .removingSource (.restore d) else .restoring d)) pr
        (j.leave .verifying now) (l ++ [.answered (.measure d) (.ok x.size)])
  | tornDown : Course config p (.waiting (.removingSource next)) pr j l →
      Course config p (.waiting (.detachingSource next)) pr j
        (l ++ [.answered (.teardown p.source) (.ok ()), .did (.call (.detach p.source))])
  | detached (now : UInt64) : Course config p (.waiting (.detachingSource next)) pr j l →
      Course config p next.point pr (j.leave .sourceTeardown now)
        (l ++ [.answered (.detach p.source) (.ok ())])
  | restored (now : UInt64) : Course config p (.waiting (.restoring d)) pr j l →
      Course config p (.entering .reattaching) { pr with restored := true } (j.leave .restoring now)
        (l ++ [.answered (.restore d p.target p.restoreOptions) (.ok ())])
  | reattached : Course config p (.waiting .reattaching) pr j l →
      Course config p (.waiting .announcing) pr j
        (l ++ [.answered (.reattach p.target config.peers) (.ok ()), .did (.call (.announce p.target))])
  | announced (now : UInt64) : Course config p (.waiting .announcing) pr j l →
      Course config p
        (if p.policy = .beforeForwarding then .entering (.removingSource .forward) else .forwarding) pr
        (j.leave .reattachingNetwork now) (l ++ [.answered (.announce p.target) (.ok ())])
  | forwardCancelled : Course config p .forwarding pr j l → j.cancelRequested = true →
      Course config p (.failing (Error.cancelled.within j.phase)) pr j l
  | forwardRefused (e : Error) (now : UInt64) : Course config p .forwarding pr j l →
      j.cancelRequested = false →
      Course config p (.failing (e.within .forwardingUpdate)) pr (j.enter .forwardingUpdate now)
        (l ++ [.did (.write (p.traffic config) (.error e))])
  | forwarded (changed : Bool) (now : UInt64) : Course config p .forwarding pr j l →
      j.cancelRequested = false →
      Course config p
        (if p.policy = .afterForwarding then .entering (.removingSource .retire) else .retiring)
        { pr with forwarded := true } ((j.enter .forwardingUpdate now).leave .forwardingUpdate now)
        (l ++ [.did (.write (p.traffic config) (.ok changed))])
  | kept : Course config p .retiring pr j l → p.mode = .sameIdentity →
      Course config p (.tidying none) pr j l
  | retireRefused (e : Error) : Course config p .retiring pr j l → p.mode = .memberRebind →
      Course config p (.failing (e.within .sourceTeardown)) pr j
        (l ++ [.did (.write p.retireBatch (.error e))])
  | retired (changed : Bool) : Course config p .retiring pr j l → p.mode = .memberRebind →
      Course config p (.tidying none) pr j (l ++ [.did (.write p.retireBatch (.ok changed))])
  -- From here on, cleaning up: the outcomes of calls no longer count.
  | moved : Course config p (.failing e) pr j l → pr.forwarded = true →
      Course config p (.tidying (some e)) pr j l
  | removing : Course config p (.failing e) pr j l → pr.forwarded = false → pr.restored = true →
      Course config p (.waiting (.removingTarget e)) pr j (l ++ [.did (.call (.teardown p.target))])
  | unrestored : Course config p (.failing e) pr j l → pr.forwarded = false → pr.restored = false →
      Course config p (.unwinding e) pr j l
  | targetRemoved (o) : Course config p (.waiting (.removingTarget e)) pr j l →
      Course config p (.waiting (.detachingTarget e)) pr j
        (l ++ [.answered (.teardown p.target) o, .did (.call (.detach p.target))])
  | targetDetached (o) : Course config p (.waiting (.detachingTarget e)) pr j l →
      Course config p (.unwinding e) pr j (l ++ [.answered (.detach p.target) o])
  | resuming : Course config p (.unwinding e) pr j l → (pr.quiesced && !pr.sourceRemoved) = true →
      Course config p (.waiting (.resuming e)) pr j (l ++ [.did (.call (.resume p.source))])
  | unresumed : Course config p (.unwinding e) pr j l → (pr.quiesced && !pr.sourceRemoved) = false →
      Course config p (.tidying (some e)) pr j l
  | resumed (o) : Course config p (.waiting (.resuming e)) pr j l →
      Course config p (.tidying (some e)) pr j (l ++ [.answered (.resume p.source) o])
  | discarding : Course config p (.tidying f) pr j l → pr.snapshots ≠ [] →
      Course config p (.waiting (.discarding f pr.snapshots)) pr j
        (l ++ calling (pr.snapshots.map .discard))
  | tidied : Course config p (.tidying f) pr j l → pr.snapshots = [] →
      Course config p (.closing f) pr j l
  | discarded (o) : Course config p (.waiting (.discarding f left)) pr j l → s ∈ left →
      left.erase s ≠ [] →
      Course config p (.waiting (.discarding f (left.erase s))) pr j (l ++ [.answered (.discard s) o])
  | discardedLast (o) : Course config p (.waiting (.discarding f left)) pr j l → s ∈ left →
      left.erase s = [] → Course config p (.closing f) pr j (l ++ [.answered (.discard s) o])
  | closed (now : UInt64) (wall : Timestamp) : Course config p (.closing f) pr j l →
      Course config p (.waiting .finished) pr (j.conclude f pr.sourceRemoved now wall)
        (l ++ [.did (.publish (j.conclude f pr.sourceRemoved now wall))])

namespace Job

@[simp] theorem id_enter (j : Job) : (j.enter q now).id = j.id := rfl
@[simp] theorem id_leave (j : Job) : (j.leave q now).id = j.id := rfl
@[simp] theorem source_enter (j : Job) : (j.enter q now).source = j.source := rfl
@[simp] theorem source_leave (j : Job) : (j.leave q now).source = j.source := rfl
@[simp] theorem status_enter (j : Job) : (j.enter q now).status = j.status := rfl
@[simp] theorem status_leave (j : Job) : (j.leave q now).status = j.status := rfl

@[simp] theorem id_enters (qs : List Phase) (j : Job) :
    (qs.foldl (fun j q => j.enter q now) j).id = j.id := by
  induction qs generalizing j with
  | nil => rfl
  | cons q qs ih => exact ih _

@[simp] theorem source_enters (qs : List Phase) (j : Job) :
    (qs.foldl (fun j q => j.enter q now) j).source = j.source := by
  induction qs generalizing j with
  | nil => rfl
  | cons q qs ih => exact ih _

@[simp] theorem status_enters (qs : List Phase) (j : Job) :
    (qs.foldl (fun j q => j.enter q now) j).status = j.status := by
  induction qs generalizing j with
  | nil => rfl
  | cons q qs ih => exact ih _

@[simp] theorem id_conclude (j : Job) : (j.conclude f gone now wall).id = j.id := by
  cases f with
  | none => rfl
  | some e =>
    simp only [conclude]
    split <;> rfl

@[simp] theorem source_conclude (j : Job) : (j.conclude f gone now wall).source = j.source := by
  cases f with
  | none => rfl
  | some e =>
    simp only [conclude]
    split <;> rfl

end Job

namespace Course

theorem head?_eq (h : Course config p P pr j l) : l.head? = some (.accepted p) := by
  induction h with
  | accepted => rfl
  | _ => simp_all

theorem plan_eq (h : Course config p P pr j (l ++ m)) (hl : l.head? = some (.accepted q)) : p = q := by
  have hp := h.head?_eq
  rw [List.head?_append, hl] at hp
  cases hp
  rfl

theorem moves (h : Course config p P pr j l) : p.source ≠ p.target := by
  induction h with
  | accepted ho => exact ho.moves
  | _ => assumption

theorem job_id (h : Course config p P pr j l) : j.id = p.id := by
  induction h with
  | accepted ho =>
    obtain ⟨_, _, _, _, rfl⟩ := ho.job_new
    rfl
  | _ => simp_all

theorem job_source (h : Course config p P pr j l) : j.source = p.source := by
  induction h with
  | accepted ho =>
    obtain ⟨_, _, _, _, rfl⟩ := ho.job_new
    rfl
  | _ => simp_all

theorem running (h : Course config p P pr j l) (hP : P ≠ .waiting .finished) : j.status = .running := by
  induction h with
  | accepted ho =>
    obtain ⟨_, _, _, _, rfl⟩ := ho.job_new
    rfl
  | refused _ hq _ _ ih =>
    refine ih ?_
    intro h
    cases h
    cases hq
  | closed => contradiction
  | _ => simp_all

theorem finished_of_terminal (h : Course config p P pr j l) (hj : j.isTerminal = true) :
    P = .waiting .finished := by
  apply Classical.byContradiction
  intro hP
  simp [Job.isTerminal, h.running hP] at hj

end Course

end LiveMigration
