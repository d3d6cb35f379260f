import LiveMigration.Proofs.Migration.Turn

namespace LiveMigration

open Journal

variable {config : Config} {p : Plan} {l : List Occurrence}

namespace Progress

@[simp] theorem quiesced_entering (pr : Progress) (s : Stage) :
    (pr.entering s).quiesced = pr.quiesced := by
  cases s <;> rfl

@[simp] theorem forwarded_entering (pr : Progress) (s : Stage) :
    (pr.entering s).forwarded = pr.forwarded := by
  cases s <;> rfl

@[simp] theorem snapshots_entering (pr : Progress) (s : Stage) :
    (pr.entering s).snapshots = pr.snapshots := by
  cases s <;> rfl

@[simp] theorem quiesced_keeping (pr : Progress) : (pr.keeping s).quiesced = pr.quiesced := rfl
@[simp] theorem forwarded_keeping (pr : Progress) : (pr.keeping s).forwarded = pr.forwarded := rfl
@[simp] theorem sourceRemoved_keeping (pr : Progress) :
    (pr.keeping s).sourceRemoved = pr.sourceRemoved := rfl
@[simp] theorem snapshots_keeping (pr : Progress) :
    (pr.keeping s).snapshots = pr.snapshots ++ [s] := rfl

end Progress

namespace Journal

@[simp] theorem answered_not_mem_calling (cs : List Call) : .answered c o ∉ calling cs := by
  simp [calling]

theorem answered_ne_of_error {o : Outcome c.Reply} {o' : Outcome c'.Reply}
    (h : c.result? knobs o = some (.error e)) (h' : c'.result? knobs o' = some (.ok a)) :
    Occurrence.answered c o ≠ .answered c' o' := by
  intro he
  cases he
  cases h.symm.trans h'

theorem copy?_of_error {o : Outcome c.Reply} (h : c.result? knobs o = some (.error e)) :
    copy? (.answered c o) = none := by
  cases o with
  | ok a => cases h
  | _ => cases c <;> rfl

end Journal

namespace Job

def opened (j : Job) : List Phase := j.records.map (·.phase)

theorem opened_closeLast (q : Phase) (now : UInt64) (rs : List PhaseRecord) :
    (closeLast q now rs).map (·.phase) = rs.map (·.phase) := by
  induction rs with
  | nil => rfl
  | cons r rs ih =>
    simp only [closeLast]
    split
    · rw [List.map_cons, ih, List.map_cons]
    · split
      · rfl
      · rfl

@[simp] theorem opened_leave (j : Job) : (j.leave q now).opened = j.opened :=
  opened_closeLast q now j.records

@[simp] theorem opened_enter (j : Job) : (j.enter q now).opened = j.opened ++ [q] := by
  simp [opened, enter]

theorem records_enters (qs : List Phase) (j : Job) :
    (qs.foldl (fun j q => j.enter q now) j).records = j.records ++ qs.map (⟨·, now, none⟩) := by
  induction qs generalizing j with
  | nil => exact (List.append_nil _).symm
  | cons q qs ih => exact (ih _).trans (List.append_assoc ..)

theorem opened_enters (qs : List Phase) (j : Job) :
    (qs.foldl (fun j q => j.enter q now) j).opened = j.opened ++ qs := by
  simp [opened, records_enters, Function.comp_def]

theorem opened_closeOpen (j : Job) (now : UInt64) : (j.closeOpen now).opened = j.opened := by
  simp only [opened, closeOpen, List.map_map]
  congr 1
  funext r
  simp only [Function.comp_apply]
  split
  · rfl
  · rfl

@[simp] theorem opened_conclude (j : Job) : (j.conclude f gone now wall).opened = j.opened := by
  rw [← j.opened_closeOpen now]
  cases f with
  | none => rfl
  | some e =>
    simp only [conclude]
    split
    · rfl
    · rfl

theorem record?_eq_none {j : Job} : j.record? q = none ↔ q ∉ j.opened := by
  simp [record?, opened]

end Job

namespace Course

theorem quiesced_iff (h : Course config p P pr j l) :
    pr.quiesced = true ↔ .answered (.quiesce p.source) (.ok ()) ∈ l := by
  induction h with
  | accepted => simp [Progress.none]
  | @refused _ _ _ _ _ c o _ _ _ _ hr ih =>
    have hne : Occurrence.answered c o ≠ .answered (.quiesce p.source) (.ok ()) :=
      answered_ne_of_error hr rfl
    simp [ih, hne.symm]
  | transferred d _ _ ih =>
    rw [apply_ite Progress.quiesced]
    simp [ih]
  | _ => simp_all

theorem forwarded_iff (h : Course config p P pr j l) :
    pr.forwarded = true ↔ p.traffic config ∈ written l := by
  induction h with
  | accepted => simp [Progress.none, written?]
  | transferred d _ _ ih =>
    rw [apply_ite Progress.forwarded]
    simp [ih, written?]
  | retired _ _ _ ih => simp [ih, written?, Plan.traffic_ne_retireBatch]
  | _ => simp_all [written?]

/-- The source counts as removed from the moment when its removal is entered on the record. -/
theorem sourceRemoved_iff (h : Course config p P pr j l) :
    pr.sourceRemoved = true ↔ .sourceTeardown ∈ j.opened := by
  induction h with
  | accepted ho =>
    obtain ⟨_, _, _, _, rfl⟩ := ho.job_new
    simp [Progress.none, Job.new, Job.opened]
  | @entered s _ _ _ _ _ _ ih =>
    cases s with
    | _ => simp_all [Progress.entering, Stage.phases]
  | transferred d _ _ ih =>
    rw [apply_ite Progress.sourceRemoved]
    simp [ih]
  | cancel _ _ ih | gathered _ ih => exact ih
  | drained _ _ _ _ ih =>
    rw [Job.opened_leave]
    exact ih
  | _ => simp_all

end Course

def Point.taken : Option (Except Error Snapshot) → List Snapshot
  | some (.ok x) => [x]
  | _ => []

def Point.pending : Point → List Snapshot
  | .waiting (.capturing a _) | .gathering a _ => taken a
  | _ => []

def Stage.Holds (snapshots : List Snapshot) : Stage → Prop
  | .submitted | .quiescing | .probing _ | .pausing _ | .capturing .. => snapshots = []
  | .transferring x => snapshots = [x]
  | _ => snapshots.Nodup

def Point.Holds (snapshots : List Snapshot) : Point → Prop
  | .waiting s | .entering s => s.Holds snapshots
  | .gathering .. => snapshots = []
  | _ => snapshots.Nodup

theorem Stage.Holds.nodup {s : Stage} (h : s.Holds snapshots) : snapshots.Nodup := by
  cases s with
  | submitted | quiescing | probing | pausing | capturing | transferring x =>
    cases h
    simp
  | _ => exact h

theorem Turn.ne_of_isElsewhere (h : isElsewhere d x = true) : d ≠ x := by
  intro he
  subst he
  simp [isElsewhere, Path.same] at h

inductive Stage.Entered : Stage → Prop
  | quiescing : Entered .quiescing
  | probing (d : Drain) : Entered (.probing d)
  | capturing : Entered (.capturing none none)
  | transferring (x : Snapshot) : Entered (.transferring x)
  | verifying (x d : Snapshot) : Entered (.verifying x d)
  | removingSource (next : Sequel) : Entered (.removingSource next)
  | restoring (d : Snapshot) : Entered (.restoring d)
  | reattaching : Entered .reattaching

namespace Course

theorem stage_entered (h : Course config p P pr j l) (hP : P = .entering s) : s.Entered := by
  cases h with
  | started | quiesced | drained | gathered | transferred | restored =>
    cases hP
    constructor
  | @detached next =>
    cases next with
    | restore d =>
      cases hP
      constructor
    | forward => cases hP
    | retire => cases hP
  | measured =>
    cases hP
    split
    · constructor
    · constructor
  | announced | forwarded =>
    split at hP
    · cases hP
      constructor
    · cases hP
  | _ => cases hP

theorem holds (h : Course config p P pr j l) : P.Holds pr.snapshots := by
  induction h with
  | accepted => rfl
  | cancelled _ _ ih | refused _ _ _ _ ih => exact Stage.Holds.nodup ih
  | @entered s pr _ _ _ _ _ ih =>
    rw [pr.snapshots_entering]
    exact ih
  | transferred d _ _ ih =>
    have ih : _ = _ := ih
    split
    · rename_i hd
      rw [Progress.snapshots_keeping, ih]
      simpa [Point.Holds, Stage.Holds] using (Turn.ne_of_isElsewhere hd).symm
    · rw [ih]
      simp [Point.Holds, Stage.Holds]
  | captureFailed _ ih =>
    have ih : _ = _ := ih
    rw [ih]
    exact List.nodup_nil
  | @prepareFailed x _ pr _ _ _ ih =>
    have ih : pr.snapshots = [] := ih
    rw [pr.snapshots_keeping, ih]
    exact List.pairwise_singleton ..
  | @gathered x pr _ _ _ ih =>
    have ih : pr.snapshots = [] := ih
    rw [pr.snapshots_keeping, ih]
    rfl
  | @detached next _ _ _ _ _ ih =>
    cases next with
    | _ => exact ih
  | measured _ _ ih | announced _ _ ih | forwarded _ _ _ _ ih =>
    split
    · exact ih
    · exact ih
  | cancel _ _ ih | started _ ih | quiesced _ _ _ ih | probed _ _ _ _ ih | woken _ _ ih
  | drained _ _ _ _ ih | captured _ _ _ _ _ ih | prepared _ _ _ _ _ ih | halfway _ _ ih
  | mismatched _ _ ih | tornDown _ ih | restored _ _ ih | reattached _ ih | forwardCancelled _ _ ih
  | forwardRefused _ _ _ _ ih | kept _ _ ih | retireRefused _ _ _ ih | retired _ _ _ ih | moved _ _ ih
  | removing _ _ _ ih | unrestored _ _ _ ih | targetRemoved _ _ ih | targetDetached _ _ ih
  | resuming _ _ ih | unresumed _ _ ih | resumed _ _ ih | discarding _ _ ih | tidied _ _ ih
  | discarded _ _ _ _ ih | discardedLast _ _ _ _ ih | closed _ _ _ ih => exact ih

theorem copies_eq (h : Course config p P pr j l) : copies l = pr.snapshots ++ P.pending := by
  induction h with
  | accepted => rfl
  | @entered s pr _ l _ hc _ ih =>
    have hs : (Point.waiting s).pending = [] := by
      cases hc.stage_entered rfl with
      | _ => rfl
    rw [copies_append, copies_calling, pr.snapshots_entering, hs]
    simpa [Point.pending] using ih
  | @refused s pr _ l _ c o _ _ hq _ hr ih =>
    have hs : (Point.waiting s).pending = [] := by
      cases s with
      | capturing => cases hq
      | _ => rfl
    rw [copies_append, ih, hs]
    simp [copy?_of_error hr, Point.pending]
  | @captured b pr _ l r _ o _ hr ih =>
    rw [copies_append, ih]
    cases r with
    | error e => simp [copy?_of_error hr, Point.pending, Point.taken]
    | ok x =>
      cases Call.result?_eq_ok.1 hr
      simp [copy?, Point.pending, Point.taken]
  | prepared _ _ _ _ _ ih =>
    rw [copies_append, ih]
    simp [copy?, Point.pending]
  | halfway _ _ ih => exact ih
  | transferred d _ _ ih =>
    rw [copies_append, ih]
    split
    · rename_i hd
      simp [copy?, hd, Point.pending]
    · rename_i hd
      simp [copy?, hd, Point.pending]
  | @detached next _ _ _ _ _ ih =>
    rw [copies_append, ih]
    cases next with
    | _ => simp [copy?, Point.pending, Sequel.point]
  | measured _ _ ih | announced _ _ ih | forwarded _ _ _ _ ih =>
    rw [copies_append, ih]
    split
    · simp [copy?, Point.pending]
    · simp [copy?, Point.pending]
  | _ => simp_all [Point.pending, copy?, Point.taken]

end Course

def Point.published (j : Job) : Point → List Job
  | .waiting .finished => [j]
  | _ => []

theorem Job.status_conclude (j : Job) (e : Error) : (j.conclude (some e) gone now wall).status =
    if e.root = .cancelled then .cancelled else .failed := by
  simp only [conclude]
  split
  · rename_i h
    rw [if_pos h]
  · rename_i h
    rw [if_neg h]

theorem Job.running_conclude (j : Job) : (j.conclude f gone now wall).status ≠ .running := by
  cases f with
  | none =>
    intro h
    cases h
  | some e =>
    simp only [conclude]
    split
    · intro h
      cases h
    · intro h
      cases h

namespace Course

theorem ended (h : Course config p P pr j l) (hP : P = .waiting .finished) : j.status ≠ .running := by
  induction h with
  | cancel _ _ ih => exact ih hP
  | entered _ hc =>
    cases hP
    cases hc.stage_entered rfl
  | closed => exact Job.running_conclude _
  | @detached next =>
    cases next with
    | _ => cases hP
  | measured | announced | forwarded =>
    split at hP
    · cases hP
    · cases hP
  | _ => cases hP

theorem closed_of_finished (h : Course config p P pr j l) (hP : P = .waiting .finished) :
    ∃ f i before now wall, Course config p (.closing f) pr i before ∧
      j = i.conclude f pr.sourceRemoved now wall ∧ l = before ++ [.did (.publish j)] := by
  induction h with
  | cancel h hj => simp [Job.isCancellable, Job.isTerminal, h.ended hP] at hj
  | entered _ h =>
    cases hP
    cases h.stage_entered rfl
  | closed _ _ h => exact ⟨_, _, _, _, _, h, rfl, rfl⟩
  | @detached next =>
    cases next with
    | _ => cases hP
  | measured | announced | forwarded =>
    split at hP
    · cases hP
    · cases hP
  | _ => cases hP

theorem published_eq (h : Course config p P pr j l) : published l = P.published j := by
  induction h with
  | accepted => rfl
  | @cancel s _ _ _ hc hj ih =>
    cases s with
    | finished => simp [Job.isCancellable, Job.isTerminal, hc.ended rfl] at hj
    | _ => exact ih
  | @entered s _ _ _ _ hc _ ih =>
    rw [published_append, published_calling, ih]
    cases s with
    | finished => cases hc.stage_entered rfl
    | _ => rfl
  | @refused s _ _ _ _ _ _ _ _ hq _ _ ih =>
    rw [published_append, ih]
    cases s with
    | finished => cases hq
    | _ => rfl
  | @detached next _ _ _ _ _ ih =>
    rw [published_append, ih]
    cases next with
    | _ => rfl
  | measured _ _ ih | announced _ _ ih | forwarded _ _ _ _ ih =>
    rw [published_append, ih]
    split
    · rfl
    · rfl
  | _ => simp_all [Point.published, published?]

theorem nil_of_published (h : Course config p P pr j l)
    (hl : l = before ++ .did (.publish i) :: after) : after = [] := by
  have hi : i ∈ published l := mem_published.2 (by simp [hl])
  rw [h.published_eq] at hi
  by_cases hP : P = .waiting .finished
  · obtain ⟨f, j₀, l₀, now, wall, h, -, hl'⟩ := h.closed_of_finished hP
    rcases List.eq_nil_or_concat after with ha | ⟨k, e, ha⟩
    · exact ha
    · rw [hl, ha, List.concat_eq_append, ← List.cons_append, ← List.append_assoc] at hl'
      have hi : i ∈ published l₀ := mem_published.2 (by simp [← (List.append_inj' hl' rfl).1])
      rw [h.published_eq] at hi
      cases hi
  · cases P with
    | waiting s =>
      cases s with
      | finished => exact absurd rfl hP
      | _ => cases hi
    | _ => cases hi

end Course

end LiveMigration
