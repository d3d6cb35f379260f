import LiveMigration.Proofs.Migration.Progress

/-!
# The point of no return

A migration is committed from the first phase on from which there is no way back. A job that is committed
cannot be cancelled, and what is done only late in a migration is done by committed jobs only.
-/

namespace LiveMigration

open Journal

namespace Job

variable (j : Job)

def committed : Bool := j.opened.any Phase.isCommitted

@[simp] theorem committed_enter : (j.enter q now).committed = (j.committed || q.isCommitted) := by
  simp [committed]

@[simp] theorem committed_leave : (j.leave q now).committed = j.committed := by
  simp [committed]

@[simp] theorem committed_conclude : (j.conclude f gone now wall).committed = j.committed := by
  simp [committed]

@[simp] theorem cancelRequested_leave : (j.leave q now).cancelRequested = j.cancelRequested := rfl

@[simp] theorem cancelRequested_enters (qs : List Phase) :
    (qs.foldl (fun j q => j.enter q now) j).cancelRequested = j.cancelRequested := by
  induction qs generalizing j with
  | nil => rfl
  | cons q qs ih => exact ih (j.enter q now)

@[simp] theorem cancelRequested_conclude :
    (j.conclude f gone now wall).cancelRequested = j.cancelRequested := by
  cases f with
  | none => rfl
  | some e =>
    simp only [conclude]
    split
    · rfl
    · rfl

end Job

def Stage.isEarly : Stage → Bool
  | .submitted | .quiescing | .probing _ | .pausing _ | .capturing .. | .transferring _
  | .verifying .. => true
  | _ => false

def Stage.isLate : Stage → Bool
  | .removingSource _ | .detachingSource _ | .restoring _ | .reattaching | .announcing
  | .discarding none _ => true
  | _ => false

namespace Point

def isEarly : Point → Bool
  | .waiting s | .entering s => s.isEarly
  | .gathering .. => true
  | _ => false

def isLate : Point → Bool
  | .waiting s => s.isLate
  | .retiring | .tidying none | .closing none => true
  | _ => false

end Point

def Plan.isLate (p : Plan) : Occurrence → Bool
  | .did (.call (.restore ..)) | .did (.call (.reattach ..)) | .did (.call (.announce _)) => true
  | .did (.call (.teardown e)) | .did (.call (.detach e)) => e ≠ p.target
  | .did (.write ..) => true
  | _ => false

variable {config : Config} {p : Plan} {l : List Occurrence}

theorem Stage.any_phases_of_early {s : Stage} (hs : s.isEarly = true) :
    s.phases.any Phase.isCommitted = false := by
  cases s with
  | removingSource | restoring | reattaching => cases hs
  | _ => rfl

theorem Stage.any_phases_of_late {s : Stage} (config : Config) (p : Plan) (he : s.Entered)
    (hs : s.isLate = true ∨ (calling (s.awaited config p)).any p.isLate = true) :
    s.phases.any Phase.isCommitted = true := by
  cases he with
  | removingSource | restoring | reattaching => rfl
  | _ => simp [isLate, awaited, calling, Plan.isLate] at hs

theorem Journal.any_of_append {f : Occurrence → Bool} (hm : m.any f = false)
    (h : (l ++ m).any f = true) : l.any f = true := by
  simpa [hm] using h

theorem Job.committed_enters (qs : List Phase) (j : Job) :
    (qs.foldl (fun j q => j.enter q now) j).committed = (j.committed || qs.any Phase.isCommitted) := by
  induction qs generalizing j with
  | nil => simp
  | cons q qs ih => simp [ih, Bool.or_assoc]

namespace Course

theorem uncommitted_of_early (h : Course config p P pr j l) (hP : P.isEarly = true) :
    j.committed = false := by
  induction h with
  | accepted ho =>
    obtain ⟨_, _, _, _, rfl⟩ := ho.job_new
    rfl
  | entered now _ _ ih => rw [Job.committed_enters, ih hP, Stage.any_phases_of_early hP, Bool.or_self]
  | cancel _ _ ih => exact ih hP
  | started _ ih | halfway _ _ ih | gathered _ ih => exact ih rfl
  | drained r now _ _ ih =>
    rw [Job.committed_leave]
    exact ih rfl
  | @detached next =>
    cases next with
    | _ => cases hP
  | measured | announced | forwarded =>
    split at hP
    · cases hP
    · cases hP
  | _ => simp_all [Point.isEarly, Stage.isEarly]

theorem phase_isCommitted (h : Course config p P pr j l) (hs : j.status = .running)
    (hc : j.committed = true) : j.phase.isCommitted = true := by
  induction h with
  | accepted ho =>
    obtain ⟨_, _, _, _, rfl⟩ := ho.job_new
    cases hc
  | @entered s _ _ _ now h _ ih =>
    by_cases he : s.isEarly = true
    · rw [Job.committed_enters, h.uncommitted_of_early he, Stage.any_phases_of_early he] at hc
      cases hc
    · cases h.stage_entered rfl with
      | removingSource | restoring | reattaching => rfl
      | _ => exact absurd rfl he
  | closed => exact absurd hs (Job.running_conclude _)
  | cancel _ _ ih => exact ih hs hc
  | forwardRefused | forwarded => rfl
  | quiesced _ _ _ ih | captured _ _ _ _ _ ih | prepared _ _ _ _ _ ih | transferred _ _ _ ih
  | measured _ _ ih | detached _ _ ih | restored _ _ ih | announced _ _ ih =>
    rw [Job.committed_leave] at hc
    exact ih hs hc
  | drained r now _ _ ih =>
    rw [Job.committed_leave] at hc
    exact ih hs hc
  | gathered _ ih => exact ih hs hc
  | _ => simp_all

theorem uncommitted_of_cancelRequested (h : Course config p P pr j l)
    (hc : j.cancelRequested = true) : j.committed = false := by
  induction h with
  | accepted ho =>
    obtain ⟨_, _, _, _, rfl⟩ := ho.job_new
    cases hc
  | @cancel s _ j _ h hj ih =>
    simp only [Job.isCancellable, Job.isTerminal, Bool.and_eq_true] at hj
    cases hm : j.committed with
    | false => exact hm
    | true =>
      have hp := h.phase_isCommitted (by simpa using hj.1.1) hm
      simp [hp] at hj
  | entered _ _ hn => simp [hn] at hc
  | forwardRefused _ _ _ hn | forwarded _ _ _ hn => exact absurd hc (by simp [Job.enter, Job.leave, hn])
  | quiesced _ _ _ ih | captured _ _ _ _ _ ih | prepared _ _ _ _ _ ih | transferred _ _ _ ih
  | measured _ _ ih | detached _ _ ih | restored _ _ ih | announced _ _ ih | drained _ _ _ _ ih =>
    rw [Job.committed_leave]
    exact ih hc
  | gathered _ ih => exact ih hc
  | closed _ _ _ ih =>
    rw [Job.committed_conclude]
    rw [Job.cancelRequested_conclude] at hc
    exact ih hc
  | _ => simp_all

theorem committed_of_late (h : Course config p P pr j l)
    (hl : P.isLate = true ∨ l.any p.isLate = true) : j.committed = true := by
  induction h with
  | accepted =>
    rcases hl with hl | hl
    · cases hl
    · cases hl
  | cancel _ _ ih => exact ih hl
  | @entered s _ _ _ now h _ ih =>
    rw [Job.committed_enters, Bool.or_eq_true]
    have he := h.stage_entered rfl
    rw [List.any_append, Bool.or_eq_true] at hl
    rcases hl with hl | hl | hl
    · exact .inr (Stage.any_phases_of_late config p he (.inl hl))
    · exact .inl (ih (.inr hl))
    · exact .inr (Stage.any_phases_of_late config p he (.inr hl))
  | forwardRefused | forwarded => simp [Phase.isCommitted]
  -- The point before is late already.
  | tornDown _ ih | reattached _ ih | kept _ _ ih | retireRefused _ _ _ ih | retired _ _ _ ih =>
    exact ih (.inl rfl)
  | detached _ _ ih | restored _ _ ih | announced _ _ ih =>
    rw [Job.committed_leave]
    exact ih (.inl rfl)
  -- Nothing late is done.
  | started _ ih | cancelled _ _ ih | halfway _ _ ih | captureFailed _ ih | prepareFailed _ ih
  | gathered _ ih | forwardCancelled _ _ ih | moved _ _ ih | unrestored _ _ _ ih
  | unresumed _ _ ih => exact ih (.inr (hl.resolve_left Bool.false_ne_true))
  | refused _ _ _ _ ih | probed _ _ _ _ ih | woken _ _ ih | mismatched _ _ ih | targetDetached _ _ ih
  | resuming _ _ ih | resumed _ _ ih =>
    exact ih (.inr (any_of_append rfl (hl.resolve_left Bool.false_ne_true)))
  | quiesced _ _ _ ih | drained _ _ _ _ ih | captured _ _ _ _ _ ih | prepared _ _ _ _ _ ih
  | transferred _ _ _ ih =>
    rw [Job.committed_leave]
    exact ih (.inr (any_of_append rfl (hl.resolve_left Bool.false_ne_true)))
  | measured _ _ ih =>
    rw [Job.committed_leave]
    refine ih (.inr (any_of_append rfl (hl.resolve_left ?_)))
    split
    · exact Bool.false_ne_true
    · exact Bool.false_ne_true
  | removing _ _ _ ih | targetRemoved _ _ ih =>
    refine ih (.inr (any_of_append ?_ (hl.resolve_left Bool.false_ne_true)))
    simp [Plan.isLate]
  | closed _ _ _ ih =>
    rw [Job.committed_conclude]
    exact ih (.inr (any_of_append rfl (hl.resolve_left Bool.false_ne_true)))
  -- Whether it is late depends on whether there was a failure.
  | @discarding f _ _ _ _ _ ih =>
    cases f with
    | none => exact ih (.inl rfl)
    | some e =>
      refine ih (.inr (any_of_append ?_ (hl.resolve_left Bool.false_ne_true)))
      simp [Plan.isLate, calling]
  | @tidied f _ _ _ _ _ ih =>
    cases f with
    | none => exact ih (.inl rfl)
    | some e => exact ih (.inr (hl.resolve_left Bool.false_ne_true))
  | @discarded f _ _ _ _ _ _ _ _ _ ih | @discardedLast f _ _ _ _ _ _ _ _ _ ih =>
    cases f with
    | none => exact ih (.inl rfl)
    | some e => exact ih (.inr (any_of_append rfl (hl.resolve_left Bool.false_ne_true)))

theorem not_late_of_cancelRequested (h : Course config p P pr j l) (hj : j.cancelRequested = true)
    (he : e ∈ l) : p.isLate e = false := by
  cases hp : p.isLate e with
  | false => rfl
  | true =>
    have hc := h.committed_of_late (.inr (List.any_eq_true.2 ⟨e, he, hp⟩))
    cases (h.uncommitted_of_cancelRequested hj).symm.trans hc

theorem attempted_of_cancelRequested (h : Course config p P pr j l) (hj : j.cancelRequested = true) :
    attempted l = [] := by
  rw [List.eq_nil_iff_forall_not_mem]
  intro b hb
  obtain ⟨r, hb⟩ := mem_attempted.1 hb
  cases h.not_late_of_cancelRequested hj hb

theorem committed_of_succeeded (h : Course config p P pr j l) (hs : j.status = .succeeded) :
    j.committed = true := by
  by_cases hP : P = .waiting .finished
  · obtain ⟨f, i, before, now, wall, hc, rfl, -⟩ := h.closed_of_finished hP
    rw [Job.committed_conclude]
    cases f with
    | none => exact hc.committed_of_late (.inl rfl)
    | some e =>
      rw [i.status_conclude] at hs
      split at hs
      · cases hs
      · cases hs
  · cases (h.running hP).symm.trans hs

end Course

end LiveMigration
