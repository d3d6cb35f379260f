import LiveMigration.Proofs.Migration.Commitment
import LiveMigration.Proofs.Migration.Failure

namespace LiveMigration

open Journal

namespace Journal

/-- All calls succeeded, in time, and nothing was lost on the way. -/
structure Smooth (l : List Occurrence) : Prop where
  succeeded : ∀ (c : Call) (o : Outcome c.Reply), .answered c o ∈ l → ∃ a, o = .ok a
  whole : Whole l

variable {l m : List Occurrence}

def isBad : Occurrence → Bool
  | .answered _ (.ok _) => false
  | .answered .. => true
  | _ => false

theorem smooth_iff : Smooth l ↔ l.any isBad = false ∧ Whole l := by
  constructor
  · refine fun h => ⟨List.any_eq_false.2 fun e he => ?_, h.whole⟩
    cases e with
    | answered c o =>
      obtain ⟨a, rfl⟩ := h.succeeded c o he
      exact Bool.false_ne_true
    | _ => exact Bool.false_ne_true
  · rintro ⟨hb, hw⟩
    refine ⟨fun c o ho => ?_, hw⟩
    have hn := List.any_eq_false.1 hb _ ho
    cases o with
    | ok a => exact ⟨a, rfl⟩
    | _ => exact absurd rfl hn

theorem whole_iff : Whole l ↔ (exported l).all (fun x => (measured l).all (· == x.size)) = true := by
  simp [Whole]

instance : Decidable (Whole l) := decidable_of_iff _ whole_iff.symm

instance {config : Config} {p : Plan} : Decidable (Broken config p l) :=
  inferInstanceAs (Decidable (_ = true ∨ ¬ Whole l))

instance : Decidable (Smooth l) := decidable_of_iff _ smooth_iff.symm

theorem Smooth.of_append (h : Smooth (l ++ m)) : Smooth l where
  succeeded c o ho := h.succeeded c o (List.mem_append_left m ho)
  whole x hx n hn := h.whole x (by simp [hx]) n (by simp [hn])

theorem Smooth.did (h : Smooth l) (es : List Effect) : Smooth (l ++ es.map .did) where
  succeeded c o ho := h.succeeded c o (by simpa using ho)
  whole := by
    refine h.whole.append ?_ ?_
    · simp [exported, exported?]
    · simp [measured, measured?]

theorem Smooth.answered {a : c.Reply} (h : Smooth l) (hw : Whole (l ++ [.answered c (.ok a)])) :
    Smooth (l ++ [.answered c (.ok a)]) where
  succeeded c' o ho := by
    rcases List.mem_append.1 ho with ho | ho
    · exact h.succeeded c' o ho
    · cases List.mem_singleton.1 ho
      exact ⟨a, rfl⟩
  whole := hw

theorem length_written_le (l : List Occurrence) : (written l).length ≤ (attempted l).length := by
  induction l with
  | nil => exact Nat.le_refl 0
  | cons e l ih =>
    have he : (written? e).toList.length ≤ (attempt? e).toList.length := by
      unfold written?
      split
      · simp [attempt?]
      · simp
    rw [written_cons, attempted_cons, List.length_append, List.length_append]
    omega

end Journal

def Point.Amiss (j : Job) : Point → Prop
  | .waiting (.capturing a b) | .gathering a b => (∃ e, a = some (.error e)) ∨ ∃ e, b = some (.error e)
  | .waiting (.removingTarget _) | .waiting (.detachingTarget _) | .waiting (.resuming _)
  | .waiting (.discarding (some _) _) | .failing _ | .unwinding _ | .tidying (some _)
  | .closing (some _) => True
  | .waiting .finished => j.status ≠ .succeeded
  | _ => False

namespace Course

variable {config : Config} {p : Plan} {l : List Occurrence}

/-- Where all that a migration hears is good and it is not cancelled, it fails only by a refusal of the
store. -/
theorem refused_of_amiss (h : Course config p P pr j l) (hj : j.cancelRequested = false) (hl : Smooth l)
    (ha : P.Amiss j) : (written l).length < (attempted l).length := by
  have quiet : ∀ {k m : List Occurrence}, attempted m = [] → (written k).length < (attempted k).length →
      (written (k ++ m)).length < (attempted (k ++ m)).length := by
    intro k m hm hk
    simpa [hm, written_of_attempted hm] using hk
  induction h with
  | cancel => cases hj
  | entered _ h =>
    cases h.stage_entered rfl with
    | capturing => simp [Point.Amiss] at ha
    | _ => cases ha
  | cancelled _ hc | forwardCancelled _ hc => cases hj.symm.trans hc
  -- Nothing bad was heard.
  | @refused _ _ _ _ _ c o _ _ _ _ hr =>
    obtain ⟨a, rfl⟩ := hl.succeeded c o (by simp)
    cases hr
  | @mismatched x _ _ d _ n h hn =>
    refine absurd ?_ hn
    exact hl.whole x (by simp [h.sized.1]) n (by simp [measured?])
  | captured r _ o _ hr ih =>
    obtain ⟨a, rfl⟩ := hl.succeeded (.capture p.source p.snapshotId) o (by simp)
    cases hr
    refine quiet rfl (ih hj hl.of_append ?_)
    simpa [Point.Amiss] using ha
  | prepared r _ o _ hr ih =>
    obtain ⟨a, rfl⟩ := hl.succeeded (.prepare p.target.host config.migration.image) o (by simp)
    cases hr
    refine quiet rfl (ih hj hl.of_append ?_)
    simpa [Point.Amiss] using ha
  | halfway _ _ ih => exact ih hj hl ha
  | captureFailed _ ih => exact ih hj hl (.inl ⟨_, rfl⟩)
  | prepareFailed _ ih => exact ih hj hl (.inr ⟨_, rfl⟩)
  | @forwardRefused _ _ l | @retireRefused _ _ l =>
    have hle := length_written_le l
    simp [attempt?, written?]
    omega
  | moved _ _ ih | unrestored _ _ _ ih | unresumed _ _ ih => exact ih hj hl trivial
  | removing _ _ _ ih | targetRemoved _ _ ih | targetDetached _ _ ih | resuming _ _ ih | resumed _ _ ih =>
    exact quiet rfl (ih hj hl.of_append trivial)
  | @discarding f _ _ _ _ _ ih =>
    cases f with
    | none => cases ha
    | some e => exact quiet (attempted_calling _) (ih hj hl.of_append trivial)
  | @tidied f _ _ _ _ _ ih =>
    cases f with
    | none => cases ha
    | some e => exact ih hj hl trivial
  | @discarded f _ _ _ _ _ _ _ _ _ ih | @discardedLast f _ _ _ _ _ _ _ _ _ ih =>
    cases f with
    | none => cases ha
    | some e => exact quiet rfl (ih hj hl.of_append trivial)
  | @closed f _ _ _ _ _ _ ih =>
    rw [Job.cancelRequested_conclude] at hj
    cases f with
    | none => exact absurd rfl ha
    | some e => exact quiet rfl (ih hj hl.of_append trivial)
  | @detached next =>
    cases next with
    | _ => cases ha
  | measured | announced | forwarded =>
    split at ha
    · cases ha
    · cases ha
  | _ => cases ha

end Course

def Stage.index : Stage → Nat
  | .submitted => 20
  | .quiescing => 19
  | .pausing _ => 18
  | .probing _ => 17
  | .capturing none none => 16
  | .capturing .. => 15
  | .transferring _ => 14
  | .verifying .. => 13
  | .removingSource (.restore _) => 12
  | .detachingSource (.restore _) => 11
  | .restoring _ => 10
  | .reattaching => 9
  | .announcing => 8
  | .removingSource .forward => 7
  | .detachingSource .forward => 6
  | .removingSource .retire => 5
  | .detachingSource .retire => 4
  | .removingTarget _ => 3
  | .detachingTarget _ => 2
  | .resuming _ => 1
  | .discarding .. | .finished => 0

/-- How far a migration is from its end. Each answer can bring one more archive that is to be deleted. -/
def Run.distance (r : Run) : Nat :=
  match r.stage with
  | .discarding _ left => left.length
  | .finished => 0
  | s => 2 * s.index + r.progress.snapshots.length

theorem Drain.observe_late {limits : DrainLimits} {d : Drain} (h : limits.ceiling * 1000 ≤ d.elapsed now)
    (found : Except ε UInt64) : ∃ r, d.observe limits now found = .ended r := by
  cases found with
  | error e => exact ⟨_, rfl⟩
  | ok n =>
    simp only [observe]
    split
    · exact ⟨_, rfl⟩
    · exact ⟨_, if_pos h⟩

namespace Turn

variable {config : Config} {m : Moment} {t : Turn} {n : Nat}

theorem distance_discard (h : t.run.progress.snapshots.length ≤ n) : (t.discard m f).run.distance ≤ n := by
  simp only [discard, progress]
  cases hs : t.run.progress.snapshots with
  | nil => exact Nat.zero_le n
  | cons x left =>
    rw [hs] at h
    exact h

theorem distance_resumeSource (h : t.run.progress.snapshots.length + 2 ≤ n) :
    (t.resumeSource m e).run.distance ≤ n := by
  simp only [resumeSource]
  split
  · simp only [await, Run.distance, Stage.index]
    omega
  · exact distance_discard (by omega)

theorem distance_fail (h : t.run.progress.snapshots.length + 6 ≤ n) : (t.fail m e).run.distance ≤ n := by
  simp only [fail]
  split
  · exact distance_discard (by omega)
  split
  · simp only [await, Run.distance, Stage.index]
    omega
  · exact distance_resumeSource (by omega)

theorem distance_proceed {r : Except Error α} {k : α → Turn → Turn}
    (h : t.run.progress.snapshots.length + 6 ≤ n) (hk : ∀ a, (k a t).run.distance ≤ n) :
    (t.proceed m q r k).run.distance ≤ n := by
  cases r with
  | ok a => exact hk a
  | error e => exact distance_fail h

theorem distance_enter {k : Turn → Turn} (h : t.run.progress.snapshots.length + 6 ≤ n)
    (hk : ∀ u, u.run = t.run → (k u).run.distance ≤ n) : (t.enter m qs k).run.distance ≤ n := by
  simp only [enter]
  split
  · exact distance_fail h
  · exact hk _ rfl

theorem distance_write {k : Turn → Turn} (h : t.run.progress.snapshots.length + 6 ≤ n)
    (hk : ∀ u, u.run = t.run → (k u).run.distance ≤ n) : (t.write m q b k).run.distance ≤ n :=
  distance_proceed h fun _ => hk _ rfl

theorem distance_retire (h : t.run.progress.snapshots.length + 6 ≤ n) : (t.retire m).run.distance ≤ n := by
  simp only [retire]
  split
  · exact distance_discard (by omega)
  · refine distance_write h ?_
    intro u hu
    exact distance_discard (by rw [hu]; omega)

theorem distance_removeSource
    (h : t.run.progress.snapshots.length + 2 * (Stage.removingSource next).index ≤ n) :
    (t.removeSource m next).run.distance ≤ n := by
  have hi : 5 ≤ (Stage.removingSource next).index := by cases next <;> simp [Stage.index]
  refine distance_enter (by omega) ?_
  intro u hu
  simp only [await, mapProgress, Run.distance, hu]
  omega

theorem distance_forward (h : t.run.progress.snapshots.length + 10 ≤ n) :
    (t.forward config m).run.distance ≤ n := by
  refine distance_enter (by omega) ?_
  intro u hu
  rw [← hu] at h
  refine distance_write (by omega) ?_
  intro v hv
  rw [← hv] at h
  dsimp only
  split
  · exact distance_removeSource h
  · exact distance_retire (by simp only [leave, mapJob, mapProgress]; omega)

theorem distance_restore (h : t.run.progress.snapshots.length + 20 ≤ n) :
    (t.restore m d).run.distance ≤ n := by
  refine distance_enter (by omega) ?_
  intro u hu
  simp only [await, Run.distance, Stage.index, hu]
  omega

theorem distance_sourceGone :
    (t.sourceGone config m next).run.distance <
      t.run.progress.snapshots.length + 2 * (Stage.detachingSource next).index := by
  rw [Nat.lt_iff_le_pred (by cases next <;> simp [Stage.index])]
  cases next with
  | restore d => exact distance_restore (by simp [leave, mapJob, Stage.index])
  | forward => exact distance_forward (by simp [leave, mapJob, Stage.index])
  | retire => exact distance_retire (by simp [leave, mapJob, Stage.index])

theorem distance_announced (h : t.run.progress.snapshots.length + 14 ≤ n) :
    (t.announced config m).run.distance ≤ n := by
  simp only [announced]
  split
  · exact distance_removeSource h
  · exact distance_forward (by simp only [leave, mapJob]; omega)

theorem distance_restored (h : t.run.progress.snapshots.length + 18 ≤ n) :
    (t.restored config m).run.distance ≤ n := by
  refine distance_enter (by simp only [leave, mapJob, mapProgress]; omega) ?_
  intro u hu
  simp only [await, Run.distance, Stage.index, hu, leave, mapJob, mapProgress]
  omega

theorem distance_measured (h : t.run.progress.snapshots.length + 24 ≤ n) :
    (t.measured m x d a).run.distance ≤ n := by
  simp only [measured]
  split
  · exact distance_fail (by omega)
  split
  · exact distance_removeSource h
  · exact distance_restore (by simp only [leave, mapJob]; omega)

theorem distance_transferred (h : t.run.progress.snapshots.length + 27 ≤ n) :
    (t.transferred m x d).run.distance ≤ n := by
  simp only [transferred]
  generalize hu : (if isElsewhere d x then
    t.mapProgress fun p => { p with snapshots := p.snapshots ++ [d] } else t) = u
  have hlength : u.run.progress.snapshots.length ≤ t.run.progress.snapshots.length + 1 := by
    subst hu
    split
    · simp [mapProgress]
    · omega
  refine distance_enter (by simp only [leave, mapJob]; omega) ?_
  intro v hv
  simp only [await, Run.distance, Stage.index, hv, leave, mapJob]
  omega

theorem distance_captured (h : t.run.progress.snapshots.length + 29 ≤ n) :
    (t.captured m (some a) (some b)).run.distance ≤ n := by
  refine distance_proceed (by omega) ?_
  intro x
  refine distance_proceed (by simp [mapProgress]; omega) ?_
  intro _
  refine distance_enter (by simp [mapJob, mapProgress]; omega) ?_
  intro u hu
  simp only [await, Run.distance, Stage.index, hu, mapJob, mapProgress, List.length_append,
    List.length_singleton]
  omega

theorem distance_drained (h : t.run.progress.snapshots.length + 32 ≤ n) :
    (t.drained config m r).run.distance ≤ n := by
  refine distance_enter (by simp only [leave, mapJob]; omega) ?_
  intro u hu
  simp only [await, Run.distance, Stage.index, hu, leave, mapJob]
  omega

theorem distance_quiesced (h : t.run.progress.snapshots.length + 34 ≤ n) :
    (t.quiesced m).run.distance ≤ n := by
  refine distance_enter (by simp only [leave, mapJob, mapProgress]; omega) ?_
  intro u hu
  simp only [probe, await, Run.distance, Stage.index, hu, leave, mapJob, mapProgress]
  omega

theorem distance_start (hs : t.run.stage = .submitted) : (t.start m).run.distance < t.run.distance := by
  have hd : t.run.distance = t.run.progress.snapshots.length + 40 := by
    simp only [Run.distance, hs, Stage.index]
    omega
  simp only [start, hs, hd]
  refine Nat.lt_succ_of_le (distance_enter (by simp) fun u hu => ?_)
  simp only [await, Run.distance, Stage.index, hu]
  omega

theorem distance_wake (hs : t.run.stage = .pausing d) : t.wake.run.distance < t.run.distance := by
  simp [wake, hs, probe, await, Run.distance, Stage.index]

theorem distance_of_stage (hs : t.run.stage = s) (hd : ∀ f left, s ≠ .discarding f left) (hf : s ≠ .finished) :
    t.run.distance = 2 * s.index + t.run.progress.snapshots.length := by
  simp only [Run.distance, hs]

theorem nearer_capturing {r : Except Error c.Reply} (hs : t.run.stage = .capturing a b)
    (hc : c ∈ (Stage.capturing a b).awaited config p) :
    (t.receive config m c r).run.distance < t.run.distance := by
  have captured {u : Turn} {x y} (hu : u.run = t.run) (hd : (Stage.capturing a b).index = 15) :
      (u.captured m (some x) (some y)).run.distance < t.run.distance := by
    rw [distance_of_stage hs nofun nofun, hd]
    refine Nat.lt_of_le_of_lt (distance_captured (Nat.le_refl _)) ?_
    rw [hu]
    omega
  rcases List.mem_append.1 hc with hc | hc
  · cases a with
    | some a => cases hc
    | none =>
      cases List.mem_singleton.1 hc
      simp only [receive, hs]
      cases b with
      | none => simp [hs, Turn.captured, await, leave, mapJob, Run.distance, Stage.index]
      | some b => exact captured rfl rfl
  · cases b with
    | some b => cases hc
    | none =>
      cases List.mem_singleton.1 hc
      simp only [receive, hs]
      cases a with
      | none => simp [hs, Turn.captured, await, leave, mapJob, Run.distance, Stage.index]
      | some a => exact captured rfl rfl

theorem nearer_probed (hs : t.run.stage = .probing d)
    (hd : d.observe config.drainLimits (t.sinceStart m) r = .ended result) :
    (t.probed config m d r).run.distance < t.run.distance := by
  rw [distance_of_stage hs nofun nofun, probed, hd]
  exact Nat.lt_of_le_of_lt (distance_drained (Nat.le_succ _)) (by simp [Stage.index]; omega)

theorem nearer_removingSource {r : Except Error Unit} (hs : t.run.stage = .removingSource next) :
    (t.proceed m .sourceTeardown r fun _ t =>
      t.await [.call (.detach t.run.plan.source)] (.detachingSource next)).run.distance < t.run.distance := by
  have hi : 4 ≤ (Stage.detachingSource next).index ∧
      (Stage.removingSource next).index = (Stage.detachingSource next).index + 1 := by
    cases next <;> simp [Stage.index]
  rw [distance_of_stage hs nofun nofun]
  refine Nat.lt_of_le_of_lt (distance_proceed (n := t.run.progress.snapshots.length +
    2 * (Stage.detachingSource next).index) (by omega) fun _ => ?_) (by omega)
  simp only [await, Run.distance]
  omega

theorem nearer_detachingSource {r : Except Error Unit} (hs : t.run.stage = .detachingSource next) :
    (t.proceed m .sourceTeardown r fun _ t => t.sourceGone config m next).run.distance < t.run.distance := by
  have hi : 4 ≤ (Stage.detachingSource next).index := by cases next <;> simp [Stage.index]
  rw [distance_of_stage hs nofun nofun]
  refine Nat.lt_of_le_of_lt (distance_proceed (n := t.run.progress.snapshots.length +
    2 * (Stage.detachingSource next).index - 1) (by omega) fun _ => ?_) (by omega)
  exact Nat.le_sub_one_of_lt distance_sourceGone

theorem nearer_discarding {r : Except Error Unit} (hs : t.run.stage = .discarding f left) (hx : x ∈ left) :
    (t.receive config m (.discard x) r).run.distance < t.run.distance := by
  have hlength := List.length_erase_of_mem hx
  have hpos := List.length_pos_of_mem hx
  have hd : t.run.distance = left.length := by simp only [Run.distance, hs]
  simp only [receive, hs, hd]
  cases hleft : left.erase x with
  | nil => exact hpos
  | cons y rest =>
    rw [hleft] at hlength
    simp only [await, Run.distance, hlength]
    omega

theorem distance_receive {r : Except Error c.Reply} (hc : c ∈ t.run.awaited config) :
    (t.receive config m c r).run.distance < t.run.distance ∨
      ∃ d d', t.run.stage = .probing d ∧ (t.receive config m c r).run.stage = .pausing d' := by
  obtain ⟨store, job, ⟨plan, lease, start, stage, pr⟩, effects⟩ := t
  have nearer : ∀ {u : Turn} {k : Nat} (n : Nat) {p : Prop}, k = n + 1 → u.run.distance ≤ n →
      u.run.distance < k ∨ p := by
    intro u k n p hk hu
    exact .inl (by omega)
  cases stage with
  | submitted | pausing | finished => cases hc
  | capturing a b => exact .inl (nearer_capturing rfl hc)
  | discarding f left =>
    obtain ⟨x, hx, rfl⟩ := List.mem_map.1 hc
    exact .inl (nearer_discarding rfl hx)
  | probing d =>
    cases List.mem_singleton.1 hc
    simp only [receive]
    cases hd : d.observe config.drainLimits (m.micros - start) r with
    | ended result => exact .inl (nearer_probed rfl hd)
    | pause d' n => exact .inr ⟨d, d', rfl, by rw [probed, sinceStart, hd]; rfl⟩
  | quiescing =>
    cases List.mem_singleton.1 hc
    refine nearer (pr.snapshots.length + 37) (by simp [Run.distance, Stage.index]; omega) ?_
    exact distance_proceed (by simp) fun _ => distance_quiesced (by simp)
  | transferring s =>
    cases List.mem_singleton.1 hc
    refine nearer (pr.snapshots.length + 27) (by simp [Run.distance, Stage.index]; omega) ?_
    exact distance_proceed (by simp) fun _ => distance_transferred (by simp)
  | verifying s d =>
    cases List.mem_singleton.1 hc
    refine nearer (pr.snapshots.length + 25) (by simp [Run.distance, Stage.index]; omega) ?_
    exact distance_proceed (by simp) fun _ => distance_measured (by simp)
  | removingSource next =>
    cases List.mem_singleton.1 hc
    exact .inl (nearer_removingSource rfl)
  | detachingSource next =>
    cases List.mem_singleton.1 hc
    exact .inl (nearer_detachingSource rfl)
  | restoring d =>
    cases List.mem_singleton.1 hc
    refine nearer (pr.snapshots.length + 19) (by simp [Run.distance, Stage.index]; omega) ?_
    exact distance_proceed (by simp) fun _ => distance_restored (by simp)
  | reattaching =>
    cases List.mem_singleton.1 hc
    refine nearer (pr.snapshots.length + 17) (by simp [Run.distance, Stage.index]; omega) ?_
    exact distance_proceed (by simp) fun _ => by simp [reattached, await, Run.distance, Stage.index]; omega
  | announcing =>
    cases List.mem_singleton.1 hc
    refine nearer (pr.snapshots.length + 15) (by simp [Run.distance, Stage.index]; omega) ?_
    exact distance_proceed (by simp) fun _ => distance_announced (by simp)
  | removingTarget e =>
    cases List.mem_singleton.1 hc
    exact .inl (by simp [receive, await, Run.distance, Stage.index])
  | detachingTarget e =>
    cases List.mem_singleton.1 hc
    refine nearer (pr.snapshots.length + 3) (by simp [Run.distance, Stage.index]; omega) ?_
    exact distance_resumeSource (by simp)
  | resuming e =>
    cases List.mem_singleton.1 hc
    refine nearer (pr.snapshots.length + 1) (by simp [Run.distance, Stage.index]; omega) ?_
    exact distance_discard (by simp)

theorem exists_nearer {r : Except Error c.Reply} (hc : c ∈ t.run.awaited config) :
    ∃ m, (t.receive config m c r).run.distance < t.run.distance := by
  by_cases hs : ∃ d, t.run.stage = .probing d
  · obtain ⟨store, job, ⟨plan, lease, start, stage, pr⟩, effects⟩ := t
    obtain ⟨d, rfl⟩ := hs
    cases List.mem_singleton.1 hc
    let late := d.start + config.drainLimits.ceiling * 1000
    have hlate : config.drainLimits.ceiling * 1000 ≤ d.elapsed late :=
      Nat.le_of_eq (Nat.add_sub_cancel_left ..).symm
    obtain ⟨result, hd⟩ := Drain.observe_late hlate r
    have hm : start + late - start = late := Nat.add_sub_cancel_left ..
    exact ⟨⟨start + late, default⟩, nearer_probed rfl (hm ▸ hd)⟩
  · refine ⟨default, (distance_receive hc).resolve_right ?_⟩
    rintro ⟨d, -, hd, -⟩
    exact hs ⟨d, hd⟩

end Turn

namespace Course

variable {config : Config} {p : Plan} {l : List Occurrence}

theorem awaits (h : Course config p P pr j l) (hP : P = .waiting s) (hs : s ≠ .finished) :
    s = .submitted ∨ (∃ d, s = .pausing d) ∨ ∃ c, c ∈ s.awaited config p := by
  induction h with
  | accepted =>
    cases hP
    exact .inl rfl
  | cancel _ _ ih => exact ih hP
  | entered _ h =>
    cases hP
    refine .inr (.inr ?_)
    cases h.stage_entered rfl with
    | _ => exact ⟨_, List.mem_cons_self⟩
  | probed d' =>
    cases hP
    exact .inr (.inl ⟨d', rfl⟩)
  | @halfway a b _ _ _ _ hab =>
    cases hP
    refine .inr (.inr ?_)
    rcases hab with rfl | rfl
    · exact ⟨_, List.mem_cons_self⟩
    · exact ⟨_, List.mem_append_right _ (List.mem_singleton.2 rfl)⟩
  | discarding _ hn =>
    cases hP
    obtain ⟨x, hx⟩ := List.exists_mem_of_ne_nil _ hn
    exact .inr (.inr ⟨_, List.mem_map_of_mem hx⟩)
  | discarded _ _ _ hn =>
    cases hP
    obtain ⟨x, hx⟩ := List.exists_mem_of_ne_nil _ hn
    exact .inr (.inr ⟨_, List.mem_map_of_mem hx⟩)
  | woken | tornDown | reattached | removing | targetRemoved | resuming =>
    cases hP
    exact .inr (.inr ⟨_, List.mem_singleton.2 rfl⟩)
  | closed =>
    cases hP
    exact absurd rfl hs
  | @detached next =>
    cases next with
    | _ => cases hP
  | measured | announced | forwarded =>
    split at hP
    · cases hP
    · cases hP
  | _ => cases hP

theorem exists_reply (h : Course config p (.waiting s) pr j l) (hl : Whole l) (hc : c ∈ s.awaited config p) :
    ∃ a : c.Reply, Whole (l ++ [.answered c (.ok a)]) := by
  cases s with
  | submitted | pausing | finished => cases hc
  | capturing a b =>
    rcases List.mem_append.1 hc with hc | hc
    · cases a with
      | some a => cases hc
      | none =>
        cases List.mem_singleton.1 hc
        exact ⟨⟨"", p.source.addr, "", "", 0, ⟨0, 0⟩⟩, whole_of_measured (by simp [h.sized.2, measured?])⟩
    · cases b with
      | some b => cases hc
      | none =>
        cases List.mem_singleton.1 hc
        exact ⟨(), hl.append rfl rfl⟩
  | probing d =>
    cases List.mem_singleton.1 hc
    exact ⟨(0 : UInt64), hl.append rfl rfl⟩
  | transferring x =>
    cases List.mem_singleton.1 hc
    exact ⟨x, hl.append rfl rfl⟩
  | verifying x d =>
    cases List.mem_singleton.1 hc
    exact ⟨x.size, by simp [Whole, h.sized.1, h.sized.2, exported?, measured?]⟩
  | discarding f left =>
    obtain ⟨x, -, rfl⟩ := List.mem_map.1 hc
    exact ⟨(), hl.append rfl rfl⟩
  | _ =>
    cases List.mem_singleton.1 hc
    exact ⟨(), hl.append rfl rfl⟩

end Course

end LiveMigration
