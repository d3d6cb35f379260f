import LiveMigration.Proofs.Migration.Course

namespace LiveMigration

open Journal

namespace Call

variable {knobs : MigrationKnobs} {c : Call} {o : Outcome α}

theorem result?_eq_ok : c.result? knobs o = some (.ok a) ↔ o = .ok a := by
  cases o with
  | ok b => simp [result?]
  | failed e => simp [result?]
  | expired => cases h : c.expiry? knobs <;> simp [result?, h]

end Call

namespace Turn

/-- A turn in the middle of a course. What came before the turn is `l`. -/
def At (config : Config) (p : Plan) (l : List Occurrence) (P : Point) (t : Turn) : Prop :=
  t.run.plan = p ∧ Course config p P t.run.progress t.job (l ++ t.effects.map .did)

def Rests (config : Config) (p : Plan) (l : List Occurrence) (t : Turn) : Prop :=
  t.At config p l (.waiting t.run.stage)

variable {config : Config} {m : Moment} {p : Plan} {l : List Occurrence} {t : Turn}

theorem at_of_course (hp : t.run.plan = p) (he : t.effects = [])
    (h : Course config p P t.run.progress t.job l) : t.At config p l P := by
  refine ⟨hp, ?_⟩
  rw [he]
  simpa using h

theorem course_snoc (h : Course config p P pr j ((l ++ es.map .did) ++ [.did e])) :
    Course config p P pr j (l ++ (es ++ [e]).map .did) := by
  simpa using h

theorem rests_await (hp : t.run.plan = p)
    (h : Course config p (.waiting s) t.run.progress t.job
      ((l ++ t.effects.map .did) ++ es.map .did)) : (t.await es s).Rests config p l := by
  refine ⟨hp, ?_⟩
  simpa [await] using h

theorem rests_finish (h : t.At config p l (.closing f)) : (t.finish m f).Rests config p l :=
  rests_await h.1 (h.2.closed ..)

theorem rests_discard (h : t.At config p l (.tidying f)) : (t.discard m f).Rests config p l := by
  simp only [discard, progress]
  cases hs : t.run.progress.snapshots with
  | nil => exact rests_finish ⟨h.1, h.2.tidied hs⟩
  | cons s left =>
    have hc := h.2.discarding (by simp [hs])
    rw [hs] at hc
    exact rests_await h.1 (by simpa [calling, Function.comp_def] using hc)

theorem rests_resumeSource (h : t.At config p l (.unwinding e)) :
    (t.resumeSource m e).Rests config p l := by
  simp only [resumeSource]
  split
  · rename_i hq
    exact rests_await h.1 (by rw [h.1]; exact h.2.resuming hq)
  · rename_i hq
    exact rests_discard ⟨h.1, h.2.unresumed (eq_false_of_ne_true hq)⟩

theorem rests_fail (h : t.At config p l (.failing e)) : (t.fail m e).Rests config p l := by
  simp only [fail]
  split
  · rename_i hf
    exact rests_discard ⟨h.1, h.2.moved hf⟩
  split
  · rename_i hf hr
    exact rests_await h.1 (by rw [h.1]; exact h.2.removing (eq_false_of_ne_true hf) hr)
  · rename_i hf hr
    exact rests_resumeSource ⟨h.1, h.2.unrestored (eq_false_of_ne_true hf) (eq_false_of_ne_true hr)⟩

theorem rests_proceed {k : c.Reply → Turn → Turn} (he : t.effects = []) (h : t.Rests config p l)
    (hq : t.run.stage.phase? = some q) (hc : c ∈ t.run.stage.awaited config p)
    (hr : c.result? config.migration o = some r)
    (hk : ∀ a, (k a t).Rests config p (l ++ [.answered c (.ok a)])) :
    (t.proceed m q r k).Rests config p (l ++ [.answered c o]) := by
  have hl : Course config p (.waiting t.run.stage) t.run.progress t.job l := by
    simpa [Rests, At, he] using h.2
  cases r with
  | ok a =>
    obtain rfl := Call.result?_eq_ok.1 hr
    exact hk a
  | error e => exact rests_fail (at_of_course h.1 he (hl.refused hq hc hr))

theorem rests_enter (s : Stage) {k : Turn → Turn} (h : t.At config p l (.entering s))
    (hk : k (t.mapJob fun j => s.phases.foldl (fun j q => j.enter q (t.now m)) j) =
      ((t.mapProgress (·.entering s)).mapJob fun j =>
        s.phases.foldl (fun j q => j.enter q (t.now m)) j).await
          ((s.awaited config t.run.plan).map .call) s) :
    (t.enter m s.phases k).Rests config p l := by
  simp only [enter]
  split
  · rename_i hc
    exact rests_fail ⟨h.1, h.2.cancelled hc⟩
  · rename_i hc
    rw [hk]
    refine rests_await h.1 ?_
    have := h.2.entered (t.now m) (eq_false_of_ne_true hc)
    simpa [calling, mapJob, mapProgress, h.1, Function.comp_def] using this

theorem rests_write {k : Turn → Turn}
    (he : ∀ e, Turn.At config p l (.failing (e.within q))
      { t with effects := t.effects ++ [.write b (.error e)] })
    (hk : ∀ store c,
      (k { t with store, effects := t.effects ++ [.write b (.ok c)] }).Rests config p l) :
    (t.write m q b k).Rests config p l := by
  simp only [write]
  cases t.store.applyAs (some t.run.lease.job) b with
  | error e => exact rests_fail (he e)
  | ok r => exact hk r.1 r.2

theorem rests_retire (h : t.At config p l .retiring) : (t.retire m).Rests config p l := by
  simp only [retire, h.1]
  cases hm : p.mode with
  | sameIdentity => exact rests_discard ⟨h.1, h.2.kept hm⟩
  | memberRebind =>
    refine rests_write (fun e => ⟨h.1, ?_⟩) fun store c => rests_discard ⟨h.1, ?_⟩
    · exact course_snoc (h.2.retireRefused e hm)
    · exact course_snoc (h.2.retired c hm)

theorem rests_removeSource (h : t.At config p l (.entering (.removingSource next))) :
    (t.removeSource m next).Rests config p l :=
  rests_enter (.removingSource next) h rfl

theorem rests_forward (h : t.At config p l .forwarding) : (t.forward config m).Rests config p l := by
  simp only [forward, enter]
  split
  · rename_i hc
    exact rests_fail ⟨h.1, h.2.forwardCancelled hc⟩
  · rename_i hc
    obtain ⟨rfl, h⟩ := h
    have hc := eq_false_of_ne_true hc
    refine rests_write (fun e => ⟨rfl, ?_⟩) fun store c => ?_
    · exact course_snoc (h.forwardRefused e (t.now m) hc)
    · have hf := h.forwarded c (t.now m) hc
      split
      · rename_i ha
        rw [if_pos (c := t.run.plan.policy = .afterForwarding) ha] at hf
        exact rests_removeSource ⟨rfl, course_snoc hf⟩
      · rename_i ha
        rw [if_neg (c := t.run.plan.policy = .afterForwarding) ha] at hf
        exact rests_retire ⟨rfl, course_snoc hf⟩

theorem rests_announced (hp : t.run.plan = p) (he : t.effects = [])
    (h : Course config p
      (if p.policy = .beforeForwarding then .entering (.removingSource .forward) else .forwarding)
      t.run.progress (t.job.leave .reattachingNetwork (t.now m)) l) :
    (t.announced config m).Rests config p l := by
  subst hp
  simp only [announced]
  split
  · rename_i hb
    rw [if_pos (c := t.run.plan.policy = .beforeForwarding) hb] at h
    exact rests_removeSource (at_of_course rfl he h)
  · rename_i hb
    rw [if_neg (c := t.run.plan.policy = .beforeForwarding) hb] at h
    exact rests_forward (at_of_course rfl he h)

theorem rests_restore (h : t.At config p l (.entering (.restoring d))) :
    (t.restore m d).Rests config p l :=
  rests_enter (.restoring d) h rfl

theorem rests_sourceGone (hp : t.run.plan = p) (he : t.effects = [])
    (h : Course config p next.point t.run.progress (t.job.leave .sourceTeardown (t.now m)) l) :
    (t.sourceGone config m next).Rests config p l := by
  cases next with
  | restore d => exact rests_restore (at_of_course hp he h)
  | forward => exact rests_forward (at_of_course hp he h)
  | retire => exact rests_retire (at_of_course hp he h)

theorem rests_measured (hp : t.run.plan = p) (he : t.effects = [])
    (h : Course config p (.waiting (.verifying s d)) t.run.progress t.job l) :
    (t.measured m s d n).Rests config p (l ++ [.answered (.measure d) (.ok n)]) := by
  subst hp
  simp only [measured]
  split
  · rename_i hn
    exact rests_fail (at_of_course rfl he (h.mismatched hn))
  · rename_i hn
    rw [Decidable.of_not_not hn]
    have hm := h.measured (t.now m)
    split
    · rename_i hb
      rw [if_pos (c := t.run.plan.policy = .beforeRestore) hb] at hm
      exact rests_removeSource (at_of_course rfl he hm)
    · rename_i hb
      rw [if_neg (c := t.run.plan.policy = .beforeRestore) hb] at hm
      exact rests_restore (at_of_course rfl he hm)

theorem rests_transferred (hp : t.run.plan = p) (he : t.effects = [])
    (h : Course config p (.waiting (.transferring s)) t.run.progress t.job l) :
    (t.transferred m s d).Rests config p (l ++ [.answered (.transfer s p.target.host) (.ok d)]) := by
  have ht := h.transferred d (t.now m)
  simp only [transferred]
  split
  · rename_i hd
    rw [if_pos hd] at ht
    refine rests_enter (.verifying s d) ?_ rfl
    exact at_of_course hp he ht
  · rename_i hd
    rw [if_neg hd] at ht
    refine rests_enter (.verifying s d) ?_ rfl
    exact at_of_course hp he ht

theorem rests_captured (hp : t.run.plan = p) (he : t.effects = [])
    (h : Course config p (.gathering a b) t.run.progress t.job l) :
    (t.captured m a b).Rests config p l := by
  cases a with
  | none => exact rests_await hp (by simpa [he] using h.halfway (.inl rfl))
  | some a =>
    cases b with
    | none => exact rests_await hp (by simpa [he] using h.halfway (.inr rfl))
    | some b =>
      cases a with
      | error e => exact rests_fail (at_of_course hp he h.captureFailed)
      | ok s =>
        cases b with
        | error e => exact rests_fail (at_of_course hp he h.prepareFailed)
        | ok _ =>
          simp only [captured, proceed]
          refine rests_enter (.transferring s) ?_ rfl
          exact at_of_course hp he h.gathered

theorem rests_probed (hp : t.run.plan = p) (he : t.effects = [])
    (h : Course config p (.waiting (.probing d)) t.run.progress t.job l) (o) :
    (t.probed config m d r).Rests config p (l ++ [.answered (.probe p.source) o]) := by
  simp only [probed]
  cases d.observe config.drainLimits (t.sinceStart m) r with
  | ended r =>
    refine rests_enter (.capturing none none) ?_ rfl
    exact at_of_course hp he (h.drained r (t.now m) o)
  | pause d' n => exact rests_await hp (by simpa [he] using h.probed d' n o)

theorem rests_quiesced (hp : t.run.plan = p) (he : t.effects = [])
    (h : Course config p (.waiting .quiescing) t.run.progress t.job l) :
    (t.quiesced m).Rests config p (l ++ [.answered (.quiesce p.source) (.ok ())]) := by
  refine rests_enter (.probing (.begin (t.sinceStart m))) ?_ rfl
  exact at_of_course hp he (h.quiesced _ _)

theorem rests_restored (hp : t.run.plan = p) (he : t.effects = [])
    (h : Course config p (.waiting (.restoring d)) t.run.progress t.job l) :
    (t.restored config m).Rests config p (l ++ [.answered (.restore d p.target p.restoreOptions) (.ok ())]) := by
  refine rests_enter .reattaching ?_ rfl
  exact at_of_course hp he (h.restored _)

theorem rests_tornDown (hp : t.run.plan = p) (he : t.effects = [])
    (h : Course config p (.waiting (.removingSource next)) t.run.progress t.job l) :
    (t.await [.call (.detach t.run.plan.source)] (.detachingSource next)).Rests config p
      (l ++ [.answered (.teardown p.source) (.ok ())]) :=
  rests_await hp (by simpa [he, hp] using h.tornDown)

theorem rests_reattached (hp : t.run.plan = p) (he : t.effects = [])
    (h : Course config p (.waiting .reattaching) t.run.progress t.job l) :
    t.reattached.Rests config p (l ++ [.answered (.reattach p.target config.peers) (.ok ())]) :=
  rests_await hp (by simpa [he, hp] using h.reattached)

theorem rests_start (hp : t.run.plan = p) (he : t.effects = [])
    (h : Course config p (.waiting t.run.stage) t.run.progress t.job l) :
    (t.start m).Rests config p l := by
  simp only [start]
  split
  · rename_i hs
    rw [hs] at h
    refine rests_enter .quiescing ?_ rfl
    exact at_of_course hp he h.started
  · exact at_of_course hp he h

theorem rests_wake (hp : t.run.plan = p) (he : t.effects = [])
    (h : Course config p (.waiting t.run.stage) t.run.progress t.job l) : t.wake.Rests config p l := by
  simp only [wake]
  split
  · rename_i d hs
    rw [hs] at h
    exact rests_await hp (by simpa [he, hp] using h.woken d.probeAgain)
  · exact at_of_course hp he h

theorem rests_receive_capturing (hp : t.run.plan = p) (he : t.effects = []) (hs : t.run.stage = .capturing a b)
    (h : Course config p (.waiting (.capturing a b)) t.run.progress t.job l)
    (hc : c ∈ (Stage.capturing a b).awaited config p) (hr : c.result? config.migration o = some r) :
    (t.receive config m c r).Rests config p (l ++ [.answered c o]) := by
  rcases List.mem_append.1 hc with hc | hc
  · cases a with
    | some a => cases hc
    | none =>
      cases List.mem_singleton.1 hc
      simp only [receive, hs]
      exact rests_captured hp he (h.captured _ _ o hr)
  · cases b with
    | some b => cases hc
    | none =>
      cases List.mem_singleton.1 hc
      simp only [receive, hs]
      exact rests_captured hp he (h.prepared _ _ o hr)

theorem rests_receive_discarding (hp : t.run.plan = p) (he : t.effects = []) (hs : t.run.stage = .discarding f left)
    (h : Course config p (.waiting (.discarding f left)) t.run.progress t.job l) (hx : x ∈ left) :
    (t.receive config m (.discard x) r).Rests config p (l ++ [.answered (.discard x) o]) := by
  simp only [receive, hs]
  cases hleft : left.erase x with
  | nil => exact rests_finish (at_of_course hp he (h.discardedLast o hx hleft))
  | cons y rest =>
    have hd := h.discarded o hx (by simp [hleft])
    rw [hleft] at hd
    exact rests_await hp (by simpa [he] using hd)

theorem rests_receive (hp : t.run.plan = p) (he : t.effects = [])
    (h : Course config p (.waiting t.run.stage) t.run.progress t.job l)
    (hc : c ∈ t.run.stage.awaited config p) (hr : c.result? config.migration o = some r) :
    (t.receive config m c r).Rests config p (l ++ [.answered c o]) := by
  have proceed : ∀ {q} {k : c.Reply → Turn → Turn}, t.run.stage.phase? = some q →
      (∀ a, (k a t).Rests config p (l ++ [.answered c (.ok a)])) →
      (t.proceed m q r k).Rests config p (l ++ [.answered c o]) := fun hq hk =>
    rests_proceed he (at_of_course hp he h) hq hc hr hk
  obtain ⟨store, job, ⟨plan, lease, start, stage, pr⟩, effects⟩ := t
  cases hp
  cases he
  cases stage with
  | submitted | pausing | finished => cases hc
  | capturing a b => exact rests_receive_capturing rfl rfl rfl h hc hr
  | discarding f left =>
    obtain ⟨x, hx, rfl⟩ := List.mem_map.1 hc
    exact rests_receive_discarding rfl rfl rfl h hx
  | quiescing =>
    cases List.mem_singleton.1 hc
    exact proceed rfl fun _ => rests_quiesced rfl rfl h
  | probing d =>
    cases List.mem_singleton.1 hc
    exact rests_probed rfl rfl h o
  | transferring s =>
    cases List.mem_singleton.1 hc
    exact proceed rfl fun _ => rests_transferred rfl rfl h
  | verifying s d =>
    cases List.mem_singleton.1 hc
    exact proceed rfl fun _ => rests_measured rfl rfl h
  | removingSource next =>
    cases List.mem_singleton.1 hc
    exact proceed rfl fun _ => rests_tornDown rfl rfl h
  | detachingSource next =>
    cases List.mem_singleton.1 hc
    exact proceed rfl fun _ => rests_sourceGone rfl rfl (h.detached _)
  | restoring d =>
    cases List.mem_singleton.1 hc
    exact proceed rfl fun _ => rests_restored rfl rfl h
  | reattaching =>
    cases List.mem_singleton.1 hc
    exact proceed rfl fun _ => rests_reattached rfl rfl h
  | announcing =>
    cases List.mem_singleton.1 hc
    exact proceed rfl fun _ => rests_announced rfl rfl (h.announced _)
  | removingTarget e =>
    cases List.mem_singleton.1 hc
    exact rests_await rfl (by simpa using h.targetRemoved o)
  | detachingTarget e =>
    cases List.mem_singleton.1 hc
    exact rests_resumeSource (at_of_course rfl rfl (h.targetDetached o))
  | resuming e =>
    cases List.mem_singleton.1 hc
    exact rests_discard (at_of_course rfl rfl (h.resumed o))

theorem answer_of_unexpected
    (h : ¬ (c ∈ t.run.awaited config ∧ ∃ r, c.result? config.migration o = some r)) :
    t.answer config m c o = t := by
  simp only [answer]
  split
  · rename_i hc
    split
    · rename_i r hr
      exact absurd ⟨hc, r, hr⟩ h
    · rfl
  · rfl

theorem rests_answer (hp : t.run.plan = p) (he : t.effects = [])
    (h : Course config p (.waiting t.run.stage) t.run.progress t.job l)
    (hc : c ∈ t.run.awaited config) (hr : c.result? config.migration o = some r) :
    (t.answer config m c o).Rests config p (l ++ [.answered c o]) := by
  subst hp
  simp only [answer, if_pos hc, hr]
  exact rests_receive rfl he h hc hr

end Turn

end LiveMigration
