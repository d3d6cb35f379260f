import LiveMigration.Proofs.Forwarding.History
import LiveMigration.Proofs.Migration.Journal

namespace LiveMigration

def Effect.action? (l : Lease) : Effect → Option Store.Action
  | .write b _ => some (.write (some l.job) b)
  | .publish _ => some (.drop l)
  | .call _ | .pause _ => none

namespace Store

/-- Effects lead from a store to a store, and what they say came of each write is what comes of it. -/
inductive Performs (l : Lease) : Store → List Effect → Store → Prop
  | nil : Performs l s [] s
  | idle : e.action? l = none → Performs l s es u → Performs l s (e :: es) u
  | write : Performs l (s.act (.write (some l.job) b)) es u →
      Performs l s (.write b ((s.applyAs (some l.job) b).map Prod.snd) :: es) u
  | publish : Performs l (s.act (.drop l)) es u → Performs l s (.publish j :: es) u

namespace Performs

variable {l : Lease} {s u : Store} {es : List Effect}

theorem append (h : Performs l s es u) (k : Performs l u es' v) : Performs l s (es ++ es') v := by
  induction h with
  | nil => exact k
  | idle he _ ih => exact .idle he (ih k)
  | write _ ih => exact .write (ih k)
  | publish _ ih => exact .publish (ih k)

theorem of_idle (h : ∀ e ∈ es, e.action? l = none) : Performs l s es s := by
  induction es with
  | nil => exact .nil
  | cons e es ih =>
    rw [List.forall_mem_cons] at h
    exact .idle h.1 (ih h.2)

theorem foldl (h : Performs l s es u) : u = (es.filterMap (Effect.action? l)).foldl act s := by
  induction h with
  | nil => rfl
  | idle he _ ih => rw [List.filterMap_cons_none he, ← ih]
  | write _ ih => exact ih
  | publish _ ih => exact ih

end Performs

end Store

def Plan.opens (p : Plan) : Call → Bool
  | .quiesce _ | .capture .. | .prepare .. | .transfer .. | .measure _ | .restore .. | .reattach .. => true
  | .teardown e => e ≠ p.target
  | .resume _ | .probe _ | .announce _ | .detach _ | .discard _ => false

structure Job.Kept (i j : Job) : Prop where
  id : j.id = i.id
  source : j.source = i.source
  newIdentity : j.newIdentity = i.newIdentity
  cancelRequested : j.cancelRequested = i.cancelRequested

namespace Job.Kept

variable {i j k : Job}

theorem refl (j : Job) : j.Kept j := ⟨rfl, rfl, rfl, rfl⟩

theorem trans (h : i.Kept j) (h' : j.Kept k) : i.Kept k :=
  ⟨h'.id.trans h.id, h'.source.trans h.source, h'.newIdentity.trans h.newIdentity,
    h'.cancelRequested.trans h.cancelRequested⟩

theorem enters (now : UInt64) (qs : List Phase) (j : Job) :
    j.Kept (qs.foldl (fun j q => j.enter q now) j) := by
  induction qs generalizing j with
  | nil => exact refl j
  | cons q qs ih => exact (⟨rfl, rfl, rfl, rfl⟩ : j.Kept (j.enter q now)).trans (ih _)

theorem conclude (j : Job) : j.Kept (j.conclude f gone now wall) := by
  cases f with
  | none => exact ⟨rfl, rfl, rfl, rfl⟩
  | some e =>
    simp only [Job.conclude]
    split
    · exact ⟨rfl, rfl, rfl, rfl⟩
    · exact ⟨rfl, rfl, rfl, rfl⟩

end Job.Kept

namespace Turn

structure Yields (t t' : Turn) : Prop where
  plan : t'.run.plan = t.run.plan
  lease : t'.run.lease = t.run.lease
  job : t.job.Kept t'.job
  effects : ∃ es, t'.effects = t.effects ++ es ∧ t.store.Performs t.run.lease es t'.store ∧
    (t.job.cancelRequested = true → ∀ c, .call c ∈ es → t.run.plan.opens c = false)

variable {config : Config} {m : Moment} {t u v : Turn}

namespace Yields

theorem refl (t : Turn) : t.Yields t :=
  ⟨rfl, rfl, .refl _, [], (List.append_nil _).symm, .nil, fun _ _ h => nomatch h⟩

theorem trans (h : t.Yields u) (h' : u.Yields v) : t.Yields v := by
  obtain ⟨es, he, hs, ho⟩ := h.effects
  obtain ⟨es', he', hs', ho'⟩ := h'.effects
  refine ⟨h'.plan.trans h.plan, h'.lease.trans h.lease, h.job.trans h'.job, es ++ es', ?_, ?_, ?_⟩
  · rw [he', he, List.append_assoc]
  · exact hs.append (h.lease ▸ hs')
  · intro hc c hm
    rcases List.mem_append.1 hm with hm | hm
    · exact ho hc c hm
    · exact h.plan ▸ ho' (h.job.cancelRequested.trans hc) c hm

theorem of_start {s : Store} {j : Job} {r : Run} (h : Yields ⟨s, j, r, []⟩ t) :
    s.Performs r.lease t.effects t.store ∧
      (j.cancelRequested = true → ∀ c, .call c ∈ t.effects → r.plan.opens c = false) := by
  obtain ⟨es, he, hs, ho⟩ := h.effects
  rw [List.nil_append] at he
  subst he
  exact ⟨hs, ho⟩

end Yields

theorem yields_mapJob {f : Job → Job} (h : t.job.Kept (f t.job)) : t.Yields (t.mapJob f) :=
  ⟨rfl, rfl, h, [], (List.append_nil _).symm, .nil, fun _ _ h => nomatch h⟩

theorem yields_mapProgress {f : Progress → Progress} : t.Yields (t.mapProgress f) :=
  ⟨rfl, rfl, .refl _, [], (List.append_nil _).symm, .nil, fun _ _ h => nomatch h⟩

theorem yields_leave : t.Yields (t.leave m q) := yields_mapJob ⟨rfl, rfl, rfl, rfl⟩

theorem yields_await {es : List Effect} (he : ∀ e ∈ es, e.action? t.run.lease = none)
    (ho : t.job.cancelRequested = true → ∀ c, .call c ∈ es → t.run.plan.opens c = false) :
    t.Yields (t.await es s) :=
  ⟨rfl, rfl, .refl _, es, rfl, .of_idle he, ho⟩

theorem yields_call (ho : t.job.cancelRequested = true → t.run.plan.opens c = false) :
    t.Yields (t.await [.call c] s) := by
  refine yields_await ?_ fun hc c' hm => ?_
  · rintro e he
    cases List.mem_singleton.1 he
    rfl
  · cases List.mem_singleton.1 hm
    exact ho hc

theorem yields_finish : t.Yields (t.finish m f) :=
  ⟨rfl, rfl, .conclude _, [.publish _], rfl, .publish .nil, fun _ c hc => by simp at hc⟩

theorem yields_discard : t.Yields (t.discard m f) := by
  simp only [discard]
  split
  · exact yields_finish
  · refine yields_await ?_ fun _ c hc => ?_
    · intro e he
      obtain ⟨s, _, rfl⟩ := List.mem_map.1 he
      rfl
    · obtain ⟨s, _, hs⟩ := List.mem_map.1 hc
      cases hs
      rfl

theorem yields_resumeSource : t.Yields (t.resumeSource m e) := by
  simp only [resumeSource]
  split
  · exact yields_call fun _ => rfl
  · exact yields_discard

theorem yields_fail : t.Yields (t.fail m e) := by
  simp only [fail]
  split
  · exact yields_discard
  split
  · exact yields_call fun _ => by simp [Plan.opens]
  · exact yields_resumeSource

theorem yields_proceed {r : Except Error α} {k : α → Turn → Turn} (hk : ∀ a, t.Yields (k a t)) :
    t.Yields (t.proceed m q r k) := by
  cases r with
  | ok a => exact hk a
  | error e => exact yields_fail

theorem yields_enter {k : Turn → Turn}
    (hk : ∀ u : Turn, u.job.cancelRequested = false → u.Yields (k u)) :
    t.Yields (t.enter m qs k) := by
  simp only [enter]
  split
  · exact yields_fail
  · rename_i hc
    have hj := Job.Kept.enters (t.now m) qs t.job
    exact (yields_mapJob hj).trans (hk _ (hj.cancelRequested.trans (eq_false_of_ne_true hc)))

theorem yields_write {k : Turn → Turn} (hk : ∀ u : Turn, u.Yields (k u)) :
    t.Yields (t.write m q b k) := by
  have hw : t.Yields { t with
      store := t.store.act (.write (some t.run.lease.job) b)
      effects := t.effects ++ [.write b ((t.store.applyAs (some t.run.lease.job) b).map Prod.snd)] } :=
    ⟨rfl, rfl, .refl _, _, rfl, .write .nil, fun _ c hc => by simp at hc⟩
  simp only [write]
  simp only [Store.act] at hw
  cases h : t.store.applyAs (some t.run.lease.job) b with
  | error e =>
    rw [h] at hw
    exact hw.trans yields_fail
  | ok r =>
    rw [h] at hw
    exact hw.trans (hk _)

theorem yields_retire : t.Yields (t.retire m) := by
  simp only [retire]
  split
  · exact yields_discard
  · exact yields_write fun _ => yields_discard

theorem yields_removeSource : t.Yields (t.removeSource m next) :=
  yields_enter fun _ hc => yields_mapProgress.trans (yields_call fun h => nomatch hc.symm.trans h)

theorem yields_forward : t.Yields (t.forward config m) := by
  refine yields_enter fun _ _ => yields_write fun u => ?_
  dsimp only
  split
  · exact (yields_mapProgress.trans yields_leave).trans yields_removeSource
  · exact (yields_mapProgress.trans yields_leave).trans yields_retire

theorem yields_announced : t.Yields (t.announced config m) := by
  simp only [announced]
  split
  · exact yields_leave.trans yields_removeSource
  · exact yields_leave.trans yields_forward

theorem yields_restored : t.Yields (t.restored config m) :=
  (yields_mapProgress.trans yields_leave).trans
    (yields_enter fun _ hc => yields_call fun h => nomatch hc.symm.trans h)

theorem yields_restore : t.Yields (t.restore m d) :=
  yields_enter fun _ hc => yields_call fun h => nomatch hc.symm.trans h

theorem yields_sourceGone : t.Yields (t.sourceGone config m next) := by
  cases next with
  | restore d => exact yields_leave.trans yields_restore
  | forward => exact yields_leave.trans yields_forward
  | retire => exact yields_leave.trans yields_retire

theorem yields_measured : t.Yields (t.measured m x d n) := by
  simp only [measured]
  split
  · exact yields_fail
  split
  · exact yields_leave.trans yields_removeSource
  · exact yields_leave.trans yields_restore

theorem yields_transferred : t.Yields (t.transferred m x d) := by
  have hs : t.Yields (if isElsewhere d x then
      t.mapProgress fun p => { p with snapshots := p.snapshots ++ [d] } else t) := by
    split
    · exact yields_mapProgress
    · exact .refl t
  exact (hs.trans yields_leave).trans
    (yields_enter fun _ hc => yields_call fun h => nomatch hc.symm.trans h)

theorem yields_captured : t.Yields (t.captured m a b) := by
  simp only [captured]
  split
  · refine yields_proceed fun s => yields_mapProgress.trans (yields_proceed fun _ => ?_)
    refine (yields_mapJob ⟨rfl, rfl, rfl, rfl⟩).trans (yields_enter fun _ hc => ?_)
    exact yields_call fun h => nomatch hc.symm.trans h
  · exact yields_await (fun _ h => nomatch h) fun _ _ h => nomatch h

theorem yields_drained : t.Yields (t.drained config m r) := by
  refine ((yields_mapJob ⟨rfl, rfl, rfl, rfl⟩).trans yields_leave).trans (yields_enter fun u hc => ?_)
  refine yields_await ?_ fun h => nomatch hc.symm.trans h
  simp only [List.forall_mem_cons]
  exact ⟨rfl, rfl, List.forall_mem_nil _⟩

theorem yields_probe : t.Yields (t.probe d) := yields_call fun _ => rfl

theorem yields_probed : t.Yields (t.probed config m d r) := by
  simp only [probed]
  split
  · exact yields_drained
  · refine yields_await ?_ fun _ c hc => by simp at hc
    simp only [List.forall_mem_cons]
    exact ⟨rfl, List.forall_mem_nil _⟩

theorem yields_quiesced : t.Yields (t.quiesced m) :=
  (yields_mapProgress.trans yields_leave).trans (yields_enter fun _ _ => yields_probe)

theorem yields_start : t.Yields (t.start m) := by
  simp only [start]
  split
  · have hs : t.Yields { t with run := { t.run with start := m.micros } } :=
      ⟨rfl, rfl, .refl _, [], (List.append_nil _).symm, .nil, fun _ _ h => nomatch h⟩
    exact hs.trans (yields_enter fun _ hc => yields_call fun h => nomatch hc.symm.trans h)
  · exact .refl t

theorem yields_wake : t.Yields t.wake := by
  simp only [wake]
  split
  · exact yields_probe
  · exact .refl t

theorem yields_receive {r : Except Error c.Reply} : t.Yields (t.receive config m c r) := by
  simp only [receive]
  split
  · exact yields_proceed fun _ => yields_quiesced
  · exact yields_probed
  · exact yields_leave.trans yields_captured
  · exact yields_leave.trans yields_captured
  · exact yields_proceed fun _ => yields_transferred
  · exact yields_proceed fun _ => yields_measured
  · exact yields_proceed fun _ => yields_call fun _ => rfl
  · exact yields_proceed fun _ => yields_sourceGone
  · exact yields_proceed fun _ => yields_restored
  · exact yields_proceed fun _ => yields_call fun _ => rfl
  · exact yields_proceed fun _ => yields_announced
  · exact yields_call fun _ => rfl
  · exact yields_resumeSource
  · exact yields_discard
  · split
    · exact yields_finish
    · exact yields_await (fun _ h => nomatch h) fun _ _ h => nomatch h
  · exact .refl t

theorem yields_answer {o : Outcome c.Reply} : t.Yields (t.answer config m c o) := by
  simp only [answer]
  split
  · split
    · exact yields_receive
    · exact .refl t
  · exact .refl t

end Turn

end LiveMigration
