import LiveMigration.Proofs.Migration.Phases

namespace LiveMigration

def Moment.since (m : Moment) (start : Nat) : UInt64 := UInt64.ofNat (m.micros - start)

namespace Turn

structure Stable (m : Moment) (P : Turn → Prop) : Prop where
  await : ∀ {t es s}, P t → P (t.await es s)
  mapProgress : ∀ {t f}, P t → P (t.mapProgress f)
  opening : ∀ {t} {qs : List Phase}, P t → P (t.mapJob fun j => qs.foldl (fun j q => j.enter q (t.now m)) j)
  leave : ∀ {t q}, P t → P (t.leave m q)
  drain : ∀ {t r}, P t → P (t.mapJob fun j => { j with drain := r })
  snapshotBytes : ∀ {t n}, P t → P (t.mapJob fun j => { j with snapshotBytes := n })
  store : ∀ {t : Turn} {s es}, P t → P { t with store := s, effects := es }
  conclude : ∀ {t : Turn} {s f gone wall}, P t →
    P { t with store := s, job := t.job.conclude f gone (t.now m) wall }

namespace Stable

variable {config : Config} {m : Moment} {t : Turn} {P : Turn → Prop} (hP : Stable m P) (h : P t)

include hP h

theorem finish : P (t.finish m f) := hP.await (hP.conclude h)

theorem discard : P (t.discard m f) := by
  simp only [Turn.discard]
  split
  · exact hP.finish h
  · exact hP.await h

theorem resumeSource : P (t.resumeSource m e) := by
  simp only [Turn.resumeSource]
  split
  · exact hP.await h
  · exact hP.discard h

theorem fail : P (t.fail m e) := by
  simp only [Turn.fail]
  split
  · exact hP.discard h
  split
  · exact hP.await h
  · exact hP.resumeSource h

theorem proceed {r : Except Error α} {k : α → Turn → Turn} (hk : ∀ a, P (k a t)) :
    P (t.proceed m q r k) := by
  cases r with
  | ok a => exact hk a
  | error e => exact hP.fail h

theorem enter {k : Turn → Turn} (hk : ∀ u, P u → P (k u)) : P (t.enter m qs k) := by
  simp only [Turn.enter]
  split
  · exact hP.fail h
  · exact hk _ (hP.opening h)

theorem write {k : Turn → Turn} (hk : ∀ u, P u → P (k u)) : P (t.write m q b k) := by
  simp only [Turn.write]
  have hw : P { t with effects :=
      t.effects ++ [.write b ((t.store.applyAs (some t.run.lease.job) b).map Prod.snd)] } := hP.store h
  exact hP.proceed hw fun r => hk _ (hP.store hw)

theorem retire : P (t.retire m) := by
  simp only [Turn.retire]
  split
  · exact hP.discard h
  · exact hP.write h fun _ hu => hP.discard hu

theorem removeSource : P (t.removeSource m next) :=
  hP.enter h fun _ hu => hP.await (hP.mapProgress hu)

theorem forward : P (t.forward config m) := by
  refine hP.enter h fun _ hu => hP.write hu fun _ hv => ?_
  dsimp only
  split
  · exact hP.removeSource (hP.leave (hP.mapProgress hv))
  · exact hP.retire (hP.leave (hP.mapProgress hv))

theorem announced : P (t.announced config m) := by
  simp only [Turn.announced]
  split
  · exact hP.removeSource (hP.leave h)
  · exact hP.forward (hP.leave h)

theorem restored : P (t.restored config m) :=
  hP.enter (hP.leave (hP.mapProgress h)) fun _ hu => hP.await hu

theorem restore : P (t.restore m d) := hP.enter h fun _ hu => hP.await hu

theorem sourceGone : P (t.sourceGone config m next) := by
  cases next with
  | restore d => exact hP.restore (hP.leave h)
  | forward => exact hP.forward (hP.leave h)
  | retire => exact hP.retire (hP.leave h)

theorem measured : P (t.measured m x d n) := by
  simp only [Turn.measured]
  split
  · exact hP.fail h
  split
  · exact hP.removeSource (hP.leave h)
  · exact hP.restore (hP.leave h)

theorem transferred : P (t.transferred m x d) := by
  have hs : P (if isElsewhere d x then
      t.mapProgress fun p => { p with snapshots := p.snapshots ++ [d] } else t) := by
    split
    · exact hP.mapProgress h
    · exact h
  exact hP.enter (hP.leave hs) fun _ hu => hP.await hu

theorem captured : P (t.captured m a b) := by
  simp only [Turn.captured]
  split
  · refine hP.proceed h fun s => hP.proceed (hP.mapProgress h) fun _ => ?_
    exact hP.enter (hP.snapshotBytes (hP.mapProgress h)) fun _ hu => hP.await hu
  · exact hP.await h

theorem drained : P (t.drained config m r) :=
  hP.enter (hP.leave (hP.drain h)) fun _ hu => hP.await hu

theorem probed : P (t.probed config m d r) := by
  simp only [Turn.probed]
  split
  · exact hP.drained h
  · exact hP.await h

theorem quiesced : P (t.quiesced m) :=
  hP.enter (hP.leave (hP.mapProgress h)) fun _ hu => hP.await hu

theorem begin : P (t.begin m) := hP.enter h fun _ hu => hP.await hu

theorem receive {r : Except Error c.Reply} : P (t.receive config m c r) := by
  simp only [Turn.receive]
  split
  · exact hP.proceed h fun _ => hP.quiesced h
  · exact hP.probed h
  · exact hP.captured (hP.leave h)
  · exact hP.captured (hP.leave h)
  · exact hP.proceed h fun _ => hP.transferred h
  · exact hP.proceed h fun _ => hP.measured h
  · exact hP.proceed h fun _ => hP.await h
  · exact hP.proceed h fun _ => hP.sourceGone h
  · exact hP.proceed h fun _ => hP.restored h
  · exact hP.proceed h fun _ => hP.await h
  · exact hP.proceed h fun _ => hP.announced h
  · exact hP.await h
  · exact hP.resumeSource h
  · exact hP.discard h
  · split
    · exact hP.finish h
    · exact hP.await h
  · exact h

theorem answer {o : Outcome c.Reply} : P (t.answer config m c o) := by
  simp only [Turn.answer]
  split
  · split
    · exact hP.receive h
    · exact h
  · exact h

end Stable

end Turn

namespace PhaseRecord

def Precedes (r r' : PhaseRecord) : Prop :=
  if r.Twins r' then r.started = r'.started else ∃ e, r.ended = some e ∧ e ≤ r'.started

structure Past (now : UInt64) (r : PhaseRecord) : Prop where
  started : r.started ≤ now
  ended : ∀ e, r.ended = some e → r.started ≤ e ∧ e ≤ now

structure Timed (now : UInt64) (rs : List PhaseRecord) : Prop where
  past : ∀ r ∈ rs, r.Past now
  inOrder : rs.Pairwise fun r r' => r.Precedes r' ∨ r'.started = now

variable {r r' s s' : PhaseRecord} {rs rs' : List PhaseRecord} {now now' : UInt64}

theorem Past.mono (h : r.Past now) (hn : now ≤ now') : r.Past now' :=
  ⟨UInt64.le_trans h.started hn, fun e he => ⟨(h.ended e he).1, UInt64.le_trans (h.ended e he).2 hn⟩⟩

theorem Past.grows (h : r.Past now) (hr : r.Grows now r') : r'.Past now := by
  obtain rfl | ⟨-, rfl⟩ := hr
  · exact h
  · refine ⟨h.started, ?_⟩
    rintro e ⟨⟩
    exact ⟨h.started, UInt64.le_refl _⟩

theorem Precedes.grows (h : r.Precedes s) (hr : r.Grows now r') (hs : s.Grows now s') : r'.Precedes s' := by
  simp only [Precedes, hr.twins_iff hs, hr.started, hs.started] at h ⊢
  split
  · rwa [if_pos ‹_›] at h
  · rw [if_neg ‹_›] at h
    obtain ⟨e, he, hle⟩ := h
    rw [hr.eq_of_closed (by rw [isOpen, he]; rfl)]
    exact ⟨e, he, hle⟩

theorem Timed.of_precedes (h : ∀ r ∈ rs, r.Past now) (ho : rs.Pairwise Precedes) : Timed now rs :=
  ⟨h, ho.imp .inl⟩

theorem Timed.grown (h : Timed now rs) (hg : List.Forall₂ (Grows now) rs rs') : Timed now rs' := by
  constructor
  · intro r' hr'
    obtain ⟨r, hr, hg⟩ := exists_of_grown hg hr'
    exact (h.past r hr).grows hg
  · refine pairwise_grown hg (fun r s r' s' ho hr hs => ?_) h.inOrder
    rcases ho with ho | ho
    · exact .inl (ho.grows hr hs)
    · exact .inr (hs.started.trans ho)

theorem Timed.append (h : Timed now rs) (qs : List Phase) : Timed now (rs ++ qs.map (⟨·, now, none⟩)) := by
  have hnew : ∀ r ∈ qs.map (⟨·, now, none⟩ : Phase → PhaseRecord), r.started = now ∧ r.ended = none := by
    intro r hr
    obtain ⟨q, -, rfl⟩ := List.mem_map.1 hr
    exact ⟨rfl, rfl⟩
  constructor
  · intro r hr
    rcases List.mem_append.1 hr with hr | hr
    · exact h.past r hr
    · refine ⟨by rw [(hnew r hr).1]; exact UInt64.le_refl _, fun e he => ?_⟩
      cases (hnew r hr).2.symm.trans he
  · rw [List.pairwise_append]
    refine ⟨h.inOrder, ?_, fun r _ r' hr' => .inr (hnew r' hr').1⟩
    exact List.pairwise_map.2 (List.pairwise_of_forall fun _ _ => .inr rfl)

theorem Timed.precedes (h : Timed now rs) (ha : rs.Pairwise Apart) : rs.Pairwise Precedes := by
  refine List.Pairwise.imp_of_mem ?_ (h.inOrder.and ha)
  rintro r r' hr - ⟨ho | hnow, hapart⟩
  · exact ho
  · simp only [Apart, Precedes] at hapart ⊢
    split
    · rwa [if_pos ‹_›] at hapart
    · rw [if_neg ‹_›] at hapart
      cases he : r.ended with
      | none => simp [isOpen, he] at hapart
      | some e => exact ⟨e, rfl, hnow ▸ ((h.past r hr).ended e he).2⟩

end PhaseRecord

namespace Turn

open PhaseRecord

def Timed (start : Nat) (m : Moment) (t : Turn) : Prop :=
  t.run.start = start ∧ PhaseRecord.Timed (m.since start) t.job.records

theorem stable_timed (start : Nat) (m : Moment) : Stable m (Timed start m) where
  await h := h
  mapProgress h := h
  drain h := h
  snapshotBytes h := h
  store h := h
  opening := by
    rintro t qs ⟨rfl, h⟩
    refine ⟨rfl, ?_⟩
    rw [mapJob, Job.records_enters]
    exact h.append qs
  leave := by
    rintro t q ⟨rfl, h⟩
    exact ⟨rfl, h.grown (Job.grows_closeLast ..)⟩
  conclude := by
    rintro t s f gone wall ⟨rfl, h⟩
    refine ⟨rfl, ?_⟩
    rw [Job.records_conclude]
    exact h.grown (Job.grows_closeOpen ..)

end Turn

end LiveMigration
