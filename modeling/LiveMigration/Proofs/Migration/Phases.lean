import LiveMigration.Proofs.Migration.Outcome
import Mathlib.Data.List.Forall2

namespace LiveMigration

open Journal

namespace TeardownPolicy

def phases : TeardownPolicy → List Phase
  | .beforeRestore => [.quiescing, .draining, .targetPreparing, .checkpointing, .transferring, .verifying,
      .sourceTeardown, .restoring, .reattachingNetwork, .forwardingUpdate]
  | .beforeForwarding => [.quiescing, .draining, .targetPreparing, .checkpointing, .transferring,
      .verifying, .restoring, .reattachingNetwork, .sourceTeardown, .forwardingUpdate]
  | .auto | .afterForwarding => [.quiescing, .draining, .targetPreparing, .checkpointing, .transferring,
      .verifying, .restoring, .reattachingNetwork, .forwardingUpdate, .sourceTeardown]

theorem nodup_phases (policy : TeardownPolicy) : policy.phases.Nodup := by
  cases policy <;> decide

def place (policy : TeardownPolicy) (q : Phase) : Nat := policy.phases.idxOf q + 1

end TeardownPolicy

def Stage.opened? (policy : TeardownPolicy) : Stage → Option Nat
  | .submitted => some 0
  | .quiescing => some 1
  | .probing _ | .pausing _ => some 2
  | .capturing .. => some 4
  | .transferring _ => some 5
  | .verifying .. => some 6
  | .removingSource _ | .detachingSource _ => some (policy.place .sourceTeardown)
  | .restoring _ => some (policy.place .restoring)
  | .reattaching | .announcing => some (policy.place .restoring + 1)
  | .discarding none _ => some 10
  | .removingTarget _ | .detachingTarget _ | .resuming _ | .discarding (some _) _ | .finished => none

def Point.opened? (policy : TeardownPolicy) : Point → Option Nat
  | .waiting s => s.opened? policy
  | .entering s => (s.opened? policy).map (· - s.phases.length)
  | .gathering .. => some 4
  | .forwarding => some (policy.place .forwardingUpdate - 1)
  | .retiring | .tidying none | .closing none => some 10
  | .failing _ | .unwinding _ | .tidying (some _) | .closing (some _) => none

/-- The phases that were opened are the first ones, as many as there should be; the two that run side by side
are opened as one. -/
structure TeardownPolicy.Paced (policy : TeardownPolicy) (opened : List Phase) (n? : Option Nat) : Prop where
  inOrder : opened <+: policy.phases
  length : ∀ n, n? = some n → opened.length = n
  length_ne : opened.length ≠ 3

namespace TeardownPolicy.Paced

variable {policy : TeardownPolicy} {opened : List Phase}

theorem nodup (h : policy.Paced opened n?) : opened.Nodup := h.inOrder.sublist.nodup policy.nodup_phases

theorem append (h : policy.Paced opened (some n)) (qs : List Phase)
    (hq : (policy.phases.drop n).take qs.length = qs) (hn : n + qs.length ≠ 3) :
    policy.Paced (opened ++ qs) (some (n + qs.length)) := by
  have hlength : (opened ++ qs).length = n + qs.length := by rw [List.length_append, h.length n rfl]
  refine ⟨?_, ?_, hlength ▸ hn⟩
  · obtain ⟨rest, hrest⟩ := h.inOrder
    rw [← hrest, ← h.length n rfl, List.drop_left] at hq
    rw [← hrest, List.prefix_append_right_inj, ← hq]
    exact List.take_prefix ..
  · rintro _ ⟨⟩
    exact hlength

theorem together (h : policy.Paced opened n?) : .targetPreparing ∈ opened ↔ .checkpointing ∈ opened := by
  have key : ∀ policy : TeardownPolicy, ∀ n ≤ 10, n ≠ 3 →
      (Phase.targetPreparing ∈ policy.phases.take n ↔ Phase.checkpointing ∈ policy.phases.take n) := by
    intro policy
    cases policy <;> decide
  have hlength : policy.phases.length = 10 := by cases policy <;> rfl
  have hle : opened.length ≤ 10 := hlength ▸ h.inOrder.length_le
  rw [List.prefix_iff_eq_take.1 h.inOrder]
  exact key policy _ hle h.length_ne

theorem eq_phases (h : policy.Paced opened (some 10)) : opened = policy.phases := by
  refine h.inOrder.eq_of_length ((h.length 10 rfl).trans ?_)
  cases policy <;> rfl

theorem forget (h : policy.Paced opened n?) : policy.Paced opened none := ⟨h.inOrder, nofun, h.length_ne⟩

theorem forwarding (h : policy.Paced opened (some (policy.place .forwardingUpdate - 1))) :
    policy.Paced (opened ++ [.forwardingUpdate]) (some (policy.place .forwardingUpdate)) := by
  cases policy with
  | _ => exact h.append [.forwardingUpdate] rfl (by decide)

end TeardownPolicy.Paced

theorem Stage.phases_follow {s : Stage} (hs : s.Entered) (policy : TeardownPolicy) :
    ∃ n, (s.opened? policy).map (· - s.phases.length) = some n ∧
      s.opened? policy = some (n + s.phases.length) ∧
      (policy.phases.drop n).take s.phases.length = s.phases ∧ n + s.phases.length ≠ 3 := by
  cases hs with
  | _ =>
    cases policy with
    | _ => exact ⟨_, rfl, rfl, rfl, Nat.ne_of_beq_eq_false rfl⟩

namespace Point

variable {policy : TeardownPolicy}

theorem opened?_measured (policy : TeardownPolicy) (d : Snapshot) :
    (entering (if policy = .beforeRestore then .removingSource (.restore d) else .restoring d)).opened? policy =
      some 6 := by
  cases policy <;> rfl

theorem opened?_announced (h : policy ≠ .auto) :
    (if policy = .beforeForwarding then entering (.removingSource .forward) else forwarding).opened? policy =
      some (policy.place .restoring + 1) := by
  cases policy with
  | auto => exact absurd rfl h
  | _ => rfl

theorem opened?_forwarded (h : policy ≠ .auto) :
    (if policy = .afterForwarding then entering (.removingSource .retire) else retiring).opened? policy =
      some (policy.place .forwardingUpdate) := by
  cases policy with
  | auto => exact absurd rfl h
  | _ => rfl

end Point

theorem Sequel.Known.opened? {config : Config} {p : Plan} {next : Sequel} (h : next.Known config p l) :
    next.point.opened? p.policy = some (p.policy.place .sourceTeardown) := by
  cases next with
  | _ =>
    rw [h.1]
    rfl

namespace Job

theorem teardownPolicy_enters (qs : List Phase) (j : Job) :
    (qs.foldl (fun j q => j.enter q now) j).teardownPolicy = j.teardownPolicy := by
  induction qs generalizing j with
  | nil => rfl
  | cons q qs ih => exact ih (j.enter q now)

theorem teardownPolicy_conclude (j : Job) :
    (j.conclude f gone now wall).teardownPolicy = j.teardownPolicy := by
  cases f with
  | none => rfl
  | some e =>
    simp only [conclude]
    split
    · rfl
    · rfl

end Job

namespace Course

variable {config : Config} {p : Plan} {l : List Occurrence}

theorem job_policy (h : Course config p P pr j l) : j.teardownPolicy = p.policy := by
  induction h with
  | accepted ho => exact ho.policy.symm
  | entered _ _ _ ih => exact (Job.teardownPolicy_enters ..).trans ih
  | closed _ _ _ ih => exact (Job.teardownPolicy_conclude _).trans ih
  | _ => assumption

theorem paced (h : Course config p P pr j l) : p.policy.Paced j.opened (P.opened? p.policy) := by
  induction h with
  | accepted ho =>
    obtain ⟨_, _, _, _, rfl⟩ := ho.job_new
    exact ⟨List.nil_prefix, by rintro _ ⟨⟩; rfl, nofun⟩
  | @entered s _ j l _ h _ ih =>
    obtain ⟨n, hn, hs, hq, hne⟩ := Stage.phases_follow (h.stage_entered rfl) p.policy
    rw [Job.opened_enters]
    simp only [Point.opened?] at ih ⊢
    rw [hn] at ih
    rw [hs]
    exact ih.append _ hq hne
  | cancel _ _ ih | started _ ih | halfway _ _ ih | gathered _ ih | kept _ _ ih | retired _ _ _ ih
  | probed _ _ _ _ ih | woken _ _ ih | tornDown _ ih | reattached _ ih | unrestored _ _ _ ih
  | targetRemoved _ _ ih | targetDetached _ _ ih | resumed _ _ ih | removing _ _ _ ih | resuming _ _ ih
  | unresumed _ _ ih | moved _ _ ih => exact ih
  | quiesced _ _ _ ih | drained _ _ _ _ ih | captured _ _ _ _ _ ih | prepared _ _ _ _ _ ih
  | transferred _ _ _ ih =>
    rw [Job.opened_leave]
    exact ih
  | measured _ _ ih =>
    rw [Job.opened_leave, Point.opened?_measured]
    exact ih
  | detached _ h ih =>
    rw [Job.opened_leave, h.known.1.opened?]
    exact ih
  | restored _ _ ih =>
    rw [Job.opened_leave]
    exact ih
  | announced _ h ih =>
    rw [Job.opened_leave, Point.opened?_announced h.policy_ne_auto]
    exact ih
  | forwarded _ _ h _ ih =>
    rw [Job.opened_leave, Job.opened_enter, Point.opened?_forwarded h.policy_ne_auto]
    exact ih.forwarding
  | forwardRefused _ _ _ _ ih =>
    rw [Job.opened_enter]
    exact ih.forwarding.forget
  -- A failure leaves the phases as they are.
  | cancelled _ _ ih | refused _ _ _ _ ih | captureFailed _ ih | prepareFailed _ ih | mismatched _ _ ih
  | forwardCancelled _ _ ih | retireRefused _ _ _ ih => exact ih.forget
  | @discarding f _ _ _ _ _ ih | @discarded f _ _ _ _ _ _ _ _ _ ih | @discardedLast f _ _ _ _ _ _ _ _ _ ih
  | @tidied f _ _ _ _ _ ih =>
    cases f with
    | _ => exact ih
  | closed _ _ _ ih =>
    rw [Job.opened_conclude]
    exact ih.forget

end Course

namespace Job

def underWay (j : Job) : List Phase := (j.records.filter (·.isOpen)).map (·.phase)

theorem closeLast_eq_map (q : Phase) (now : UInt64) {rs : List PhaseRecord} (h : (rs.map (·.phase)).Nodup) :
    closeLast q now rs = rs.map fun r => if isOpenRecord q r then r.close now else r := by
  induction rs with
  | nil => rfl
  | cons r rs ih =>
    rw [List.map_cons, List.nodup_cons] at h
    have hother : r.phase = q → ∀ r' ∈ rs, isOpenRecord q r' = false := by
      rintro rfl r' hr'
      have hne : r'.phase ≠ r.phase := fun he => h.1 (he ▸ List.mem_map_of_mem hr')
      simp [isOpenRecord, hne]
    simp only [closeLast, List.map_cons]
    split
    · next hany =>
      obtain ⟨r', hr', ho⟩ := List.any_eq_true.1 hany
      have hr : isOpenRecord q r = false := by
        cases hr : isOpenRecord q r with
        | false => rfl
        | true =>
          have hq : r.phase = q := by simpa using (Bool.and_eq_true_iff.1 hr).1
          cases (hother hq r' hr').symm.trans ho
      rw [ih h.2, hr]
      rfl
    · next hany =>
      have hrest : rs.map (fun r => if isOpenRecord q r then r.close now else r) = rs := by
        refine (List.map_congr_left fun r' hr' => ?_).trans (List.map_id rs)
        rw [if_neg fun ho => hany (List.any_eq_true.2 ⟨r', hr', ho⟩)]
        rfl
      rw [hrest]
      split
      · rfl
      · rfl

theorem underWay_leave {j : Job} (h : j.opened.Nodup) (hj : j.underWay = qs) :
    (j.leave q now).underWay = qs.filter (· ≠ q) := by
  have hopen : ∀ r : PhaseRecord, (if isOpenRecord q r then r.close now else r).isOpen =
      (decide (r.phase ≠ q) && r.isOpen) := by
    intro r
    by_cases hq : r.phase = q
    · cases ho : r.isOpen with
      | false =>
        rw [if_neg (by simp [isOpenRecord, ho]), ho]
        simp
      | true =>
        rw [if_pos (by simp [isOpenRecord, hq, ho])]
        simp [hq, PhaseRecord.close, PhaseRecord.isOpen]
    · simp [isOpenRecord, hq]
  have hphase : ∀ r : PhaseRecord, (if isOpenRecord q r then r.close now else r).phase = r.phase := by
    intro r
    split
    · rfl
    · rfl
  subst hj
  simp only [underWay, leave, closeLast_eq_map q now h, List.filter_map, List.map_map, Function.comp_def,
    List.filter_filter, hopen, hphase]

theorem underWay_enters (qs : List Phase) (j : Job) :
    (qs.foldl (fun j q => j.enter q now) j).underWay = j.underWay ++ qs := by
  simp [underWay, records_enters, List.filter_map, Function.comp_def, PhaseRecord.isOpen]

end Job

def Stage.underWay? : Stage → Option (List Phase)
  | .submitted | .discarding none _ => some []
  | .quiescing => some [.quiescing]
  | .probing _ | .pausing _ => some [.draining]
  | .capturing a b => some <|
    (if b.isNone then [.targetPreparing] else []) ++ if a.isNone then [.checkpointing] else []
  | .transferring _ => some [.transferring]
  | .verifying .. => some [.verifying]
  | .removingSource _ | .detachingSource _ => some [.sourceTeardown]
  | .restoring _ => some [.restoring]
  | .reattaching | .announcing => some [.reattachingNetwork]
  | .removingTarget _ | .detachingTarget _ | .resuming _ | .discarding (some _) _ | .finished => none

def Point.underWay? : Point → Option (List Phase)
  | .waiting s => s.underWay?
  | .gathering a b => (Stage.capturing a b).underWay?
  | .entering _ | .forwarding | .retiring | .tidying none | .closing none => some []
  | .failing _ | .unwinding _ | .tidying (some _) | .closing (some _) => none

theorem Stage.underWay?_of_entered {s : Stage} (hs : s.Entered) : s.underWay? = some s.phases := by
  cases hs with
  | _ => rfl

namespace Course

variable {config : Config} {p : Plan} {l : List Occurrence}

theorem underWay_eq (h : Course config p P pr j l) (hP : P.underWay? = some qs) : j.underWay = qs := by
  induction h generalizing qs with
  | accepted ho =>
    obtain ⟨_, _, _, _, rfl⟩ := ho.job_new
    cases hP
    rfl
  | @entered s _ j _ _ h _ ih =>
    have hs := Stage.underWay?_of_entered (h.stage_entered rfl)
    cases hs.symm.trans hP
    rw [Job.underWay_enters, ih rfl]
    rfl
  | cancel _ _ ih => exact ih hP
  | quiesced _ _ h ih | drained _ _ _ h ih | transferred _ _ h ih | restored _ h ih =>
    cases hP
    exact Job.underWay_leave h.paced.nodup (ih rfl)
  | @captured b _ _ _ _ _ _ h _ ih =>
    cases hP
    refine (Job.underWay_leave h.paced.nodup (ih rfl)).trans ?_
    cases b with
    | _ => rfl
  | @prepared a _ _ _ _ _ _ h _ ih =>
    cases hP
    refine (Job.underWay_leave h.paced.nodup (ih rfl)).trans ?_
    cases a with
    | _ => rfl
  | measured _ h ih | announced _ h ih =>
    split at hP
    · cases hP
      exact Job.underWay_leave h.paced.nodup (ih rfl)
    · cases hP
      exact Job.underWay_leave h.paced.nodup (ih rfl)
  | @detached next _ _ _ _ h ih =>
    cases next with
    | _ =>
      cases hP
      exact Job.underWay_leave h.paced.nodup (ih rfl)
  -- This phase is opened and closed in one turn.
  | @forwarded _ j _ _ now h hc ih =>
    have hentered : (j.enter .forwardingUpdate now).underWay = [.forwardingUpdate] :=
      (Job.underWay_enters [.forwardingUpdate] j).trans (by rw [ih rfl]; rfl)
    have hleft : ((j.enter .forwardingUpdate now).leave .forwardingUpdate now).underWay = [] :=
      Job.underWay_leave (h.forwardRefused .json now hc).paced.nodup hentered
    split at hP
    · cases hP
      exact hleft
    · cases hP
      exact hleft
  | started _ ih | halfway _ _ ih | gathered _ ih | kept _ _ ih | retired _ _ _ ih
  | probed _ _ _ _ ih | woken _ _ ih | tornDown _ ih | reattached _ ih =>
    cases hP
    exact ih rfl
  | @discarding f _ _ _ _ _ ih | @discarded f _ _ _ _ _ _ _ _ _ ih | @discardedLast f _ _ _ _ _ _ _ _ _ ih
  | @tidied f _ _ _ _ _ ih =>
    cases f with
    | none => exact ih hP
    | some e => cases hP
  | _ => cases hP

end Course

namespace PhaseRecord

def Twins (r r' : PhaseRecord) : Prop := r.phase = .targetPreparing ∧ r'.phase = .checkpointing

instance (r r' : PhaseRecord) : Decidable (r.Twins r') := inferInstanceAs (Decidable (_ ∧ _))

/-- A phase is closed before the next one is opened, unless the two are opened as one. -/
def Apart (r r' : PhaseRecord) : Prop :=
  if r.Twins r' then r.started = r'.started else r.isOpen = false

def Grows (now : UInt64) (r r' : PhaseRecord) : Prop := r' = r ∨ r.isOpen = true ∧ r' = r.close now

variable {r r' s s' : PhaseRecord} {rs rs' : List PhaseRecord} {now : UInt64}

theorem Grows.phase (h : r.Grows now r') : r'.phase = r.phase := by
  obtain rfl | ⟨-, rfl⟩ := h <;> rfl

theorem Grows.started (h : r.Grows now r') : r'.started = r.started := by
  obtain rfl | ⟨-, rfl⟩ := h <;> rfl

theorem Grows.eq_of_closed (h : r.Grows now r') (hr : r.isOpen = false) : r' = r := by
  obtain rfl | ⟨ho, -⟩ := h
  · rfl
  · cases hr.symm.trans ho

theorem Grows.twins_iff (hr : r.Grows now r') (hs : s.Grows now s') : r'.Twins s' ↔ r.Twins s := by
  rw [Twins, Twins, hr.phase, hs.phase]

theorem Apart.grows (h : r.Apart s) (hr : r.Grows now r') (hs : s.Grows now s') : r'.Apart s' := by
  simp only [Apart, hr.twins_iff hs, hr.started, hs.started] at h ⊢
  split
  · rwa [if_pos ‹_›] at h
  · rw [if_neg ‹_›] at h
    rw [hr.eq_of_closed h, h]

theorem exists_of_grown (h : List.Forall₂ (Grows now) rs rs') (hr : r' ∈ rs') :
    ∃ r ∈ rs, r.Grows now r' := by
  induction h with
  | nil => cases hr
  | cons hg _ ih =>
    rcases List.mem_cons.1 hr with rfl | hr
    · exact ⟨_, List.mem_cons_self, hg⟩
    · obtain ⟨r, hm, hg⟩ := ih hr
      exact ⟨r, List.mem_cons_of_mem _ hm, hg⟩

theorem pairwise_grown {R : PhaseRecord → PhaseRecord → Prop} (h : List.Forall₂ (Grows now) rs rs')
    (hR : ∀ r s r' s', R r s → r.Grows now r' → s.Grows now s' → R r' s') (hrs : rs.Pairwise R) :
    rs'.Pairwise R := by
  induction h with
  | nil => exact .nil
  | cons hg hl ih =>
    rw [List.pairwise_cons] at hrs ⊢
    refine ⟨fun s' hs' => ?_, ih hrs.2⟩
    obtain ⟨s, hs, hgs⟩ := exists_of_grown hl hs'
    exact hR _ _ _ _ (hrs.1 s hs) hg hgs

end PhaseRecord

namespace Job

open PhaseRecord

theorem grows_closeLast (q : Phase) (now : UInt64) (rs : List PhaseRecord) :
    List.Forall₂ (Grows now) rs (closeLast q now rs) := by
  have hsame : ∀ rs : List PhaseRecord, List.Forall₂ (Grows now) rs rs := fun rs =>
    List.forall₂_same.2 fun _ _ => .inl rfl
  induction rs with
  | nil => exact .nil
  | cons r rs ih =>
    simp only [closeLast]
    split
    · exact .cons (.inl rfl) ih
    · split
      · next ho => exact .cons (.inr ⟨(Bool.and_eq_true_iff.1 ho).2, rfl⟩) (hsame rs)
      · exact hsame _

theorem grows_closeOpen (j : Job) (now : UInt64) :
    List.Forall₂ (Grows now) j.records (j.closeOpen now).records := by
  rw [closeOpen, List.forall₂_map_right_iff]
  refine List.forall₂_same.2 fun r _ => ?_
  split
  · next ho => exact .inr ⟨ho, rfl⟩
  · exact .inl rfl

theorem records_conclude (j : Job) : (j.conclude f gone now wall).records = (j.closeOpen now).records := by
  cases f with
  | none => rfl
  | some e =>
    simp only [conclude]
    split
    · rfl
    · rfl

theorem closed_of_underWay {j : Job} (h : j.underWay = []) : ∀ r ∈ j.records, r.isOpen = false := by
  intro r hr
  rw [underWay, List.map_eq_nil_iff, List.filter_eq_nil_iff] at h
  exact eq_false_of_ne_true (h r hr)

theorem apart_enters {j : Job} {qs : List Phase} (hj : j.records.Pairwise Apart) (hu : j.underWay = [])
    (hn : (qs.foldl (fun j q => j.enter q now) j).opened.Nodup)
    (hq : qs = [.targetPreparing, .checkpointing] ∨ ∃ q, qs = [q] ∧ q ≠ .checkpointing) :
    (qs.foldl (fun j q => j.enter q now) j).records.Pairwise Apart := by
  have hnew : ∀ r ∈ j.records, ∀ q ∈ qs, r.Apart ⟨q, now, none⟩ := by
    intro r hr q hm
    have hne : ¬ r.Twins ⟨q, now, none⟩ := by
      rintro ⟨hp, hc : q = .checkpointing⟩
      subst hc
      rcases hq with rfl | ⟨q, rfl, hq⟩
      · rw [opened_enters, List.nodup_append] at hn
        exact hn.2.2 r.phase (List.mem_map_of_mem hr) .targetPreparing List.mem_cons_self hp
      · exact hq (List.mem_singleton.1 hm).symm
    rw [Apart, if_neg hne]
    exact closed_of_underWay hu r hr
  rw [records_enters, List.pairwise_append]
  refine ⟨hj, ?_, fun r hr r' hr' => ?_⟩
  · rcases hq with rfl | ⟨q, rfl, -⟩
    · simp [Apart, Twins]
    · exact List.pairwise_singleton ..
  · obtain ⟨q, hm, rfl⟩ := List.mem_map.1 hr'
    exact hnew r hr q hm

theorem apart_enter {j : Job} (hj : j.records.Pairwise Apart) (hu : j.underWay = [])
    (hn : (j.enter q now).opened.Nodup) (hq : q ≠ .checkpointing) :
    (j.enter q now).records.Pairwise Apart :=
  @apart_enters now j [q] hj hu hn (.inr ⟨q, rfl, hq⟩)

theorem apart_leave {j : Job} (hj : j.records.Pairwise Apart) : (j.leave q now).records.Pairwise Apart :=
  pairwise_grown (grows_closeLast q now j.records) (fun _ _ _ _ h hr hs => h.grows hr hs) hj

end Job

theorem Stage.phases_together {s : Stage} (hs : s.Entered) :
    s.phases = [.targetPreparing, .checkpointing] ∨ ∃ q, s.phases = [q] ∧ q ≠ .checkpointing := by
  cases hs with
  | capturing => exact .inl rfl
  | _ => exact .inr ⟨_, rfl, nofun⟩

namespace Course

variable {config : Config} {p : Plan} {l : List Occurrence}

theorem apart (h : Course config p P pr j l) : j.records.Pairwise PhaseRecord.Apart := by
  induction h with
  | accepted ho =>
    obtain ⟨_, _, _, _, rfl⟩ := ho.job_new
    exact .nil
  | entered now h hc ih =>
    exact Job.apart_enters ih (h.underWay_eq rfl) (h.entered now hc).paced.nodup
      (Stage.phases_together (h.stage_entered rfl))
  | @forwardRefused _ j _ e now h hc ih =>
    exact Job.apart_enter ih (h.underWay_eq rfl) (h.forwardRefused e now hc).paced.nodup nofun
  | @forwarded _ j _ changed now h hc ih =>
    exact Job.apart_leave
      (Job.apart_enter ih (h.underWay_eq rfl) (h.forwardRefused .json now hc).paced.nodup nofun)
  | quiesced _ _ _ ih | drained _ _ _ _ ih | captured _ _ _ _ _ ih | prepared _ _ _ _ _ ih
  | transferred _ _ _ ih | measured _ _ ih | detached _ _ ih | restored _ _ ih | announced _ _ ih =>
    exact Job.apart_leave ih
  | @closed _ _ j _ now _ _ ih =>
    rw [Job.records_conclude]
    exact PhaseRecord.pairwise_grown (j.grows_closeOpen now) (fun _ _ _ _ h hr hs => h.grows hr hs) ih
  | _ => assumption

theorem all_closed (h : Course config p (.waiting .finished) pr j l) :
    (∀ r ∈ j.records, r.isOpen = false) ∧ (j.status = .succeeded → j.opened = p.policy.phases) := by
  obtain ⟨f, i, before, now, wall, hc, rfl, -⟩ := h.closed_of_finished rfl
  rw [Job.records_conclude, Job.opened_conclude]
  constructor
  · intro r hr
    obtain ⟨r, -, rfl⟩ := List.mem_map.1 hr
    split
    · rfl
    · next ho => exact eq_false_of_ne_true ho
  · intro hs
    cases f with
    | none => exact hc.paced.eq_phases
    | some e =>
      rw [i.status_conclude] at hs
      split at hs
      · cases hs
      · cases hs

end Course

end LiveMigration
