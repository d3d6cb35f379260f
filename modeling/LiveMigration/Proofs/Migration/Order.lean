import LiveMigration.Proofs.Controller.History
import LiveMigration.Rehearsal.Script

namespace LiveMigration

open Journal Rehearsal

section

variable (config : Config) (p : Plan) (l : List Occurrence)

namespace Journal

def Verified (d : Snapshot) : Prop :=
  ∃ x, .answered (.capture p.source p.snapshotId) (.ok x) ∈ l ∧
    .answered (.transfer x p.target.host) (.ok d) ∈ l ∧ .answered (.measure d) (.ok x.size) ∈ l

def SourceGone : Prop :=
  .answered (.teardown p.source) (.ok ()) ∈ l ∧ .answered (.detach p.source) (.ok ()) ∈ l

def Restored : Prop := ∃ d, .answered (.restore d p.target p.restoreOptions) (.ok ()) ∈ l

def TargetServes : Prop :=
  Restored p l ∧ .answered (.reattach p.target config.peers) (.ok ()) ∈ l ∧
    .answered (.announce p.target) (.ok ()) ∈ l

/-- Whether it is time for something, after all that is in a journal. -/
def Due : Occurrence → Prop
  | .did (.call (.restore d e _)) =>
    e = p.target ∧ Verified p l d ∧ (p.policy = .beforeRestore → SourceGone p l)
  | .did (.write b _) =>
    b = p.traffic config → TargetServes config p l ∧ (p.policy = .beforeForwarding → SourceGone p l)
  | .did (.call (.teardown e)) =>
    e = p.source → p.policy = .afterForwarding → p.traffic config ∈ written l
  | _ => True

/-- Nothing happened before its time, and no step of the migration twice. -/
structure Ordered : Prop where
  due : ∀ before e after, l = before ++ e :: after → Due config p before e
  call_once : ∀ k ∈ [Kind.quiesce, .capture, .prepare, .transfer, .measure, .restore, .reattach,
    .announce], (calls l).countP (·.kind = k) ≤ 1
  teardown_once : (calls l).count (.teardown p.source) ≤ 1
  detach_once : (calls l).count (.detach p.source) ≤ 1
  traffic_once : (attempted l).count (p.traffic config) ≤ 1

end Journal

def Sequel.Known : Sequel → Prop
  | .restore d => p.policy = .beforeRestore ∧ Verified p l d
  | .forward => p.policy = .beforeForwarding ∧ TargetServes config p l
  | .retire => p.policy = .afterForwarding ∧ p.traffic config ∈ written l

def Stage.Known : Stage → Prop
  | .capturing (some (.ok x)) _ => .answered (.capture p.source p.snapshotId) (.ok x) ∈ l
  | .transferring x => .answered (.capture p.source p.snapshotId) (.ok x) ∈ l
  | .verifying x d =>
    .answered (.capture p.source p.snapshotId) (.ok x) ∈ l ∧
      .answered (.transfer x p.target.host) (.ok d) ∈ l
  | .removingSource next => next.Known config p l
  | .detachingSource next => next.Known config p l ∧ .answered (.teardown p.source) (.ok ()) ∈ l
  | .restoring d => Verified p l d ∧ (p.policy = .beforeRestore → SourceGone p l)
  | .reattaching => Restored p l
  | .announcing => Restored p l ∧ .answered (.reattach p.target config.peers) (.ok ()) ∈ l
  | _ => True

def Point.Known : Point → Prop
  | .waiting s | .entering s => s.Known config p l
  | .gathering (some (.ok x)) _ => .answered (.capture p.source p.snapshotId) (.ok x) ∈ l
  | .forwarding => TargetServes config p l ∧ (p.policy = .beforeForwarding → SourceGone p l)
  | _ => True

end

variable {config : Config} {p : Plan} {l m : List Occurrence}

namespace Journal

theorem Verified.mono (h : Verified p l d) : Verified p (l ++ m) d := by
  obtain ⟨x, hx, hd, hn⟩ := h
  exact ⟨x, List.mem_append_left m hx, List.mem_append_left m hd, List.mem_append_left m hn⟩

theorem SourceGone.mono (h : SourceGone p l) : SourceGone p (l ++ m) :=
  ⟨List.mem_append_left m h.1, List.mem_append_left m h.2⟩

theorem Restored.mono (h : Restored p l) : Restored p (l ++ m) := by
  obtain ⟨d, hd⟩ := h
  exact ⟨d, List.mem_append_left m hd⟩

theorem TargetServes.mono (h : TargetServes config p l) : TargetServes config p (l ++ m) :=
  ⟨h.1.mono, List.mem_append_left m h.2.1, List.mem_append_left m h.2.2⟩

theorem mem_written_mono (h : b ∈ written l) : b ∈ written (l ++ m) := by
  rw [written_append]
  exact List.mem_append_left _ h

theorem Due.mono (h : Due config p l e) : Due config p (l ++ m) e := by
  cases e with
  | did e =>
    cases e with
    | call c =>
      cases c with
      | restore d e o => exact ⟨h.1, h.2.1.mono, fun hp => (h.2.2 hp).mono⟩
      | teardown e => exact fun he hp => mem_written_mono (h he hp)
      | _ => trivial
    | write b r => exact fun hb => ⟨(h hb).1.mono, fun hp => ((h hb).2 hp).mono⟩
    | _ => trivial
  | _ => trivial

end Journal

theorem Sequel.Known.mono {next : Sequel} (h : next.Known config p l) :
    next.Known config p (l ++ m) := by
  cases next with
  | restore d => exact ⟨h.1, h.2.mono⟩
  | forward => exact ⟨h.1, h.2.mono⟩
  | retire => exact ⟨h.1, mem_written_mono h.2⟩

theorem Stage.Known.mono {s : Stage} (h : s.Known config p l) : s.Known config p (l ++ m) := by
  cases s with
  | capturing a b =>
    cases a with
    | none => trivial
    | some a =>
      cases a with
      | error e => trivial
      | ok x => exact List.mem_append_left m h
  | transferring x => exact List.mem_append_left m h
  | verifying x d => exact ⟨List.mem_append_left m h.1, List.mem_append_left m h.2⟩
  | removingSource next => exact Sequel.Known.mono h
  | detachingSource next => exact ⟨h.1.mono, List.mem_append_left m h.2⟩
  | restoring d => exact ⟨h.1.mono, fun hp => (h.2 hp).mono⟩
  | reattaching => exact Restored.mono h
  | announcing => exact ⟨h.1.mono, List.mem_append_left m h.2⟩
  | _ => trivial

namespace Course

theorem known (h : Course config p P pr j l) : P.Known config p l := by
  induction h with
  | cancel _ _ ih => exact ih
  | entered _ _ _ ih => exact Stage.Known.mono ih
  | captured r _ o _ hr ih =>
    cases r with
    | error e => trivial
    | ok x =>
      cases Call.result?_eq_ok.1 hr
      exact List.mem_concat_self
  | @prepared a _ _ _ _ _ _ _ _ ih =>
    cases a with
    | none => trivial
    | some a =>
      cases a with
      | error e => trivial
      | ok x => exact List.mem_append_left _ ih
  | @halfway a _ _ _ _ _ _ ih =>
    cases a with
    | none => trivial
    | some a =>
      cases a with
      | error e => trivial
      | ok x => exact ih
  | gathered _ ih => exact ih
  | transferred d _ _ ih => exact ⟨List.mem_append_left _ ih, List.mem_concat_self⟩
  | measured _ _ ih =>
    have hv : Verified p _ _ :=
      ⟨_, List.mem_append_left _ ih.1, List.mem_append_left _ ih.2, List.mem_concat_self⟩
    split
    · rename_i hp
      exact ⟨hp, hv⟩
    · rename_i hp
      exact ⟨hv, fun h => absurd h hp⟩
  | tornDown _ ih => exact ⟨Sequel.Known.mono ih, by simp⟩
  | @detached next _ _ _ _ _ ih =>
    have hk := Sequel.Known.mono (m := [.answered (.detach p.source) (.ok ())]) ih.1
    have hs : SourceGone p (_ ++ [.answered (.detach p.source) (.ok ())]) :=
      ⟨List.mem_append_left _ ih.2, List.mem_concat_self⟩
    cases next with
    | restore d => exact ⟨hk.2, fun _ => hs⟩
    | forward => exact ⟨hk.2, fun _ => hs⟩
    | retire => trivial
  | restored _ _ ih => exact ⟨_, List.mem_concat_self⟩
  | reattached _ ih => exact ⟨Restored.mono ih, by simp⟩
  | announced _ _ ih =>
    have ht : TargetServes config p (_ ++ [.answered (.announce p.target) (.ok ())]) :=
      ⟨ih.1.mono, List.mem_append_left _ ih.2, List.mem_concat_self⟩
    split
    · rename_i hp
      exact ⟨hp, ht⟩
    · rename_i hp
      exact ⟨ht, fun h => absurd h hp⟩
  | forwarded _ _ _ _ ih =>
    split
    · rename_i hp
      exact ⟨hp, by simp [written?]⟩
    · trivial
  | _ => trivial

end Course

def Journal.Timely (config : Config) (p : Plan) (l : List Occurrence) : Prop :=
  ∀ before e after, l = before ++ e :: after → Due config p before e

theorem Journal.Timely.append (h : Timely config p l) (hm : ∀ e ∈ m, Due config p l e) :
    Timely config p (l ++ m) := by
  intro before e after hs
  obtain ⟨k, rfl, hk⟩ | ⟨k, hl, hk⟩ := List.append_eq_append_iff.1 hs
  · exact (hm e (by simp [hk])).mono
  · cases k with
    | nil =>
      rw [List.append_nil] at hl
      subst hl
      cases hk
      exact hm e List.mem_cons_self
    | cons _ k =>
      cases hk
      exact h _ _ _ hl

theorem Stage.Known.due {s : Stage} (h : s.Known config p l) (hp : p.source ≠ p.target)
    (hc : c ∈ s.awaited config p) : Due config p l (.did (.call c)) := by
  cases s with
  | restoring d =>
    cases List.mem_singleton.1 hc
    exact ⟨rfl, h⟩
  | removingSource next =>
    cases List.mem_singleton.1 hc
    intro _ ha
    cases next with
    | restore d => cases h.1.symm.trans ha
    | forward => cases h.1.symm.trans ha
    | retire => exact h.2
  | removingTarget e =>
    cases List.mem_singleton.1 hc
    exact fun h => absurd h.symm hp
  | capturing a b =>
    rcases List.mem_append.1 hc with hc | hc
    · cases a with
      | some a => cases hc
      | none =>
        cases List.mem_singleton.1 hc
        trivial
    · cases b with
      | some b => cases hc
      | none =>
        cases List.mem_singleton.1 hc
        trivial
  | discarding f left =>
    obtain ⟨d, _, rfl⟩ := List.mem_map.1 hc
    trivial
  | submitted => cases hc
  | pausing => cases hc
  | finished => cases hc
  | _ =>
    cases List.mem_singleton.1 hc
    trivial

namespace Course

theorem timely (h : Course config p P pr j l) : Timely config p l := by
  induction h with
  | accepted ho =>
    have nothing : Timely config p [] := fun before _ _ h => by simp at h
    exact nothing.append (by simp [Due])
  | cancel _ _ ih | started _ ih | cancelled _ _ ih | halfway _ _ ih | captureFailed _ ih
  | prepareFailed _ ih | gathered _ ih | forwardCancelled _ _ ih | kept _ _ ih | moved _ _ ih
  | unrestored _ _ _ ih | unresumed _ _ ih | tidied _ _ ih => exact ih
  | entered _ hc _ ih =>
    refine ih.append fun e he => ?_
    obtain ⟨c, hm, rfl⟩ := List.mem_map.1 he
    exact Stage.Known.due hc.known hc.moves hm
  | refused _ _ _ _ ih | quiesced _ _ _ ih | probed _ _ _ _ ih | woken _ _ ih | drained _ _ _ _ ih
  | captured _ _ _ _ _ ih | prepared _ _ _ _ _ ih | transferred _ _ _ ih | mismatched _ _ ih
  | measured _ _ ih | tornDown _ ih | detached _ _ ih | restored _ _ ih | reattached _ ih
  | announced _ _ ih | targetRemoved _ _ ih | targetDetached _ _ ih | resuming _ _ ih | resumed _ _ ih
  | discarding _ _ ih | discarded _ _ _ _ ih | discardedLast _ _ _ _ ih | closed _ _ _ ih =>
    exact ih.append (by simp [Due, calling])
  | forwardRefused e now hc _ ih =>
    refine ih.append fun e he => ?_
    cases List.mem_singleton.1 he
    exact fun _ => hc.known
  | forwarded _ _ hc _ ih =>
    refine ih.append fun e he => ?_
    cases List.mem_singleton.1 he
    exact fun _ => hc.known
  | retireRefused _ _ _ ih | retired _ _ _ ih =>
    refine ih.append fun e he => ?_
    cases List.mem_singleton.1 he
    exact fun h => absurd h.symm Plan.traffic_ne_retireBatch
  | removing hc _ _ ih =>
    refine ih.append fun e he => ?_
    cases List.mem_singleton.1 he
    exact fun h => absurd h.symm hc.moves

end Course

namespace Plan

def removal (p : Plan) : Nat :=
  match p.policy with
  | .beforeRestore => 5
  | .beforeForwarding => 10
  | _ => 13

end Plan

def Rehearsal.Kind.place? : Kind → Option Nat
  | .quiesce => some 0
  | .capture => some 1
  | .prepare => some 2
  | .transfer => some 3
  | .measure => some 4
  | .restore => some 7
  | .reattach => some 8
  | .announce => some 9
  | _ => none

namespace Journal

def place? (config : Config) (p : Plan) : Occurrence → Option Nat
  | .did (.call (.teardown e)) => if e = p.source then some p.removal else none
  | .did (.call (.detach e)) => if e = p.source then some (p.removal + 1) else none
  | .did (.call c) => c.kind.place?
  | .did (.write b _) => if b = p.traffic config then some 12 else none
  | _ => none

def Ascends (config : Config) (p : Plan) (l : List Occurrence) (n : Nat) : Prop :=
  (l.filterMap (place? config p)).Pairwise (· < ·) ∧ ∀ i ∈ l.filterMap (place? config p), i < n

end Journal

def Stage.first (p : Plan) : Stage → Nat
  | .submitted | .quiescing => 0
  | .probing _ | .pausing _ | .capturing .. => 1
  | .transferring _ => 3
  | .verifying .. => 4
  | .removingSource _ => p.removal
  | .detachingSource _ => p.removal + 1
  | .restoring _ => 7
  | .reattaching => 8
  | .announcing => 9
  | _ => 15

def Stage.next (p : Plan) : Stage → Nat
  | .submitted => 0
  | .quiescing | .probing _ | .pausing _ => 1
  | .capturing .. => 3
  | .transferring _ => 4
  | .verifying .. => 5
  | .removingSource _ => p.removal + 1
  | .detachingSource _ => p.removal + 2
  | .restoring _ => 8
  | .reattaching => 9
  | .announcing => 10
  | _ => 15

theorem Plan.removal_le (p : Plan) : p.removal ≤ 13 := by
  simp only [removal]
  split <;> decide

theorem Stage.first_le (p : Plan) (s : Stage) : s.first p ≤ 15 := by
  have := p.removal_le
  cases s <;> simp only [first] <;> omega

theorem Stage.next_le (p : Plan) (s : Stage) : s.next p ≤ 15 := by
  have := p.removal_le
  cases s <;> simp only [next] <;> omega

def Point.next (p : Plan) : Point → Nat
  | .waiting s => s.next p
  | .entering s => s.first p
  | .gathering .. => 3
  | .forwarding => 12
  | _ => 15

namespace Journal

namespace Ascends

theorem mono (h : Ascends config p l n) (hn : n ≤ k) : Ascends config p l k :=
  ⟨h.1, fun i hi => Nat.lt_of_lt_of_le (h.2 i hi) hn⟩

theorem append (is : List Nat) (h : Ascends config p l n) (hm : m.filterMap (place? config p) = is)
    (hs : is.Pairwise (· < ·)) (hb : ∀ i ∈ is, n ≤ i ∧ i < k) (hn : n ≤ k) :
    Ascends config p (l ++ m) k := by
  subst hm
  constructor
  · rw [List.filterMap_append, List.pairwise_append]
    exact ⟨h.1, hs, fun i hi j hj => Nat.lt_of_lt_of_le (h.2 i hi) (hb j hj).1⟩
  · rw [List.filterMap_append]
    intro i hi
    rcases List.mem_append.1 hi with hi | hi
    · exact Nat.lt_of_lt_of_le (h.2 i hi) hn
    · exact (hb i hi).2

theorem quiet (h : Ascends config p l n) (hm : m.filterMap (place? config p) = []) (hn : n ≤ k) :
    Ascends config p (l ++ m) k :=
  h.append [] hm .nil nofun hn

theorem one (h : Ascends config p l n) (hm : m.filterMap (place? config p) = [n]) :
    Ascends config p (l ++ m) (n + 1) :=
  h.append [n] hm (List.pairwise_singleton ..) (by simp) (Nat.le_succ n)

theorem calls {s : Stage} (h : Ascends config p l (s.first p)) (hp : p.source ≠ p.target) :
    Ascends config p (l ++ calling (s.awaited config p)) (s.next p) := by
  cases s with
  | submitted => exact h.quiet rfl (Nat.le_refl _)
  | pausing d => exact h.quiet rfl (Nat.le_refl _)
  | finished => exact h.quiet rfl (Nat.le_refl _)
  | probing d => exact h.quiet rfl (Nat.le_refl _)
  | resuming e => exact h.quiet rfl (Nat.le_refl _)
  | discarding f left =>
    refine h.quiet ?_ (Nat.le_refl _)
    simp [calling, Stage.awaited, place?, Call.kind, Kind.place?]
  | removingTarget e =>
    refine h.quiet ?_ (Nat.le_refl _)
    simp [calling, Stage.awaited, place?, hp.symm]
  | detachingTarget e =>
    refine h.quiet ?_ (Nat.le_refl _)
    simp [calling, Stage.awaited, place?, hp.symm]
  | quiescing => exact h.one rfl
  | transferring x => exact h.one rfl
  | verifying x d => exact h.one rfl
  | restoring d => exact h.one rfl
  | reattaching => exact h.one rfl
  | announcing => exact h.one rfl
  | removingSource next =>
    refine h.one ?_
    simp [calling, Stage.awaited, place?, Stage.first]
  | detachingSource next =>
    refine h.one ?_
    simp [calling, Stage.awaited, place?, Stage.first]
  | capturing a b =>
    cases a with
    | none =>
      cases b with
      | none =>
        refine h.append [1, 2] rfl (by simp) ?_ (by simp [Stage.first, Stage.next])
        simp [Stage.first, Stage.next]
      | some b => exact (h.one rfl).mono (Nat.le_succ 2)
    | some a =>
      cases b with
      | none => exact (h.mono (Nat.le_succ 1)).one rfl
      | some b => exact h.quiet rfl (by simp [Stage.first, Stage.next])

end Ascends

end Journal

theorem Course.ascends (h : Course config p P pr j l) : Ascends config p l (P.next p) := by
  induction h with
  | accepted ho => exact ⟨.nil, nofun⟩
  | cancel _ _ ih | started _ ih | halfway _ _ ih | gathered _ ih | kept _ _ ih | moved _ _ ih
  | unrestored _ _ _ ih | unresumed _ _ ih | tidied _ _ ih => exact ih
  | cancelled _ _ ih => exact ih.mono (Stage.first_le p _)
  | captureFailed _ ih | prepareFailed _ ih | forwardCancelled _ _ ih =>
    exact ih.mono (by simp [Point.next])
  | entered _ hc _ ih => exact ih.calls hc.moves
  | refused _ _ _ _ ih => exact ih.quiet rfl (Stage.next_le p _)
  | quiesced _ _ _ ih | probed _ _ _ _ ih | drained _ _ _ _ ih | captured _ _ _ _ _ ih
  | prepared _ _ _ _ _ ih | restored _ _ ih => exact ih.quiet rfl (Nat.le_refl _)
  | woken _ _ ih | transferred _ _ _ ih | targetDetached _ _ ih | resuming _ _ ih | resumed _ _ ih
  | discarded _ _ _ _ ih | discardedLast _ _ _ _ ih | closed _ _ _ ih =>
    exact ih.quiet rfl (Nat.le_refl _)
  | mismatched _ _ ih => exact ih.quiet rfl (Nat.le_of_ble_eq_true rfl)
  | measured _ _ ih =>
    split
    · rename_i hp
      exact ih.quiet rfl (by simp [Point.next, Stage.next, Stage.first, Plan.removal, hp])
    · exact ih.quiet rfl (Nat.le_of_ble_eq_true rfl)
  | tornDown _ ih =>
    refine ih.one ?_
    simp [List.filterMap_cons, place?, Point.next, Stage.next]
  -- What comes next depends on when the policy removes the source.
  | @detached next _ _ _ _ hc ih =>
    refine ih.quiet rfl ?_
    have hk := hc.known.1
    cases next with
    | restore d => simp [Point.next, Sequel.point, Stage.next, Stage.first, Plan.removal, hk.1]
    | forward => simp [Point.next, Sequel.point, Stage.next, Plan.removal, hk.1]
    | retire => simp [Point.next, Sequel.point, Stage.next, Plan.removal, hk.1]
  | reattached _ ih => exact ih.one rfl
  | announced _ _ ih =>
    split
    · rename_i hp
      exact ih.quiet rfl (by simp [Point.next, Stage.next, Stage.first, Plan.removal, hp])
    · exact ih.quiet rfl (Nat.le_of_ble_eq_true rfl)
  | forwardRefused e _ _ _ ih =>
    refine (ih.one ?_).mono (Nat.le_of_ble_eq_true rfl)
    simp [place?, Point.next]
  | forwarded _ _ _ _ ih =>
    refine (ih.one ?_).mono ?_
    · simp [place?, Point.next]
    · split
      · rename_i hp
        simp [Point.next, Stage.first, Plan.removal, hp]
      · simp [Point.next]
  | retireRefused _ _ _ ih | retired _ _ _ ih =>
    refine ih.quiet ?_ (Nat.le_refl _)
    simp [place?, Plan.traffic_ne_retireBatch.symm]
  | removing hc _ _ ih =>
    refine ih.quiet ?_ (Nat.le_refl _)
    simp [place?, hc.moves.symm]
  | targetRemoved _ hc ih =>
    refine ih.quiet ?_ (Nat.le_refl _)
    simp [place?, hc.moves.symm]
  | discarding _ _ ih =>
    refine ih.quiet ?_ (Nat.le_refl _)
    simp [place?, calling, Call.kind, Kind.place?]

namespace Journal

theorem Ascends.countP_le_one (h : Ascends config p l n) {f : Occurrence → Bool}
    (hf : ∀ e, f e = true → place? config p e = some i) : l.countP f ≤ 1 :=
  calc
    l.countP f ≤ l.countP (fun e => place? config p e == some i) :=
      List.countP_mono_left fun e _ he => beq_iff_eq.2 (hf e he)
    _ = (l.filterMap (place? config p)).count i := List.count_filterMap.symm
    _ ≤ 1 := List.nodup_iff_count.1 (h.1.imp Nat.ne_of_lt) i

theorem Ascends.calls_once (h : Ascends config p l n) {f : Call → Bool}
    (hf : ∀ c, f c = true → place? config p (.did (.call c)) = some i) :
    (Journal.calls l).countP f ≤ 1 := by
  rw [Journal.calls, List.countP_filterMap]
  refine h.countP_le_one (i := i) fun e he => ?_
  cases e with
  | did e =>
    cases e with
    | call c => exact hf c he
    | _ => cases he
  | _ => cases he

theorem Ascends.kind_once (h : Ascends config p l n) {k : Kind} (hk : k.place? = some i) :
    (Journal.calls l).countP (·.kind = k) ≤ 1 := by
  refine h.calls_once (i := i) fun c hc => ?_
  have hc : c.kind = k := of_decide_eq_true hc
  subst hc
  cases c with
  | teardown e => cases hk
  | detach e => cases hk
  | _ => exact hk

theorem Ascends.attempt_once (h : Ascends config p l n) :
    (attempted l).count (p.traffic config) ≤ 1 := by
  rw [attempted, List.count_filterMap]
  refine h.countP_le_one (i := 12) fun e he => ?_
  cases e with
  | did e =>
    cases e with
    | write b r =>
      have hb : b = p.traffic config := by simpa [attempt?] using he
      exact if_pos hb
    | _ => cases he
  | _ => cases he

end Journal

theorem Course.ordered (h : Course config p P pr j l) : Ordered config p l where
  due := h.timely
  call_once := by
    have ha := h.ascends
    intro k hk
    simp only [List.mem_cons, List.not_mem_nil, or_false] at hk
    rcases hk with rfl | rfl | rfl | rfl | rfl | rfl | rfl | rfl
    all_goals exact ha.kind_once rfl
  teardown_once := h.ascends.calls_once fun _ hc => by
    cases beq_iff_eq.1 hc
    exact if_pos rfl
  detach_once := h.ascends.calls_once fun _ hc => by
    cases beq_iff_eq.1 hc
    exact if_pos rfl
  traffic_once := h.ascends.attempt_once

/-- However a history goes, every migration in it is ordered. -/
theorem migration_ordered (config : Config) (s : Store) (inputs : List Input) (id : JobId) :
    let l := ((Controller.idle config s).watch inputs).journal id
    l = [] ∨ ∃ p, p.id = id ∧ l.head? = some (.accepted p) ∧ Ordered config p l := by
  rcases Controller.course_watch config s inputs id with h | ⟨p, stage, pr, j, hp, -, h⟩
  · exact .inl h
  · exact .inr ⟨p, hp, h.head?_eq, h.ordered⟩

end LiveMigration
