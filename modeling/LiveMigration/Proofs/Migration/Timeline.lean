import LiveMigration.Proofs.Migration.Clock
import Mathlib.Algebra.GroupWithZero.Nat
import Mathlib.Data.List.Nodup
import Mathlib.Data.List.Pairwise

namespace LiveMigration

open PhaseRecord

/-- The phases from the end of the service on the source to its beginning on the target. -/
def TeardownPolicy.outage (policy : TeardownPolicy) : List Phase :=
  [.checkpointing, .transferring, .verifying, .restoring, .reattachingNetwork, .forwardingUpdate] ++
    if policy.place .sourceTeardown < policy.place .forwardingUpdate then [.sourceTeardown] else []

namespace PhaseRecord

def took (r : PhaseRecord) : Nat := (r.ended.getD r.started).toNat - r.started.toNat

def Closed (r : PhaseRecord) : Prop := ∃ e, r.ended = some e ∧ r.started ≤ e

end PhaseRecord

namespace Job

def took (j : Job) (q : Phase) : Nat := ((j.record? q).map PhaseRecord.took).getD 0

/-- Faithful records of a job that has ended. -/
structure TimeLine (j : Job) : Prop where
  inOrder : j.opened <+: j.teardownPolicy.phases
  once : j.opened.Nodup
  closed : ∀ r ∈ j.records, r.Closed
  starts : j.records.Pairwise fun r r' => r.started ≤ r'.started
  paired : .targetPreparing ∈ j.opened ↔ .checkpointing ∈ j.opened
  together : ∀ r ∈ j.records, ∀ r' ∈ j.records, r.Twins r' → r.started = r'.started
  apart : ∀ r ∈ j.records, ∀ r' ∈ j.records, ¬ r.Twins r' →
    j.teardownPolicy.place r.phase < j.teardownPolicy.place r'.phase → ∃ e, r.ended = some e ∧ e ≤ r'.started

structure Outage (j : Job) (start ready total : UInt64) : Prop where
  started : (j.record? .checkpointing).map (·.started) = some start
  forwarded : (j.record? .forwardingUpdate).bind (·.ended) = some ready
  ended : j.lastEnd? = some total
  last : j.records.getLast?.bind (·.ended) = some total
  inOrder : start ≤ ready
  sum_le : (j.teardownPolicy.outage.map j.took).sum ≤ ready.toNat - start.toNat
  le_total : ready.toNat - start.toNat ≤ total.toNat
  durations : ∀ q ∈ j.teardownPolicy.phases, j.duration? q = some (milliseconds (UInt64.ofNat (j.took q)))
  timeToReady : j.timings.timeToReady = some (milliseconds (ready - start))
  total : j.timings.total = some (milliseconds total)

end Job

theorem pairwise_place (policy : TeardownPolicy) :
    policy.phases.Pairwise fun q q' => policy.place q < policy.place q' := by
  cases policy <;> decide

theorem rel_of_place {R : PhaseRecord → PhaseRecord → Prop} {policy : TeardownPolicy} {rs : List PhaseRecord}
    (h : rs.Pairwise R) (hrs : rs.map (·.phase) <+: policy.phases) (hr : r ∈ rs) (hr' : r' ∈ rs)
    (hplace : policy.place r.phase < policy.place r'.phase) : R r r' := by
  have hp : (rs.map (·.phase)).Pairwise fun q q' => policy.place q < policy.place q' :=
    (pairwise_place policy).sublist hrs.sublist
  rw [List.pairwise_map] at hp
  let S (r r' : PhaseRecord) : Prop := (policy.place r.phase < policy.place r'.phase → R r r') ∧
    (policy.place r'.phase < policy.place r.phase → R r' r)
  have hS : rs.Pairwise S := (h.and hp).imp fun ⟨ho, hlt⟩ => ⟨fun _ => ho, fun hgt => by omega⟩
  have hsymm : Std.Symm S := ⟨fun _ _ h => ⟨h.2, h.1⟩⟩
  have hself : ∀ r ∈ rs, S r r := fun _ _ => ⟨fun h => by omega, fun h => by omega⟩
  exact (hS.forall_of_forall hself hr hr').1 hplace

namespace Job

variable {j : Job}

theorem record?_of_mem (hn : j.opened.Nodup) (hr : r ∈ j.records) : j.record? r.phase = some r := by
  obtain ⟨r', hr'⟩ : ∃ r', j.record? r.phase = some r' := by
    rw [← Option.isSome_iff_exists, record?, List.find?_isSome]
    exact ⟨r, hr, decide_eq_true rfl⟩
  have hphase : r'.phase = r.phase := by simpa using List.find?_some hr'
  rw [hr', List.inj_on_of_nodup_map hn (List.mem_of_find?_eq_some hr') hr hphase]

theorem timeLine_of_precedes (hp : j.teardownPolicy.Paced j.opened n?) (hc : ∀ r ∈ j.records, r.Closed)
    (ho : j.records.Pairwise Precedes) : j.TimeLine where
  inOrder := hp.inOrder
  once := hp.nodup
  closed := hc
  starts := by
    refine ho.imp_of_mem fun {r r'} hr _ h => ?_
    simp only [Precedes] at h
    split at h
    · rw [h]
      exact UInt64.le_refl _
    · obtain ⟨e, he, hle⟩ := h
      obtain ⟨e', he', hle'⟩ := hc r hr
      cases he.symm.trans he'
      exact UInt64.le_trans hle' hle
  paired := hp.together
  together := by
    intro r hr r' hr' htwins
    have hplace : j.teardownPolicy.place r.phase < j.teardownPolicy.place r'.phase := by
      rw [htwins.1, htwins.2]
      cases j.teardownPolicy <;> decide
    have h := rel_of_place ho hp.inOrder hr hr' hplace
    rwa [Precedes, if_pos htwins] at h
  apart := by
    intro r hr r' hr' hne hplace
    have h := rel_of_place ho hp.inOrder hr hr' hplace
    rwa [Precedes, if_neg hne] at h

end Job

namespace PhaseRecord

variable {r : PhaseRecord} {e : UInt64}

theorem between_of_le {start stop : UInt64} (h : start ≤ stop) :
    between start stop = milliseconds (stop - start) := by
  rw [between, if_neg (UInt64.not_lt.2 h)]

theorem Closed.took_add (h : r.Closed) (he : r.ended = some e) : r.took + r.started.toNat = e.toNat := by
  obtain ⟨e', he', hle⟩ := h
  cases he.symm.trans he'
  have hle : r.started.toNat ≤ e.toNat := hle
  simp only [took, he, Option.getD_some]
  omega

theorem Closed.duration? (h : r.Closed) : r.duration? = some (milliseconds (UInt64.ofNat r.took)) := by
  obtain ⟨e, he, hle⟩ := h
  have htook : UInt64.ofNat r.took = e - r.started := by
    rw [took, he, Option.getD_some, ← UInt64.toNat_sub_of_le _ _ hle, UInt64.ofNat_toNat]
  rw [PhaseRecord.duration?, he, Option.map_some, between_of_le hle, htook]

theorem sum_took_le {rs : List PhaseRecord} (hc : ∀ r ∈ rs, r.Closed)
    (ho : rs.Pairwise fun r r' => ∃ e, r.ended = some e ∧ e ≤ r'.started) (hfirst : rs.head? = some first)
    (hlast : rs.getLast? = some last) (he : last.ended = some stop) :
    (rs.map took).sum + first.started.toNat ≤ stop.toNat := by
  induction rs generalizing first with
  | nil => cases hfirst
  | cons r rs ih =>
    cases hfirst
    rw [List.forall_mem_cons] at hc
    rw [List.pairwise_cons] at ho
    cases rs with
    | nil =>
      cases hlast
      have := hc.1.took_add he
      simpa using Nat.le_of_eq this
    | cons r' rs =>
      rw [List.getLast?_cons_cons] at hlast
      have hrest := ih hc.2 ho.2 rfl hlast
      obtain ⟨e, he, hle⟩ := ho.1 r' List.mem_cons_self
      have hle : e.toNat ≤ r'.started.toNat := hle
      have := hc.1.took_add he
      rw [List.map_cons, List.sum_cons]
      omega

end PhaseRecord

namespace Job

variable {j : Job}

theorem lastEnd?_eq (hr : j.records.getLast? = some r) (he : r.ended = some total)
    (hle : ∀ r ∈ j.records, ∀ e, r.ended = some e → e ≤ total) : j.lastEnd? = some total := by
  have hmax : ∀ m n : UInt64, max m n = if m ≤ n then n else m := fun _ _ => rfl
  obtain ⟨rs, hrs⟩ := List.getLast?_eq_some_iff.1 hr
  rw [hrs] at hle
  simp only [List.forall_mem_append] at hle
  have hbound : ∀ n, ({ j with records := rs } : Job).lastEnd? = some n → n ≤ total := by
    simp only [lastEnd?]
    refine List.foldlRecOn (motive := fun latest => ∀ n, latest = some n → n ≤ total) rs _ nofun ?_
    intro latest hlatest r hr n hn
    cases latest with
    | none => exact hle.1 r hr n hn
    | some m =>
      cases hr' : r.ended with
      | none =>
        rw [hr'] at hn
        exact hlatest n hn
      | some e =>
        rw [hr'] at hn
        cases hn
        rw [hmax]
        split
        · exact hle.1 r hr e hr'
        · exact hlatest m rfl
  simp only [lastEnd?, hrs, List.foldl_append, List.foldl_cons, List.foldl_nil, he] at hbound ⊢
  cases hlatest : rs.foldl _ none with
  | none => rfl
  | some m =>
    have hm := hbound m hlatest
    simp only [hmax, if_pos hm]

theorem took_eq (h : j.opened.Nodup) (hr : r ∈ j.records) : j.took r.phase = r.took := by
  rw [took, record?_of_mem h hr]
  rfl

theorem record?_eq (h : j.opened.Nodup) (hr : r ∈ j.records) (hq : r.phase = q) : j.record? q = some r :=
  hq ▸ record?_of_mem h hr

theorem TimeLine.le_last (h : j.TimeLine) (hlast : last ∈ j.records) (he : last.ended = some total)
    (hphase : j.teardownPolicy.phases.getLast? = some last.phase) :
    ∀ r ∈ j.records, ∀ e, r.ended = some e → e ≤ total := by
  have key : ∀ policy : TeardownPolicy, ∀ q ∈ policy.phases, ∀ q', policy.phases.getLast? = some q' →
      q' ≠ .checkpointing ∧ (q ≠ q' → policy.place q < policy.place q') := by
    intro policy q hq q' hq'
    cases policy with
    | _ =>
      cases hq'
      revert q
      decide
  intro r hr e hr'
  have hmem : r.phase ∈ j.teardownPolicy.phases := h.inOrder.subset (List.mem_map_of_mem hr)
  obtain ⟨hne, hplace⟩ := key _ _ hmem _ hphase
  by_cases hq : r.phase = last.phase
  · cases List.inj_on_of_nodup_map h.once hr hlast hq
    cases hr'.symm.trans he
    exact UInt64.le_refl _
  · obtain ⟨e', he', hle⟩ := h.apart r hr last hlast (fun ht => hne ht.2) (hplace hq)
    cases hr'.symm.trans he'
    obtain ⟨e, hlast', hle'⟩ := h.closed last hlast
    cases he.symm.trans hlast'
    exact UInt64.le_trans hle hle'

/-- The phases of the outage follow each other, from the first to the last. -/
theorem TimeLine.exists_window (h : j.TimeLine) (hall : j.opened = j.teardownPolicy.phases) :
    ∃ (rs : List PhaseRecord) (first last : PhaseRecord), rs.Sublist j.records ∧
      (rs.map (·.phase)).Perm j.teardownPolicy.outage ∧
      rs.Pairwise (fun r r' => ∃ e, r.ended = some e ∧ e ≤ r'.started) ∧
      rs.head? = some first ∧ first.phase = .checkpointing ∧
      rs.getLast? = some last ∧ last.phase = .forwardingUpdate := by
  -- In a policy these are the phases from the fourth on.
  let window := (j.teardownPolicy.phases.drop 3).take (j.teardownPolicy.place .forwardingUpdate - 3)
  have hwindow : window.Perm j.teardownPolicy.outage ∧ window.head? = some .checkpointing ∧
      window.getLast? = some .forwardingUpdate ∧ .targetPreparing ∉ window := by
    simp only [window]
    cases j.teardownPolicy <;> decide
  have hsub : window.Sublist (j.records.map (·.phase)) := by
    rw [show j.records.map (·.phase) = _ from hall]
    exact (List.take_sublist ..).trans (List.drop_sublist ..)
  obtain ⟨rs, hrs, hmap⟩ := List.sublist_map_iff.1 hsub
  rw [hmap, List.head?_map, List.getLast?_map, Option.map_eq_some_iff, Option.map_eq_some_iff] at hwindow
  obtain ⟨hperm, ⟨first, hfirst, hcp⟩, ⟨last, hlast, hfwd⟩, htp⟩ := hwindow
  refine ⟨rs, first, last, hrs, hperm, ?_, hfirst, hcp, hlast, hfwd⟩
  have hplaces : (rs.map (·.phase)).Pairwise fun q q' =>
      j.teardownPolicy.place q < j.teardownPolicy.place q' :=
    (pairwise_place _).sublist ((hrs.map _).trans h.inOrder.sublist)
  refine (List.pairwise_map.1 hplaces).imp_of_mem fun {r r'} hr hr' hplace => ?_
  refine h.apart r (hrs.subset hr) r' (hrs.subset hr') (fun ht => htp ?_) hplace
  exact ht.1 ▸ List.mem_map_of_mem hr

theorem TimeLine.outage (h : j.TimeLine) (hall : j.opened = j.teardownPolicy.phases) :
    ∃ start ready total, j.Outage start ready total := by
  obtain ⟨rs, first, fwd, hrs, hperm, hchain, hfirst, hcp, hlast, hfwd⟩ := h.exists_window hall
  have hfirst' : first ∈ j.records := hrs.subset (List.mem_of_head? hfirst)
  have hfwd' : fwd ∈ j.records := hrs.subset (List.mem_of_getLast? hlast)
  obtain ⟨ready, hready, -⟩ := h.closed fwd hfwd'
  obtain ⟨last, hend, hphase⟩ : ∃ last, j.records.getLast? = some last ∧
      j.teardownPolicy.phases.getLast? = some last.phase := by
    rw [← hall, opened, List.getLast?_map]
    cases hl : j.records.getLast? with
    | none => simp [List.getLast?_eq_none_iff.1 hl] at hfirst'
    | some last => exact ⟨last, rfl, rfl⟩
  have hend' := List.mem_of_getLast? hend
  obtain ⟨total, htotal, -⟩ := h.closed last hend'
  -- The job ends with the last phase of its policy, and the phases of the outage lie in a row before that.
  have hle := h.le_last hend' htotal hphase
  have hsum := sum_took_le (fun r hr => h.closed r (hrs.subset hr)) hchain hfirst hlast hready
  have houtage : (j.teardownPolicy.outage.map j.took).sum = (rs.map PhaseRecord.took).sum := by
    rw [← (hperm.map j.took).sum_nat, List.map_map]
    congr 1
    exact List.map_congr_left fun r hr => took_eq h.once (hrs.subset hr)
  have hrecord := record?_eq h.once hfirst' hcp
  have hrecord' := record?_eq h.once hfwd' hfwd
  have hlastEnd := lastEnd?_eq hend htotal hle
  have horder : first.started ≤ ready := by
    change first.started.toNat ≤ ready.toNat
    omega
  have hready' : ready.toNat ≤ total.toNat := hle fwd hfwd' ready hready
  refine ⟨first.started, ready, total, ?_⟩
  constructor
  case started => rw [hrecord]; rfl
  case forwarded => rw [hrecord']; exact hready
  case ended => exact hlastEnd
  case last => rw [hend]; exact htotal
  case inOrder => exact horder
  case sum_le => omega
  case le_total => omega
  case durations =>
    intro q hq
    obtain ⟨r, hr, rfl⟩ := List.mem_map.1 (hall ▸ hq)
    rw [took_eq h.once hr, Job.duration?, record?_of_mem h.once hr]
    exact (h.closed r hr).duration?
  case timeToReady =>
    simp only [timings, hrecord, hrecord', ← between_of_le horder]
    simp [hready]
  case total => simp only [timings, hlastEnd, Option.map_some]

end Job

end LiveMigration
