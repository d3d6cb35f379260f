import LiveMigration.Proofs.Forwarding.Isolation

namespace LiveMigration

def Lease.addrs (l : Lease) : List Addr := l.endpoint :: l.replacement.toList

namespace Store

variable {s s' : Store} {l : Lease} {a : Addr}

structure Granted (s : Store) (l : Lease) (s' : Store) : Prop where
  tables : s'.tables = s.tables
  unregistered : ∀ a, l.replacement = some a → s.tables.endpoints.get? a = none
  free : ∀ a ∈ l.addrs, s.leases.get? a = none
  leases : ∀ a, s'.leases.get? a = if a ∈ l.addrs then some l.job else s.leases.get? a

theorem granted_of_lease (h : s.lease endpoint replacement job = .ok (s', l)) :
    l = ⟨endpoint, replacement, job⟩ ∧ s.Granted l s' := by
  have ht := tables_lease h
  simp only [lease] at h
  split at h
  · cases h
  split at h
  · cases h
  · rename_i hn
    cases h
    refine ⟨rfl, ht, ?_, by simpa [Lease.addrs] using hn, fun a => ?_⟩
    · intro a ha
      cases ha
    simp only [Table.get?_insert, Lease.addrs, Option.toList_none, List.mem_singleton]
    by_cases ha : a = endpoint
    · simp [ha]
    · rw [if_neg fun e => ha (rank_inj e).symm, if_neg ha]
  · rename_i addr hn
    split at h
    · cases h
    rename_i hc
    split at h
    · cases h
    rename_i hr
    cases h
    rw [Bool.not_eq_true, Table.contains_eq_false] at hc
    refine ⟨rfl, ht, ?_, by simpa [Lease.addrs] using ⟨hn, hr⟩, fun a => ?_⟩
    · intro a ha
      cases ha
      exact hc
    · simp only [Table.get?_insert, Lease.addrs, Option.toList_some, List.mem_cons,
        List.not_mem_nil, or_false]
      by_cases he : a = endpoint
      · simp [he]
      · rw [if_neg fun e => he (rank_inj e).symm]
        by_cases ha : a = addr
        · simp [ha]
        · rw [if_neg fun e => ha (rank_inj e).symm, if_neg (not_or.2 ⟨he, ha⟩)]

theorem get?_leases_releaseAddr (s : Store) (addr a : Addr) (job : JobId) :
    (s.releaseAddr addr job).leases.get? a =
      if a = addr ∧ s.leases.get? a = some job then none else s.leases.get? a := by
  simp only [releaseAddr]
  by_cases ha : a = addr
  · subst ha
    split
    · rename_i h
      simp [h]
    · rename_i h
      simp [h]
  · split
    · rw [Table.get?_erase_of_ne (Ne.symm ha)]
      simp [ha]
    · simp [ha]

theorem get?_leases_release (s : Store) (l : Lease) (a : Addr) :
    (s.release l).leases.get? a =
      if a ∈ l.addrs ∧ s.leases.get? a = some l.job then none else s.leases.get? a := by
  obtain ⟨endpoint, replacement, job⟩ := l
  cases replacement with
  | none => simp [release, get?_leases_releaseAddr, Lease.addrs]
  | some addr =>
    simp only [release, get?_leases_releaseAddr, Lease.addrs, Option.toList_some, List.mem_cons,
      List.not_mem_nil, or_false]
    by_cases he : a = endpoint
    · by_cases hj : s.leases.get? a = some job
      · simp [he, ← hj]
      · simp [hj]
    · simp [he]

namespace Action

def IsWrite : Action → Prop
  | .write .. | .relocate .. | .teardownAll => True
  | .lease .. | .drop _ | .shutdown => False

end Action

theorem leases_settle_applyAs (s : Store) (holder : Option JobId) (b : Batch) :
    (s.settle (s.applyAs holder b)).leases = s.leases := by
  cases h : s.applyAs holder b with
  | error e => rfl
  | ok r => exact (applyAs_eq_ok h).1

theorem leases_act_of_isWrite {a : Action} (ha : a.IsWrite) (s : Store) :
    (s.act a).leases = s.leases := by
  cases a with
  | write holder b => exact leases_settle_applyAs s holder b
  | relocate addr egress mac host =>
    simp only [act, relocate]
    cases s.tables.endpoints.get? addr with
    | none => rfl
    | some e => exact leases_settle_applyAs s none _
  | teardownAll =>
    simp only [act, settle_teardownAll]
    exact leases_settle_applyAs s none _
  | lease | drop | shutdown => cases ha

end Store

end LiveMigration
