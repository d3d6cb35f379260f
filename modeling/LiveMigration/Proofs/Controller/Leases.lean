import LiveMigration.Proofs.Controller.Actions

namespace LiveMigration

open Journal

namespace Store

variable {s u : Store} {l : Lease} {a : Addr} {job : JobId} {es : List Effect}

theorem leased_drop_iff (s : Store) (l : Lease) (a : Addr) (job : JobId) :
    (s.act (.drop l)).leases.get? a = some job ↔
      s.leases.get? a = some job ∧ (a ∈ l.addrs → job ≠ l.job) := by
  simp only [act, get?_leases_release]
  split
  · rename_i h
    simp only [h, true_implies, Option.some.injEq]
    constructor
    · intro hn
      cases hn
    · intro hc
      exact absurd hc.1.symm hc.2
  · rename_i h
    constructor
    · intro ha
      refine ⟨ha, ?_⟩
      rintro hm rfl
      exact h ⟨hm, ha⟩
    · exact fun ha => ha.1

theorem leased_act_iff {x : Action} (hx : x.IsWrite ∨ x.Foreign job) :
    (s.act x).leases.get? a = some job ↔ s.leases.get? a = some job := by
  rcases hx with hx | hx
  · rw [leases_act_of_isWrite hx]
  · cases x with
    | write => rw [leases_act_of_isWrite (a := .write ..) trivial]
    | relocate => rw [leases_act_of_isWrite (a := .relocate ..) trivial]
    | teardownAll => rw [leases_act_of_isWrite (a := .teardownAll) trivial]
    | shutdown => cases hx
    | drop l =>
      rw [leased_drop_iff]
      exact ⟨And.left, fun h => ⟨h, fun _ => Ne.symm hx⟩⟩
    | lease endpoint replacement owner =>
      simp only [act]
      cases hl : s.lease endpoint replacement owner with
      | error e => rfl
      | ok r =>
        obtain ⟨hr, hg⟩ := granted_of_lease (l := r.2) hl
        have ho : r.2.job ≠ job := by
          rw [hr]
          exact hx
        simp only [settle, hg.leases]
        split
        · rename_i ha
          simp [hg.free a ha, ho]
        · rfl

theorem leased_foldl_iff {as : List Action} (h : ∀ x ∈ as, x.IsWrite ∨ x.Foreign job) :
    (as.foldl act s).leases.get? a = some job ↔ s.leases.get? a = some job := by
  induction as generalizing s with
  | nil => rfl
  | cons x as ih =>
    rw [List.forall_mem_cons] at h
    exact (ih h.2).trans (leased_act_iff h.1)

theorem Performs.leased_iff (h : Performs l s es u) : u.leases.get? a = some l.job ↔
    s.leases.get? a = some l.job ∧ (a ∈ l.addrs → ∀ j, Effect.publish j ∉ es) := by
  induction h with
  | nil => simp
  | @idle _ _ _ e he _ ih =>
    have hp : ∀ j, Effect.publish j ≠ e := by
      rintro j rfl
      cases he
    rw [ih]
    simp [hp]
  | @write _ _ _ b _ ih =>
    rw [ih, leases_act_of_isWrite (a := .write (some l.job) b) trivial]
    simp
  | publish _ ih =>
    rw [ih, leased_drop_iff, and_assoc, and_congr_right_iff]
    intro _
    constructor
    · intro h ha
      exact absurd rfl (h.1 ha)
    · intro h
      refine ⟨fun ha => ?_, fun ha => ?_⟩
      · exact absurd List.mem_cons_self (h ha _)
      · exact absurd List.mem_cons_self (h ha _)

end Store

namespace Controller

variable {c : Controller} {id : JobId} {l : List Occurrence}

def Settled (c : Controller) (id : JobId) : Prop :=
  ∀ a, c.store.leases.get? a = some id ↔ ∃ r, c.run? id = some r ∧ a ∈ r.lease.addrs

end Controller

def Input.LeavesLeases : Input → Prop
  | .store a => a.IsWrite
  | _ => True

namespace Watch

variable {w : Watch} {i : Input} {id : JobId}

theorem settled_turn (hw : w.Sound) (ht : w.controller.Turned i id j r before t)
    (h : w.controller.Settled id) : (w.step i).controller.Settled id := by
  intro a
  have hstands := (hw.step i).stands id
  rw [controller_step, journal_step] at hstands
  rw [controller_step]
  have hleased := ht.yields.of_start.1.leased_iff (a := a)
  have hold := (hw.stands id).published_iff ht.job
  have hnew := hstands.published_iff ht.job_after
  have hpublish : (∃ j, Effect.publish j ∈ t.effects) ↔
      (w.controller.step i).1.run? id = none := by
    rw [ht.run] at hold
    simp only [ht.log, List.mem_append, exists_or, hold, ht.before_idle] at hnew
    simpa using hnew
  rw [hw.lease_job ht.run] at hleased
  rw [ht.store, hleased, h a, ht.run]
  by_cases hf : t.run.stage = .finished
  · rw [ht.run_finished hf] at hpublish ⊢
    obtain ⟨k, hk⟩ := hpublish.2 rfl
    constructor
    · rintro ⟨⟨r', hr', ha⟩, hn⟩
      cases hr'
      exact absurd hk (hn ha k)
    · rintro ⟨r', hr', -⟩
      cases hr'
  · rw [ht.run_after hf] at hpublish ⊢
    have hn : ∀ j, Effect.publish j ∉ t.effects := by simpa using hpublish
    simp [hn, ht.yields.lease]

theorem settled_step (hw : w.Sound) (hi : i.LeavesLeases) (h : w.controller.Settled id) :
    (w.step i).controller.Settled id := by
  intro a
  rw [controller_step]
  cases hw.fate i id with
  | spared _ hr _ ha =>
    rw [hr, ← h a, w.controller.store_step, Store.leased_foldl_iff]
    intro x hx
    rcases ha x hx with rfl | hf
    · exact .inl hi
    · exact .inr hf
  | @accepted j r _ hn hj hr _ hl hg =>
    have hid : r.lease.job = id := by
      rw [hl]
      exact Controller.id_of_job? hj
    rw [hr, hg.leases, hid]
    split
    · rename_i ha
      simpa using ha
    · rename_i ha
      rw [h a, hn]
      simpa using ha
  | cancelled hi _ _ _ hr =>
    rw [hr, ← h a, w.controller.store_step, hi]
    rfl
  | turned ht => exact settled_turn hw ht h a

theorem settled_watch (config : Config) {s : Store} (hs : s.leases = ∅) {inputs : List Input}
    (hi : ∀ i ∈ inputs, i.LeavesLeases) (id : JobId) :
    ((Controller.idle config s).watch inputs).controller.Settled id := by
  refine foldl_induction (P := fun w => w.controller.Settled id) (fun w i => settled_step) hi
    (sound_idle config s) ?_
  intro a
  simp [Controller.idle, Controller.run?, hs]

end Watch

namespace Controller

/-- The leases of a store are those of the running jobs, and no two of them share an address. -/
structure Exclusive (c : Controller) : Prop where
  apart : ∀ id id' j j' a, c.job? id = some j → c.job? id' = some j' → j.status = .running →
    j'.status = .running → a ∈ j.lease.addrs → a ∈ j'.lease.addrs → id = id'
  leased : ∀ id j a, c.job? id = some j → j.status = .running → a ∈ j.lease.addrs →
    c.store.leases.get? a = some id
  owned : ∀ id a, c.store.leases.get? a = some id →
    ∃ j, c.job? id = some j ∧ j.status = .running ∧ a ∈ j.lease.addrs
  released : ∀ id j a, c.job? id = some j → j.isTerminal = true → c.store.leases.get? a ≠ some id

end Controller

end LiveMigration
