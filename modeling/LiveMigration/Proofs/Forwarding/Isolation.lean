import LiveMigration.Proofs.Forwarding.Integrity

namespace LiveMigration

namespace Group

theorem member?_setSlot {g : Group} {i : UInt16} {old : Option Member}
    (h : g.slots[i.toNat]? = some old) (new : Option Member) (j : UInt16) :
    (g.setSlot i new).member? j = if i = j then new else g.member? j := by
  simp only [member?, slots_setSlot, UInt16.toNat_inj]
  split
  · next hj =>
    subst hj
    simp [h]
  · rfl

theorem member?_empty (vip : Addr) (n i : UInt16) : (empty vip n).member? i = none := by
  cases h : (empty vip n).member? i with
  | none => rfl
  | some m => exact absurd (slots_empty (member?_eq_some.mp h)) (by simp)

theorem member?_of_no_members {g : Group} (h : ∀ m, m ∉ g.members) (i : UInt16) : g.member? i = none := by
  cases hm : g.member? i with
  | none => rfl
  | some m => exact absurd (mem_members_iff.mpr ⟨_, member?_eq_some.mp hm⟩) (h m)

end Group

namespace Tables

variable {t t' : Tables} {addr vip : Addr} {i : UInt16}

def slotsOf (t : Tables) (addr vip : Addr) (i : UInt16) : Option Member :=
  ((t.groups.get? vip).bind fun g => g.member? i).filter (·.endpoint = addr)

theorem slotsOf_of_absent (h : t.groups.get? vip = none) : t.slotsOf addr vip i = none := by
  simp [slotsOf, h]

theorem slotsOf_of_group {g : Group} (h : t.groups.get? vip = some g) :
    t.slotsOf addr vip i = (g.member? i).filter (·.endpoint = addr) := by
  simp [slotsOf, h]

theorem slotsOf_setGroup {g : Group}
    (h : ∀ i, (g.member? i).filter (·.endpoint = addr) = t.slotsOf addr vip i) :
    (t.setGroup vip g).slotsOf addr = t.slotsOf addr := by
  funext v i
  by_cases hv : vip = v
  · subst hv
    rw [← h i]
    exact slotsOf_of_group (Table.get?_insert_self ..)
  · simp only [slotsOf, setGroup, Table.get?_insert_of_ne hv]

theorem slotsOf_setSlot {g : Group} {old new : Option Member} (hg : t.groups.get? vip = some g)
    (hs : g.slots[i.toNat]? = some old) (hold : ∀ m, old = some m → m.endpoint ≠ addr)
    (hnew : ∀ m, new = some m → m.endpoint ≠ addr) :
    (t.setGroup vip (g.setSlot i new)).slotsOf addr = t.slotsOf addr := by
  apply slotsOf_setGroup
  intro j
  rw [slotsOf_of_group hg, Group.member?_setSlot hs]
  split
  · next hj =>
    subst hj
    have ho : g.member? i = old := by simp [Group.member?, hs]
    rw [ho, Option.filter_eq_none_iff.mpr (by simpa using hnew),
      Option.filter_eq_none_iff.mpr (by simpa using hold)]
  · rfl

theorem slotsOf_eraseGroup {g : Group} (hg : t.groups.get? vip = some g) (hm : ∀ m, m ∉ g.members) :
    slotsOf { t with groups := t.groups.erase vip } addr = t.slotsOf addr := by
  funext v i
  by_cases hv : vip = v
  · subst hv
    rw [slotsOf_of_absent (Table.get?_erase_self ..), slotsOf_of_group hg,
      Group.member?_of_no_members hm]
    rfl
  · simp only [slotsOf, Table.get?_erase_of_ne hv]

theorem occupant?_eq {g : Group} {m : Member} (hg : t.groups.get? vip = some g)
    (hs : g.slots[i.toNat]? = some (some m)) : t.occupant? vip i = some m.endpoint := by
  simp [occupant?, hg, Group.member?_eq_some.mpr hs]

theorem Change.slotsOf {op : Op} {c : Bool} (h : t.Change op t' c) (ha : addr ∉ t.touched op) :
    t'.slotsOf addr = t.slotsOf addr := by
  -- An operation touches whoever is in its slot before it, and whoever is there after it.
  cases h with
  | groupCreated hn hv =>
    apply slotsOf_setGroup
    intro i
    rw [Group.member?_empty, slotsOf_of_absent hv]
    rfl
  | groupDeleted hg hm => exact slotsOf_eraseGroup hg hm
  | rebound he hg hs =>
    simp only [touched, occupant?_eq hg hs] at ha
    apply slotsOf_setSlot hg hs
    · intro _ hm he
      cases hm
      subst he
      simp at ha
    · intro _ hm he
      cases hm
      subst he
      simp at ha
  | bound he hg hs =>
    simp only [touched] at ha
    apply slotsOf_setSlot hg hs
    · intro _ hm
      cases hm
    · intro _ hm he
      cases hm
      subst he
      simp at ha
  | unbound hg hs =>
    simp only [touched, occupant?_eq hg hs] at ha
    apply slotsOf_setSlot hg hs
    · intro _ hm he
      cases hm
      subst he
      simp at ha
    · intro _ hm
      cases hm
  | activeSet hg hs =>
    simp only [touched, occupant?_eq hg hs] at ha
    apply slotsOf_setSlot hg hs
    · intro _ hm he
      cases hm
      subst he
      simp at ha
    · intro _ hm he
      cases hm
      subst he
      simp at ha
  | _ => rfl

theorem Change.endpoint {op : Op} {c : Bool} (h : t.Change op t' c) (ha : addr ∉ t.touched op) :
    t'.endpoints.get? addr = t.endpoints.get? addr := by
  cases h with
  | endpointPut | rulePut => exact Table.get?_insert_of_ne (by simpa [touched, eq_comm] using ha)
  | endpointRemoved => exact Table.get?_erase_of_ne (by simpa [touched, eq_comm] using ha)
  | _ => rfl

theorem Change.rule {op : Op} {c : Bool} (h : t.Change op t' c) (ha : addr ∉ t.touched op) :
    t'.rules.get? addr = t.rules.get? addr := by
  cases h with
  | rulePut => exact Table.get?_insert_of_ne (by simpa [touched, eq_comm] using ha)
  | ruleRemoved => exact Table.get?_erase_of_ne (by simpa [touched, eq_comm] using ha)
  | _ => rfl

end Tables

namespace Store

/-- All that a store holds on an address. -/
structure Holding where
  endpoint : Option Endpoint
  rule : Option Rule
  slots : (vip : Addr) → (index : UInt16) → Option Member
  lease : Option JobId

def holding (s : Store) (addr : Addr) : Holding where
  endpoint := s.tables.endpoints.get? addr
  rule := s.tables.rules.get? addr
  slots := s.tables.slotsOf addr
  lease := s.leases.get? addr

/-- The actions that anyone but a job can ask for while the controller runs. -/
def Action.ByOthers (job : JobId) : Action → Prop
  | .write holder _ => holder ≠ some job
  | .drop l => l.job ≠ job
  | .relocate .. | .lease .. | .teardownAll => True
  | .shutdown => False

variable {s s' : Store} {addr : Addr} {job : JobId}

theorem not_mem_of_checkLease {leases : Table Addr JobId} {holder : Option JobId} {l : List Addr}
    (h : checkLease leases holder l = .ok ()) (ha : leases.get? addr = some job)
    (hj : holder ≠ some job) : addr ∉ l :=
  fun hm => hj (checkLease_eq_ok.mp h addr hm job ha).symm

theorem holding_applyAs {holder : Option JobId} {b : Batch} {c : Bool}
    (h : s.applyAs holder b = .ok (s', c)) (ha : s.leases.get? addr = some job)
    (hj : holder ≠ some job) : s'.holding addr = s.holding addr := by
  obtain ⟨hl, ⟨-, rfl⟩ | ⟨-, hs⟩⟩ := applyAs_eq_ok h
  · rfl
  · have key : s'.tables.endpoints.get? addr = s.tables.endpoints.get? addr ∧
        s'.tables.rules.get? addr = s.tables.rules.get? addr ∧
        s'.tables.slotsOf addr = s.tables.slotsOf addr := by
      refine stage_induction (P := fun t => t.endpoints.get? addr = s.tables.endpoints.get? addr ∧
        t.rules.get? addr = s.tables.rules.get? addr ∧ t.slotsOf addr = s.tables.slotsOf addr)
        ?_ hs ⟨rfl, rfl, rfl⟩
      intro t op u c hc hu ht
      obtain ⟨he, hr, hb⟩ := ht
      have hn := not_mem_of_checkLease hc ha hj
      exact ⟨(hu.endpoint hn).trans he, (hu.rule hn).trans hr, (hu.slotsOf hn).trans hb⟩
    obtain ⟨he, hr, hb⟩ := key
    simp only [holding, he, hr, hb, hl]

theorem holding_settle_apply (ha : s.leases.get? addr = some job) (b : Batch) :
    (s.settle (s.apply b)).holding addr = s.holding addr := by
  cases h : s.apply b with
  | error e => rfl
  | ok r => exact holding_applyAs h ha (by simp)

theorem leases_releaseAddr (s : Store) (a : Addr) (hj : s.leases.get? addr = some job) {j : JobId}
    (hne : j ≠ job) : (s.releaseAddr a j).leases.get? addr = some job := by
  simp only [releaseAddr]
  split
  · next h =>
    rw [Table.get?_erase_of_ne, hj]
    intro he
    subst he
    rw [hj] at h
    exact hne (Option.some.inj h).symm
  · exact hj

theorem leases_release {l : Lease} (hj : s.leases.get? addr = some job) (hne : l.job ≠ job) :
    (s.release l).leases.get? addr = some job := by
  have h := leases_releaseAddr s l.endpoint hj hne
  simp only [release]
  split
  · exact h
  · exact leases_releaseAddr _ _ h hne

theorem leases_lease {l : Lease} (h : s.lease endpoint replacement owner = .ok (s', l))
    (hj : s.leases.get? addr = some job) : s'.leases.get? addr = some job := by
  simp only [lease] at h
  split at h
  · cases h
  · split at h
    · cases h
    · next hn =>
      cases h
      rw [Table.get?_insert_of_ne, hj]
      intro he
      subst he
      rw [hn] at hj
      cases hj
    · next a hn =>
      split at h
      · cases h
      · split at h
        · cases h
        · next ha =>
          cases h
          rw [Table.get?_insert_of_ne, Table.get?_insert_of_ne, hj]
          · intro he
            subst he
            rw [ha] at hj
            cases hj
          · intro he
            subst he
            rw [hn] at hj
            cases hj

theorem holding_eq_of_tables {s s' : Store} (ht : s'.tables = s.tables)
    (hl : s'.leases.get? addr = s.leases.get? addr) : s'.holding addr = s.holding addr := by
  simp only [holding, ht, hl]

theorem holding_act {a : Action} (hj : s.leases.get? addr = some job) (ha : a.ByOthers job) :
    (s.act a).holding addr = s.holding addr := by
  cases a with
  | write holder b =>
    simp only [act]
    cases h : s.applyAs holder b with
    | error e => rfl
    | ok r => exact holding_applyAs h hj ha
  | relocate a egress mac host =>
    simp only [act, relocate]
    cases s.tables.endpoints.get? a with
    | none => rfl
    | some e => exact holding_settle_apply hj _
  | lease endpoint replacement owner =>
    simp only [act]
    cases h : s.lease endpoint replacement owner with
    | error e => rfl
    | ok r => exact holding_eq_of_tables (tables_lease h) (by rw [settle, leases_lease h hj, hj])
  | drop l => exact holding_eq_of_tables (tables_release s l) (by rw [act, leases_release hj ha, hj])
  | teardownAll =>
    simp only [act, settle_teardownAll]
    exact holding_settle_apply hj _
  | shutdown => cases ha

/-- Nothing that others do, one after the other, changes what is held on an address leased to a job. -/
theorem leased_address_isolated (hj : s.leases.get? addr = some job) {as : List Action}
    (ha : ∀ a ∈ as, a.ByOthers job) : (as.foldl act s).holding addr = s.holding addr := by
  induction as generalizing s with
  | nil => rfl
  | cons a as ih =>
    rw [List.forall_mem_cons] at ha
    have h := holding_act hj ha.1
    have hl : (s.act a).leases.get? addr = some job := (congrArg Holding.lease h).trans hj
    rw [List.foldl_cons, ih hl ha.2, h]

theorem leased_address_isolated_from_teardown :
    let e : Endpoint := ⟨⟨⟨10⟩, ⟨.replicate 6 1⟩⟩, "a", 1, "web"⟩
    let s := (empty.act (.write none ⟨[.createGroup ⟨1⟩ 2, .putEndpoint e, .bind ⟨1⟩ 0 ⟨10⟩]⟩)).act
      (.lease ⟨10⟩ (some ⟨11⟩) (.ofNat 7))
    let as : List Action := [.write (some (.ofNat 8)) ⟨[.putNat 80 ⟨1⟩, .setActive ⟨1⟩ 0 false]⟩,
      .relocate ⟨10⟩ 5 none none, .lease ⟨11⟩ none (.ofNat 8), .teardownAll]
    s.leases.get? ⟨10⟩ = some (.ofNat 7) ∧ s.leases.get? ⟨11⟩ = some (.ofNat 7) ∧
      (∀ a ∈ as, a.ByOthers (.ofNat 7)) ∧
      (as.foldl act s).holding ⟨10⟩ = s.holding ⟨10⟩ ∧
      (as.foldl act s).holding ⟨11⟩ = s.holding ⟨11⟩ := by
  intro e s as
  have h₁ : s.leases.get? ⟨10⟩ = some (.ofNat 7) := by decide
  have h₂ : s.leases.get? ⟨11⟩ = some (.ofNat 7) := by decide
  have ha : ∀ a ∈ as, a.ByOthers (.ofNat 7) := by
    simp only [as, List.forall_mem_cons]
    exact ⟨by simp only [Action.ByOthers]; decide, trivial, trivial, trivial, by simp⟩
  exact ⟨h₁, h₂, ha, leased_address_isolated h₁ ha, leased_address_isolated h₂ ha⟩

end Store

end LiveMigration
