import LiveMigration.Forwarding.Store

/-!
# Changes of tables

What each operation does when it does not fail, and what it has checked by then. Later proofs go by cases
on `Tables.Change` and do not open the operations.
-/

namespace LiveMigration

theorem Except.bind_eq_ok {x : Except ε α} {f : α → Except ε β} {b : β} :
    (x >>= f) = .ok b ↔ ∃ a, x = .ok a ∧ f a = .ok b := by
  cases x with
  | error e => simp [bind, Except.bind]
  | ok a => simp [bind, Except.bind]

theorem Table.contains_eq_false [Ranked κ] {t : Table κ ν} {k : κ} :
    t.contains k = false ↔ t.get? k = none := by simp [Table.contains]

theorem Table.mem_values_iff [Ranked κ] {t : Table κ ν} {x : ν} :
    x ∈ t.values ↔ ∃ k, t.get? k = some x := by
  simp [Table.values, Table.mem_entries_iff]

namespace Group

@[simp] theorem length_setSlot (g : Group) (i : UInt16) (s : Option Member) :
    (g.setSlot i s).slots.length = g.slots.length := by simp [setSlot]

@[simp] theorem capacity_setSlot (g : Group) (i : UInt16) (s : Option Member) :
    (g.setSlot i s).capacity = g.capacity := by simp [capacity]

@[simp] theorem capacity_empty (vip : Addr) (n : UInt16) : (empty vip n).capacity = n := by
  simp [capacity, empty]

theorem slots_setSlot (g : Group) (i : UInt16) (s : Option Member) (j : Nat) :
    (g.setSlot i s).slots[j]? =
      if i.toNat = j then (g.slots[j]?).map fun _ => s else g.slots[j]? := by
  rw [setSlot, List.getElem?_set']
  rfl

theorem slots_empty {vip : Addr} {n : UInt16} {j : Nat} {s : Option Member}
    (h : (empty vip n).slots[j]? = some s) : s = none := by
  simp only [empty, List.getElem?_replicate] at h
  split at h <;> simp_all

@[simp] theorem slot_eq_ok {g : Group} {i : UInt16} {s : Option Member} :
    g.slot i = .ok s ↔ g.slots[i.toNat]? = some s := by
  unfold slot
  split <;> simp_all

theorem member?_eq_some {g : Group} {i : UInt16} {m : Member} :
    g.member? i = some m ↔ g.slots[i.toNat]? = some (some m) := by
  simp [member?, Option.bind_eq_some_iff]

theorem mem_members_iff {g : Group} {m : Member} :
    m ∈ g.members ↔ ∃ j : Nat, g.slots[j]? = some (some m) := by
  simp [members, ← List.mem_iff_getElem?]

theorem isEmpty_iff {g : Group} : g.isEmpty = true ↔ ∀ m, m ∉ g.members := by
  simp only [isEmpty, members, List.all_eq_true, List.mem_filterMap, id]
  constructor
  · intro h m hm
    obtain ⟨s, hs, rfl⟩ := hm
    exact absurd (h _ hs) (by simp)
  · intro h s hs
    cases s with
    | none => rfl
    | some m => exact absurd ⟨_, hs, rfl⟩ (h m)

end Group

namespace Tables

@[simp] theorem group_eq_ok {t : Tables} {vip : Addr} {g : Group} :
    t.group vip = .ok g ↔ t.groups.get? vip = some g := by
  unfold group
  split <;> simp_all

theorem mem_members_iff {t : Tables} {m : Member} :
    m ∈ t.members ↔ ∃ vip g, t.groups.get? vip = some g ∧ m ∈ g.members := by
  simp only [members, List.mem_flatMap, Table.mem_values_iff]
  constructor
  · intro h
    obtain ⟨g, ⟨vip, hg⟩, hm⟩ := h
    exact ⟨vip, g, hg, hm⟩
  · intro h
    obtain ⟨vip, g, hg, hm⟩ := h
    exact ⟨g, ⟨vip, hg⟩, hm⟩

/-- A successful operation: the tables after it, and whether it reports a change. -/
inductive Change (t : Tables) : Op → Tables → Bool → Prop
  | groupThere : g.capacity ≠ 0 → t.groups.get? vip = some g →
      Change t (.createGroup vip g.capacity) t false
  | groupCreated : n ≠ 0 → t.groups.get? vip = none →
      Change t (.createGroup vip n) (t.setGroup vip (.empty vip n)) true
  | groupDeleted : t.groups.get? vip = some g → (∀ m, m ∉ g.members) →
      (∀ port, t.nat.get? port ≠ some vip) →
      Change t (.deleteGroup vip) { t with groups := t.groups.erase vip } true
  | endpointPut : Change t (.putEndpoint e) { t with endpoints := t.endpoints.insert e.addr e }
      (t.endpoints.get? e.addr ≠ some e)
  | endpointRemoved : t.endpoints.contains addr = true → (∀ m ∈ t.members, m.endpoint ≠ addr) →
      t.rules.get? addr = none →
      Change t (.removeEndpoint addr) { t with endpoints := t.endpoints.erase addr } true
  | boundAlready : t.endpoints.contains m.endpoint = true → t.groups.get? vip = some g →
      g.slots[i.toNat]? = some (some m) → Change t (.bind vip i m.endpoint) t false
  | rebound : t.endpoints.contains addr = true → t.groups.get? vip = some g →
      g.slots[i.toNat]? = some (some m) → m.endpoint ≠ addr →
      Change t (.bind vip i addr) (t.setGroup vip (g.setSlot i (some { m with endpoint := addr }))) true
  | bound : t.endpoints.contains addr = true → t.groups.get? vip = some g →
      g.slots[i.toNat]? = some none →
      Change t (.bind vip i addr) (t.setGroup vip (g.setSlot i (some ⟨i, addr, true⟩))) true
  | unbound : t.groups.get? vip = some g → g.slots[i.toNat]? = some (some m) →
      Change t (.unbind vip i) (t.setGroup vip (g.setSlot i none)) true
  | activeSet : t.groups.get? vip = some g → g.slots[i.toNat]? = some (some m) →
      Change t (.setActive vip i a) (t.setGroup vip (g.setSlot i (some { m with active := a })))
        (m.active ≠ a)
  | rulePut : t.endpoints.get? r.destination = some e →
      Change t (.putRule r)
        { t with
          endpoints := t.endpoints.insert r.destination { e with egress := r.egress }
          rules := t.rules.insert r.destination r }
        (t.rules.get? r.destination ≠ some r)
  | ruleRemoved : t.rules.contains addr = true → (∀ m ∈ t.members, m.endpoint ≠ addr) →
      Change t (.removeRule addr) { t with rules := t.rules.erase addr } true
  | natPut : t.groups.contains vip = true →
      Change t (.putNat port vip) { t with nat := t.nat.insert port vip } (t.nat.get? port ≠ some vip)
  | natDeleted : Change t (.deleteNat port) { t with nat := t.nat.erase port } (t.nat.contains port)

variable {t t' : Tables} {c : Bool}

theorem change_createGroup (h : t.createGroup vip n = .ok (t', c)) :
    Change t (.createGroup vip n) t' c := by
  unfold createGroup at h
  split at h
  · cases h
  · next hn =>
    split at h
    · next g hg =>
      split at h
      · next hc =>
        cases h
        subst hc
        exact .groupThere hn hg
      · cases h
    · next hg =>
      cases h
      exact .groupCreated hn hg

theorem nat_find?_eq_none (h : t.nat.entries.find? (·.2 = vip) = none) (port : UInt16) :
    t.nat.get? port ≠ some vip := by
  intro hp
  rw [← Table.mem_entries_iff] at hp
  exact absurd (List.find?_eq_none.mp h _ hp) (by simp)

theorem change_deleteGroup (h : t.deleteGroup vip = .ok (t', c)) : Change t (.deleteGroup vip) t' c := by
  unfold deleteGroup at h
  obtain ⟨g, hg, h⟩ := Except.bind_eq_ok.mp h
  split at h
  · cases h
  · next he =>
    split at h
    · cases h
    · next hn =>
      cases h
      exact .groupDeleted (group_eq_ok.mp hg) (Group.isEmpty_iff.mp (by simpa using he))
        (nat_find?_eq_none hn)

theorem change_removeEndpoint (h : t.removeEndpoint addr = .ok (t', c)) :
    Change t (.removeEndpoint addr) t' c := by
  unfold removeEndpoint at h
  split at h
  · cases h
  · next hc =>
    split at h
    · cases h
    · next hm =>
      split at h
      · cases h
      · next hr =>
        cases h
        refine .endpointRemoved (by simpa using hc) ?_ (Table.contains_eq_false.mp (by simpa using hr))
        intro m hmem he
        exact absurd (List.find?_eq_none.mp hm m hmem) (by simpa using he)

theorem change_bind (h : t.bind vip i addr = .ok (t', c)) : Change t (.bind vip i addr) t' c := by
  unfold bind at h
  split at h
  · cases h
  · next hc =>
    replace hc : t.endpoints.contains addr = true := by simpa using hc
    obtain ⟨g, hg, h⟩ := Except.bind_eq_ok.mp h
    obtain ⟨s, hs, h⟩ := Except.bind_eq_ok.mp h
    rw [group_eq_ok] at hg
    rw [Group.slot_eq_ok] at hs
    cases s with
    | none =>
      cases h
      exact .bound hc hg hs
    | some m =>
      replace h : (if m.endpoint = addr then _ else _) = Except.ok (t', c) := h
      split at h
      · next he =>
        cases h
        subst he
        exact .boundAlready hc hg hs
      · next he =>
        cases h
        exact .rebound hc hg hs he

theorem change_unbind (h : t.unbind vip i = .ok (t', c)) : Change t (.unbind vip i) t' c := by
  unfold unbind at h
  obtain ⟨g, hg, h⟩ := Except.bind_eq_ok.mp h
  obtain ⟨s, hs, h⟩ := Except.bind_eq_ok.mp h
  cases s with
  | none => cases h
  | some m =>
    cases h
    exact .unbound (group_eq_ok.mp hg) (Group.slot_eq_ok.mp hs)

theorem change_setActive (h : t.setActive vip i a = .ok (t', c)) :
    Change t (.setActive vip i a) t' c := by
  unfold setActive at h
  obtain ⟨g, hg, h⟩ := Except.bind_eq_ok.mp h
  obtain ⟨s, hs, h⟩ := Except.bind_eq_ok.mp h
  cases s with
  | none => cases h
  | some m =>
    cases h
    exact .activeSet (group_eq_ok.mp hg) (Group.slot_eq_ok.mp hs)

theorem change_putRule (h : t.putRule r = .ok (t', c)) : Change t (.putRule r) t' c := by
  unfold putRule at h
  split at h
  · cases h
  · next he =>
    cases h
    exact .rulePut he

theorem change_removeRule (h : t.removeRule addr = .ok (t', c)) : Change t (.removeRule addr) t' c := by
  unfold removeRule at h
  split at h
  · cases h
  · next hc =>
    split at h
    · cases h
    · next hm =>
      cases h
      refine .ruleRemoved (by simpa using hc) ?_
      intro m hmem he
      exact hm (List.any_eq_true.mpr ⟨m, hmem, by simpa using he⟩)

theorem change_putNat (h : t.putNat port vip = .ok (t', c)) : Change t (.putNat port vip) t' c := by
  unfold putNat at h
  split at h
  · cases h
  · next hc =>
    cases h
    exact .natPut (by simpa using hc)

theorem change_of_apply {op : Op} (h : t.apply op = .ok (t', c)) : Change t op t' c := by
  cases op with
  | createGroup vip n => exact change_createGroup h
  | deleteGroup vip => exact change_deleteGroup h
  | putEndpoint e => cases h; exact .endpointPut
  | removeEndpoint addr => exact change_removeEndpoint h
  | bind vip i addr => exact change_bind h
  | unbind vip i => exact change_unbind h
  | setActive vip i a => exact change_setActive h
  | putRule r => exact change_putRule h
  | removeRule addr => exact change_removeRule h
  | putNat port vip => exact change_putNat h
  | deleteNat port => cases h; exact .natDeleted

end Tables

namespace Store

theorem checkLease_eq_ok {leases : Table Addr JobId} {holder : Option JobId} {l : List Addr} :
    checkLease leases holder l = .ok () ↔
      ∀ addr ∈ l, ∀ owner, leases.get? addr = some owner → some owner = holder := by
  induction l with
  | nil => simp [checkLease]
  | cons addr l ih =>
    simp only [checkLease, List.forall_mem_cons]
    split
    · next owner ho =>
      split
      · next he =>
        rw [ih]
        constructor
        · intro h
          refine ⟨?_, h⟩
          intro o hol
          rw [ho] at hol
          cases hol
          exact he
        · exact fun h => h.2
      · next he =>
        constructor
        · intro h; cases h
        · exact fun h => absurd (h.1 owner ho) he
    · next hn => simp [ih, hn]

theorem stage_cons_eq_ok {leases : Table Addr JobId} {holder : Option JobId} {t t' : Tables} {op : Op}
    {ops : List Op} {c : Bool} (h : stage leases holder t (op :: ops) = .ok (t', c)) :
    ∃ u c₁ c₂, checkLease leases holder (t.touched op) = .ok () ∧ t.Change op u c₁ ∧
      stage leases holder u ops = .ok (t', c₂) ∧ c = (c₁ || c₂) := by
  unfold stage at h
  obtain ⟨_, hl, h⟩ := Except.bind_eq_ok.mp h
  obtain ⟨⟨u, c₁⟩, hu, h⟩ := Except.bind_eq_ok.mp h
  obtain ⟨⟨v, c₂⟩, hv, h⟩ := Except.bind_eq_ok.mp h
  cases h
  exact ⟨u, c₁, c₂, hl, Tables.change_of_apply hu, hv, rfl⟩

theorem stage_cons {leases : Table Addr JobId} {holder : Option JobId} {t u : Tables} {op : Op} {c : Bool}
    (hl : checkLease leases holder (t.touched op) = .ok ()) (ha : t.apply op = .ok (u, c))
    (ops : List Op) : stage leases holder t (op :: ops) =
      (stage leases holder u ops).map fun r => (r.1, c || r.2) := by
  simp only [stage, hl, ha, bind, Except.bind]
  cases stage leases holder u ops <;> rfl

theorem stage_induction {leases : Table Addr JobId} {holder : Option JobId} {P : Tables → Prop}
    (step : ∀ t op u c, checkLease leases holder (t.touched op) = .ok () → t.Change op u c → P t → P u)
    {t t' : Tables} {ops : List Op} {c : Bool} (h : stage leases holder t ops = .ok (t', c)) (ht : P t) :
    P t' := by
  induction ops generalizing t c with
  | nil => cases h; exact ht
  | cons op ops ih =>
    obtain ⟨u, c₁, c₂, hl, hc, hs, rfl⟩ := stage_cons_eq_ok h
    exact ih hs (step t op u c₁ hl hc ht)

theorem applyAs_eq_ok {s s' : Store} {holder : Option JobId} {b : Batch} {c : Bool}
    (h : s.applyAs holder b = .ok (s', c)) :
    s'.leases = s.leases ∧
      ((c = false ∧ s' = s) ∨
        (c = true ∧ stage s.leases holder s.tables b.ops = .ok (s'.tables, true))) := by
  unfold applyAs at h
  obtain ⟨⟨t, c'⟩, hs, h⟩ := Except.bind_eq_ok.mp h
  cases c' with
  | false =>
    cases h
    exact ⟨rfl, .inl ⟨rfl, rfl⟩⟩
  | true =>
    cases h
    exact ⟨rfl, .inr ⟨rfl, hs⟩⟩

end Store

end LiveMigration
