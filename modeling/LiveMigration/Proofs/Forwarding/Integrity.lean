import LiveMigration.Proofs.Forwarding.History

namespace LiveMigration

structure Group.Sound (endpoints : Table Addr Endpoint) (vip : Addr) (g : Group) : Prop where
  vip : g.vip = vip
  slots_pos : 0 < g.slots.length
  slots_lt : g.slots.length < UInt16.size
  slot : ∀ (j : Nat) m, g.slots[j]? = some (some m) →
    m.index.toNat = j ∧ endpoints.contains m.endpoint = true

structure Tables.Intact (t : Tables) : Prop where
  group : ∀ vip g, t.groups.get? vip = some g → g.Sound t.endpoints vip
  rule : ∀ addr r, t.rules.get? addr = some r →
    r.destination = addr ∧ t.endpoints.contains addr = true
  nat : ∀ port vip, t.nat.get? port = some vip → t.groups.contains vip = true
  endpoint : ∀ addr e, t.endpoints.get? addr = some e → e.addr = addr

namespace Table

variable {κ : Type u} {ν : Type v} [Ranked κ] {t : Table κ ν} {k k' : κ} {x : ν}

theorem contains_insert_self : (t.insert k x).contains k = true := by simp [contains]

theorem contains_insert (h : t.contains k' = true) : (t.insert k x).contains k' = true := by
  simp only [contains] at h ⊢
  rw [get?_insert]
  split
  · rfl
  · exact h

theorem contains_erase (h : t.contains k' = true) (hne : k ≠ k') : (t.erase k).contains k' = true := by
  simp only [contains] at h ⊢
  rwa [get?_erase_of_ne hne]

theorem get?_insert_cases {y : ν} (h : (t.insert k x).get? k' = some y) :
    (k = k' ∧ x = y) ∨ (k ≠ k' ∧ t.get? k' = some y) := by
  rw [get?_insert] at h
  split at h
  · next hk =>
    cases h
    exact .inl ⟨rank_inj hk, rfl⟩
  · next hk =>
    refine .inr ⟨?_, h⟩
    intro e
    exact hk (congrArg rank e)

theorem get?_erase_cases {y : ν} (h : (t.erase k).get? k' = some y) : k ≠ k' ∧ t.get? k' = some y := by
  rw [get?_erase] at h
  split at h
  · cases h
  · next hk =>
    refine ⟨?_, h⟩
    intro e
    exact hk (congrArg rank e)

end Table

namespace Group.Sound

variable {endpoints endpoints' : Table Addr Endpoint} {vip : Addr} {g : Group}

theorem mono (h : g.Sound endpoints vip)
    (k : ∀ m ∈ g.members, endpoints.contains m.endpoint = true → endpoints'.contains m.endpoint = true) :
    g.Sound endpoints' vip where
  vip := h.vip
  slots_pos := h.slots_pos
  slots_lt := h.slots_lt
  slot j m hm := by
    obtain ⟨hi, hc⟩ := h.slot j m hm
    exact ⟨hi, k m (mem_members_iff.mpr ⟨j, hm⟩) hc⟩

theorem empty {n : UInt16} (hn : n ≠ 0) : (Group.empty vip n).Sound endpoints vip where
  vip := rfl
  slots_pos := by
    have : n.toNat ≠ 0 := fun e => hn (UInt16.toNat_inj.mp e)
    simp only [Group.empty, List.length_replicate]
    omega
  slots_lt := by simpa [Group.empty] using n.toNat_lt_size
  slot j m hm := absurd (slots_empty hm) (by simp)

theorem setSlot {i : UInt16} {s : Option Member} (h : g.Sound endpoints vip)
    (hs : ∀ m, s = some m → m.index = i ∧ endpoints.contains m.endpoint = true) :
    (g.setSlot i s).Sound endpoints vip where
  vip := h.vip
  slots_pos := by rw [length_setSlot]; exact h.slots_pos
  slots_lt := by rw [length_setSlot]; exact h.slots_lt
  slot j m hm := by
    rw [slots_setSlot] at hm
    split at hm
    · next hj =>
      obtain ⟨_, -, rfl⟩ := Option.map_eq_some_iff.mp hm
      obtain ⟨hi, hc⟩ := hs m rfl
      exact ⟨hi ▸ hj, hc⟩
    · exact h.slot j m hm

theorem setSlot_some {i : UInt16} {m m' : Member} (h : g.Sound endpoints vip)
    (hm : g.slots[i.toNat]? = some (some m)) (hi : m'.index = m.index)
    (hc : endpoints.contains m'.endpoint = true) : (g.setSlot i (some m')).Sound endpoints vip := by
  apply h.setSlot
  intro _ hm
  cases hm
  exact ⟨hi.trans (UInt16.toNat_inj.mp (h.slot _ _ hm).1), hc⟩

end Group.Sound

namespace Tables

variable {t t' : Tables}

theorem Intact.empty : Tables.empty.Intact where
  group _ _ h := by cases h
  rule _ _ h := by cases h
  nat _ _ h := by cases h
  endpoint _ _ h := by cases h

theorem Intact.setGroup {vip : Addr} {g : Group} (h : t.Intact) (hg : g.Sound t.endpoints vip) :
    (t.setGroup vip g).Intact where
  group v g' hv := by
    rcases Table.get?_insert_cases hv with ⟨rfl, rfl⟩ | ⟨-, hv⟩
    · exact hg
    · exact h.group v g' hv
  rule := h.rule
  nat port v hv := Table.contains_insert (h.nat port v hv)
  endpoint := h.endpoint

theorem Intact.putEndpoint {addr : Addr} {e : Endpoint} (h : t.Intact) (he : e.addr = addr) :
    { t with endpoints := t.endpoints.insert addr e }.Intact where
  group v g hv := (h.group v g hv).mono fun _ _ => Table.contains_insert
  rule a r hr := ⟨(h.rule a r hr).1, Table.contains_insert (h.rule a r hr).2⟩
  nat := h.nat
  endpoint a e' he' := by
    rcases Table.get?_insert_cases he' with ⟨rfl, rfl⟩ | ⟨-, he'⟩
    · exact he
    · exact h.endpoint a e' he'

theorem Intact.putRule {r : Rule} {e : Endpoint} (h : t.Intact)
    (he : t.endpoints.get? r.destination = some e) :
    { t with
      endpoints := t.endpoints.insert r.destination { e with egress := r.egress }
      rules := t.rules.insert r.destination r }.Intact := by
  have h' := h.putEndpoint (e := { e with egress := r.egress }) (h.endpoint _ e he)
  refine { h' with rule := ?_ }
  intro a r' hr'
  rcases Table.get?_insert_cases hr' with ⟨rfl, rfl⟩ | ⟨-, hr'⟩
  · exact ⟨rfl, Table.contains_insert_self⟩
  · exact h'.rule a r' hr'

theorem Intact.removeEndpoint {addr : Addr} (h : t.Intact) (hm : ∀ m ∈ t.members, m.endpoint ≠ addr)
    (hr : t.rules.get? addr = none) : { t with endpoints := t.endpoints.erase addr }.Intact where
  group v g hv := by
    apply (h.group v g hv).mono
    intro m hmem hc
    exact Table.contains_erase hc (hm m (mem_members_iff.mpr ⟨v, g, hv, hmem⟩)).symm
  rule a r ha := by
    obtain ⟨hd, hc⟩ := h.rule a r ha
    refine ⟨hd, Table.contains_erase hc ?_⟩
    intro he
    subst he
    rw [hr] at ha
    cases ha
  nat := h.nat
  endpoint a e he := h.endpoint a e (Table.get?_erase_cases he).2

theorem Intact.change {op : Op} {c : Bool} (h : t.Intact) (hc : t.Change op t' c) : t'.Intact := by
  cases hc with
  | groupThere | boundAlready => exact h
  | groupCreated hn => exact h.setGroup (.empty hn)
  | groupDeleted hg hm hn =>
    refine ⟨fun v g hv => h.group v g (Table.get?_erase_cases hv).2, h.rule, ?_, h.endpoint⟩
    intro port v hv
    refine Table.contains_erase (h.nat port v hv) ?_
    intro he
    subst he
    exact hn port hv
  | endpointPut => exact h.putEndpoint rfl
  | endpointRemoved _ hm hr => exact h.removeEndpoint hm hr
  | rebound ha hg hs => exact h.setGroup ((h.group _ _ hg).setSlot_some hs rfl ha)
  | bound ha hg =>
    refine h.setGroup ((h.group _ _ hg).setSlot ?_)
    intro _ hm
    cases hm
    exact ⟨rfl, ha⟩
  | unbound hg =>
    refine h.setGroup ((h.group _ _ hg).setSlot ?_)
    intro m hm
    cases hm
  | activeSet hg hs =>
    exact h.setGroup ((h.group _ _ hg).setSlot_some hs rfl ((h.group _ _ hg).slot _ _ hs).2)
  | rulePut he => exact h.putRule he
  | ruleRemoved =>
    exact ⟨h.group, fun a r hr => h.rule a r (Table.get?_erase_cases hr).2, h.nat, h.endpoint⟩
  | natPut hv =>
    refine ⟨h.group, h.rule, ?_, h.endpoint⟩
    intro port v hp
    rcases Table.get?_insert_cases hp with ⟨-, rfl⟩ | ⟨-, hp⟩
    · exact hv
    · exact h.nat port v hp
  | natDeleted =>
    exact ⟨h.group, h.rule, fun port v hp => h.nat port v (Table.get?_erase_cases hp).2, h.endpoint⟩

theorem Intact.leads {ops : List Op} (h : t.Intact) (hl : t.Leads ops t') : t'.Intact := by
  induction hl with
  | nil => exact h
  | cons hc _ ih => exact ih (h.change hc)

def capacity? (t : Tables) (vip : Addr) : Option UInt16 := (t.groups.get? vip).map Group.capacity

end Tables

def Op.capacityAfter (vip : Addr) (before : Option UInt16) : Op → Option UInt16
  | .createGroup v n => if v = vip then before <|> some n else before
  | .deleteGroup v => if v = vip then none else before
  | _ => before

/-- What a group was created with by operations from empty tables on, unless it was deleted since. -/
def Op.openedWith (vip : Addr) (ops : List Op) : Option UInt16 := ops.foldl (Op.capacityAfter vip) none

namespace Tables

variable {t t' : Tables}

theorem capacity?_setGroup (t : Tables) (v vip : Addr) (g : Group) :
    (t.setGroup v g).capacity? vip = if v = vip then some g.capacity else t.capacity? vip := by
  simp only [capacity?, setGroup]
  split
  · next h => simp [h]
  · next h => rw [Table.get?_insert_of_ne h]

theorem capacity?_setSlot {v : Addr} {g : Group} (hg : t.groups.get? v = some g) (i : UInt16)
    (s : Option Member) (vip : Addr) : (t.setGroup v (g.setSlot i s)).capacity? vip = t.capacity? vip := by
  rw [capacity?_setGroup]
  split
  · next h => simp [capacity?, ← h, hg]
  · rfl

theorem Change.capacity? {op : Op} {c : Bool} (h : t.Change op t' c) (vip : Addr) :
    t'.capacity? vip = op.capacityAfter vip (t.capacity? vip) := by
  cases h with
  | @groupThere g v _ hg =>
    simp only [Op.capacityAfter]
    split
    · next h => simp [Tables.capacity?, ← h, hg]
    · rfl
  | @groupCreated n v _ hv =>
    simp only [Op.capacityAfter, capacity?_setGroup, Group.capacity_empty]
    split
    · next h => simp [Tables.capacity?, ← h, hv]
    · rfl
  | @groupDeleted v =>
    simp only [Op.capacityAfter, Tables.capacity?]
    split
    · next h => simp [h]
    · next h => rw [Table.get?_erase_of_ne h]
  | rebound _ hg => exact capacity?_setSlot hg ..
  | bound _ hg => exact capacity?_setSlot hg ..
  | unbound hg => exact capacity?_setSlot hg ..
  | activeSet hg => exact capacity?_setSlot hg ..
  | _ => rfl

theorem Leads.capacity? {ops : List Op} (h : t.Leads ops t') (vip : Addr) :
    t'.capacity? vip = ops.foldl (Op.capacityAfter vip) (t.capacity? vip) := by
  induction h with
  | nil => rfl
  | cons hc _ ih => rw [ih, hc.capacity?, List.foldl_cons]

end Tables

namespace Store

variable {s : Store}

theorem History.intact {ops : List Op} (h : s.History ops) : s.tables.Intact := Tables.Intact.empty.leads h.leads

theorem intact_act (h : s.tables.Intact) (a : Action) : (s.act a).tables.Intact := h.leads (leads_act s a)

theorem intact_foldl {as : List Action} (h : s.tables.Intact) : (as.foldl act s).tables.Intact :=
  foldl_induction (P := fun s => s.tables.Intact) (fun _ a (_ : True) h => intact_act h a)
    (fun _ _ => trivial) h

end Store

/-- Whatever a store went through, its tables are intact, and its groups are those that were created and not
deleted since, each with the capacity that it was created with. -/
theorem tables_intact_of_history {ops : List Op} {s : Store} (h : s.History ops) :
    s.tables.Intact ∧ ∀ vip, s.tables.capacity? vip = Op.openedWith vip ops :=
  ⟨Tables.Intact.empty.leads h.leads, fun vip => h.leads.capacity? vip⟩

theorem tables_intact_after_refusal :
    let e : Endpoint := ⟨⟨⟨10⟩, ⟨.replicate 6 1⟩⟩, "a", 1, "web"⟩
    let s := (Store.empty.act (.write none ⟨[.createGroup ⟨1⟩ 2, .putEndpoint e, .bind ⟨1⟩ 0 ⟨10⟩,
      .putNat 80 ⟨1⟩]⟩)).act (.write none ⟨[.unbind ⟨1⟩ 0, .deleteGroup ⟨1⟩]⟩)
    s.tables.occupant? ⟨1⟩ 0 = some ⟨10⟩ ∧ s.tables.Intact ∧ s.tables.capacity? ⟨1⟩ = some 2 := by
  intro e s
  have h : s.History _ := .act _ (.act _ .empty)
  exact ⟨by decide, (tables_intact_of_history h).1, by rw [(tables_intact_of_history h).2]; decide⟩

end LiveMigration
