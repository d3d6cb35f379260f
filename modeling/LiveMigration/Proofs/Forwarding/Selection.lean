import LiveMigration.Proofs.Forwarding.Report
import LiveMigration.Proofs.Forwarding.Service

namespace LiveMigration

namespace Selection

variable {hash : UInt32} {eligible : List Bool}

theorem select_eq_home (h : eligible[homeOf hash eligible.length]? = some true) :
    select hash eligible = some (homeOf hash eligible.length) := by
  have hlen : eligible.length ≠ 0 := by
    have := (List.getElem?_eq_some_iff.1 h).1
    omega
  simp only [select, if_neg hlen, if_pos h]

theorem select_eq_none_iff : select hash eligible = none ↔ ∀ i : Nat, eligible[i]? ≠ some true := by
  constructor
  · intro hn i hi
    obtain ⟨j, hj⟩ : ∃ j, select hash eligible = some j := exists_select hi
    cases hn.symm.trans hj
  · intro h
    rw [Option.eq_none_iff_forall_ne_some]
    intro i hi
    exact h i (eligible_of_select hi)

end Selection

namespace Group

variable {g g' : Group} {hash : UInt32} {vip : Addr} {flow : FiveTuple}

def selected? (g : Group) (hash : UInt32) : Option Nat := Selection.select hash g.eligible

def ActiveAt (g : Group) (j : Nat) : Prop := ∃ m, g.slots[j]? = some (some m) ∧ m.active = true

theorem serving?_eq (g : Group) (hash : UInt32) :
    g.serving? hash = (g.selected? hash).bind fun j => (g.slots[j]?).bind id := rfl

@[simp] theorem length_eligible (g : Group) : g.eligible.length = g.slots.length := by simp [eligible]

theorem activeAt_of_selected {j : Nat} (h : g.selected? hash = some j) : g.ActiveAt j :=
  eligible_eq_true.1 (Selection.eligible_of_select h)

theorem selected?_eq_none_iff : g.selected? hash = none ↔ ∀ m ∈ g.members, m.active = false := by
  rw [selected?, Selection.select_eq_none_iff]
  constructor
  · intro h m hm
    obtain ⟨j, hj⟩ := mem_members_iff.1 hm
    rw [Bool.eq_false_iff]
    exact fun ha => h j (eligible_eq_true.2 ⟨m, hj, ha⟩)
  · intro h j hj
    obtain ⟨m, hm, ha⟩ := eligible_eq_true.1 hj
    rw [h m (mem_members_iff.2 ⟨j, hm⟩)] at ha
    cases ha

theorem Sound.homeSlot_eq (h : g.Sound endpoints vip) (flow : FiveTuple) :
    flow.homeSlot g.capacity = Selection.homeOf flow.hash g.slots.length := by
  have hlen : g.capacity.toNat = g.slots.length := UInt16.toNat_ofNat_of_lt' h.slots_lt
  have hpos := h.slots_pos
  rw [FiveTuple.homeSlot, hlen, Nat.max_eq_left hpos]

/-- Whom a group selects for a flow. -/
structure Selects (g : Group) (flow : FiveTuple) : Prop where
  home : flow.homeSlot g.capacity = flow.hash.toNat % g.capacity.toNat
  stays : g.ActiveAt (flow.homeSlot g.capacity) → g.selected? flow.hash = some (flow.homeSlot g.capacity)
  spills : ∀ j, g.selected? flow.hash = some j → g.ActiveAt j
  fails_iff : g.selected? flow.hash = none ↔ ∀ m ∈ g.members, m.active = false

theorem Sound.selects (h : g.Sound endpoints vip) (flow : FiveTuple) : g.Selects flow where
  home := by
    have hlen : g.capacity.toNat = g.slots.length := UInt16.toNat_ofNat_of_lt' h.slots_lt
    rw [h.homeSlot_eq, Selection.homeOf, hlen]
  stays ha := by
    rw [h.homeSlot_eq, ← g.length_eligible] at ha ⊢
    exact Selection.select_eq_home (eligible_eq_true.2 ha)
  spills _ := activeAt_of_selected
  fails_iff := selected?_eq_none_iff

end Group

namespace Tables

variable {t u : Tables} {vip addr : Addr} {i : UInt16} {g : Group} {m : Member} {flow : FiveTuple}

def selected? (t : Tables) (vip : Addr) (flow : FiveTuple) : Option Nat :=
  (t.groups.get? vip).bind fun g => g.selected? flow.hash

theorem hop?_of_selected (h : t.Intact) (hg : t.groups.get? vip = some g)
    (hs : g.slots[i.toNat]? = some (some m)) (hf : flow.dstAddr = vip)
    (hi : g.selected? flow.hash = some i.toNat) : t.hop? flow = some (.slot vip i m.endpoint) := by
  have hsound := h.group vip g hg
  have hm : m.index = i := UInt16.toNat_inj.1 (hsound.slot _ _ hs).1
  simp [hop?, hf, hg, Group.serving?_eq, hi, hs, hsound.vip, hm]

theorem rebound_of_not_selected {hop : Hop} (h : t.Intact) (hg : t.groups.get? vip = some g)
    (hn : ¬(flow.dstAddr = vip ∧ g.selected? flow.hash = some i.toNat)) (hh : t.hop? flow = some hop) :
    hop.rebound vip i addr = hop := by
  rw [Hop.rebound, if_neg]
  rintro ⟨hv, hi⟩
  simp only [hop?] at hh
  split at hh
  · next g' hg' =>
    obtain ⟨n, hserving, rfl⟩ := Option.map_eq_some_iff.1 hh
    cases hv
    cases hi
    have hsound := h.group _ _ hg'
    rw [hsound.vip] at hg hn
    cases hg'.symm.trans hg
    obtain ⟨j, hj, hslot⟩ := Option.bind_eq_some_iff.1 hserving
    obtain ⟨_, hslot, rfl⟩ := Option.bind_eq_some_iff.1 hslot
    rw [(hsound.slot j n hslot).1] at hn
    exact hn ⟨rfl, hj⟩
  · cases hh
    cases hv

theorem resolve?_rebound (h : t.Intact) (h' : (t.setGroup vip (g.setSlot i (some { m with endpoint := addr }))).Intact)
    (hg : t.groups.get? vip = some g) (hs : g.slots[i.toNat]? = some (some m)) (flow : FiveTuple) :
    (t.setGroup vip (g.setSlot i (some { m with endpoint := addr }))).resolve? flow =
      if flow.dstAddr = vip ∧ g.selected? flow.hash = some i.toNat then
        (t.rules.get? addr).map (Hop.slot vip i addr).along
      else t.resolve? flow := by
  rw [resolve?_eq h', resolve?_eq h, hop?_rebound h hg hs]
  have hrules : (t.setGroup vip (g.setSlot i (some { m with endpoint := addr }))).rules = t.rules := rfl
  rw [hrules]
  split
  · next hsel =>
    rw [hop?_of_selected h hg hs hsel.1 hsel.2]
    simp [Hop.rebound, Hop.slot]
  · next hsel =>
    congr 1
    cases hh : t.hop? flow with
    | none => rfl
    | some hop => rw [Option.map_some, rebound_of_not_selected h hg hsel hh]

theorem selected?_rebound (hg : t.groups.get? vip = some g) (hs : g.slots[i.toNat]? = some (some m))
    (v : Addr) (flow : FiveTuple) :
    (t.setGroup vip (g.setSlot i (some { m with endpoint := addr }))).selected? v flow =
      t.selected? v flow := by
  by_cases hv : vip = v
  · subst hv
    have heligible : (g.setSlot i (some { m with endpoint := addr })).eligible = g.eligible :=
      Group.eligible_setSlot hs rfl
    simp [selected?, setGroup, hg, Group.selected?, heligible]
  · simp only [selected?, setGroup, Table.get?_insert_of_ne hv]

theorem Change.rebind {c : Bool} (h : t.Change (.bind vip i addr) u c) (hg : t.groups.get? vip = some g)
    (hs : g.slots[i.toNat]? = some (some m)) :
    u = t.setGroup vip (g.setSlot i (some { m with endpoint := addr })) := by
  by_cases hm : m.endpoint = addr
  · cases h with
    | boundAlready _ hg' hs' =>
      cases hg.symm.trans hg'
      cases hs.symm.trans hs'
      exact ((setSlot_eq_self hg hs).2 rfl).symm
    | rebound _ hg' hs' hne =>
      cases hg.symm.trans hg'
      cases hs.symm.trans hs'
      exact absurd hm hne
    | bound _ hg' hs' =>
      cases hg.symm.trans hg'
      cases hs.symm.trans hs'
  · exact h.rebound_of_member hg hs hm

theorem Leads.group_of_undeleted {ops : List Op} (h : t.Leads ops u) (hg : t.groups.get? vip = some g)
    (hd : .deleteGroup vip ∉ ops) : ∃ g', u.groups.get? vip = some g' ∧ g'.capacity = g.capacity := by
  have hfold : ∀ {ops : List Op}, .deleteGroup vip ∉ ops →
      ops.foldl (Op.capacityAfter vip) (some g.capacity) = some g.capacity := by
    intro ops
    induction ops with
    | nil => intro _; rfl
    | cons op ops ih =>
      intro hd
      rw [List.mem_cons, not_or] at hd
      have hop : op.capacityAfter vip (some g.capacity) = some g.capacity := by
        cases op with
        | createGroup v n => simp [Op.capacityAfter]
        | deleteGroup v =>
          have hv : v ≠ vip := fun e => hd.1 (by rw [e])
          simp [Op.capacityAfter, hv]
        | _ => rfl
      rw [List.foldl_cons, hop, ih hd.2]
  have hc : u.capacity? vip = some g.capacity := by
    rw [h.capacity?, Tables.capacity?, hg, Option.map_some, hfold hd]
  exact Option.map_eq_some_iff.1 hc

theorem hop?_of_home {g' : Group} {j : Nat} (h : t.Intact) (h' : u.Intact)
    (hg : t.groups.get? flow.dstAddr = some g) (hg' : u.groups.get? flow.dstAddr = some g')
    (hj : g.selected? flow.hash = some j) (hj' : g'.selected? flow.hash = some j)
    (hs : g'.slots[j]? = g.slots[j]?) : u.hop? flow = t.hop? flow := by
  have hv := (h.group _ _ hg).vip
  have hv' := (h'.group _ _ hg').vip
  simp [hop?, hg, hg', Group.serving?_eq, hj, hj', hs, hv, hv']

end Tables

namespace Store

variable {s s' : Store} {ops more : List Op} {vip addr : Addr} {i : UInt16} {g : Group} {m : Member}
  {holder : Option JobId} {c : Bool}

theorem rebind_of_applyAs (h : s.applyAs holder ⟨[.bind vip i addr]⟩ = .ok (s', c))
    (hg : s.tables.groups.get? vip = some g) (hs : g.slots[i.toNat]? = some (some m)) :
    s'.tables = s.tables.setGroup vip (g.setSlot i (some { m with endpoint := addr })) := by
  obtain ⟨t, hp, ht⟩ := performed_of_applyAs h
  obtain ⟨⟨u, c'⟩, ha, hp⟩ := Except.bind_eq_ok.1 hp
  cases hp
  rw [← (Tables.change_of_apply ha).rebind hg hs]
  refine ht.2 (.inr ?_)
  rintro ⟨r, -, hr, -⟩
  simp at hr

/-- Another endpoint in an occupied slot takes over the flows that the slot is selected for: from then on they
go by the slot to that endpoint along its rule, or nowhere if it has none, and all other flows go where they
went. The slot stays as active as it was, and the same slots are selected as before. -/
theorem slot_flows_handed_over (h : s.History ops) (hg : s.tables.groups.get? vip = some g)
    (hm : g.member? i = some m) (hb : s.applyAs holder ⟨[.bind vip i addr]⟩ = .ok (s', c)) :
    (∀ flow, s'.tables.resolve? flow =
      if flow.dstAddr = vip ∧ g.selected? flow.hash = some i.toNat then
        (s'.tables.rules.get? addr).map fun r => ⟨some vip, some i, addr, r.egress, r.mac⟩
      else s.tables.resolve? flow) ∧
    s'.tables.rules = s.tables.rules ∧
    (s'.tables.groups.get? vip).bind (·.member? i) = some { m with endpoint := addr } ∧
    ∀ v flow, s'.tables.selected? v flow = s.tables.selected? v flow := by
  have hs := Group.member?_eq_some.1 hm
  have ht := rebind_of_applyAs hb hg hs
  have hintact : s'.tables.Intact := by
    have hact := h.intact.leads (leads_published s holder ⟨[.bind vip i addr]⟩)
    rwa [hb] at hact
  rw [ht] at hintact ⊢
  refine ⟨Tables.resolve?_rebound h.intact hintact hg hs, rfl, ?_, Tables.selected?_rebound hg hs⟩
  simp [Tables.setGroup, Group.member?_setSlot hs]

theorem slot_flows_handed_over_with_spill :
    let e (addr : Addr) (egress : EgressPort) : Endpoint := ⟨⟨addr, ⟨.replicate 6 1⟩⟩, "a", egress, "web"⟩
    let ops : List Op := [.createGroup ⟨1⟩ 3, .putEndpoint (e ⟨10⟩ 1), .putRule ⟨⟨10⟩, 1, none⟩,
      .putEndpoint (e ⟨11⟩ 2), .putRule ⟨⟨11⟩, 2, none⟩, .bind ⟨1⟩ 0 ⟨10⟩, .bind ⟨1⟩ 1 ⟨10⟩,
      .setActive ⟨1⟩ 1 false]
    let s := empty.act (.write none ⟨ops⟩)
    let s' := s.act (.write none ⟨[.bind ⟨1⟩ 0 ⟨11⟩]⟩)
    let spilled := FiveTuple.tcp ⟨5⟩ 0 ⟨1⟩ 80
    let direct := FiveTuple.tcp ⟨5⟩ 0 ⟨10⟩ 80
    s.applyAs none ⟨[.bind ⟨1⟩ 0 ⟨11⟩]⟩ = .ok (s', true) ∧ spilled.homeSlot 3 = 2 ∧
      s.tables.resolve? spilled = some ⟨some ⟨1⟩, some 0, ⟨10⟩, 1, none⟩ ∧
      s'.tables.resolve? spilled = some ⟨some ⟨1⟩, some 0, ⟨11⟩, 2, none⟩ ∧
      s'.tables.resolve? direct = some ⟨none, none, ⟨10⟩, 1, none⟩ := by
  intro e ops s s' spilled direct
  have h : s.History ops := .of_write (by decide)
  have hb : s.applyAs none ⟨[.bind ⟨1⟩ 0 ⟨11⟩]⟩ = .ok (s', true) := by rfl
  have hg : s.tables.groups.get? ⟨1⟩ =
    some ⟨⟨1⟩, [some ⟨0, ⟨10⟩, true⟩, some ⟨1, ⟨10⟩, false⟩, none]⟩ := by rfl
  obtain ⟨hflows, -⟩ := slot_flows_handed_over h hg (i := 0) rfl hb
  refine ⟨hb, by decide +kernel, by decide +kernel, ?_, ?_⟩
  · rw [hflows, if_pos ⟨rfl, by decide +kernel⟩]
    rfl
  · rw [hflows, if_neg (by decide)]
    rfl

/-- While a group is there, whatever becomes of its slots, a flow has one home slot in it. An active member in
that slot serves the flow, else an active member in another slot does, if there is one. Between two states with
the home slot active the flow is not moved, and goes to the same endpoint if nothing was done to that slot. -/
theorem flow_kept_by_home {t : Tables} {flow : FiveTuple} (h : s.History ops)
    (hg : s.tables.groups.get? flow.dstAddr = some g) (hl : s.tables.Leads more t)
    (hd : .deleteGroup flow.dstAddr ∉ more) :
    ∃ g', t.groups.get? flow.dstAddr = some g' ∧
      flow.homeSlot g'.capacity = flow.homeSlot g.capacity ∧ g.Selects flow ∧ g'.Selects flow ∧
      (g.ActiveAt (flow.homeSlot g.capacity) → g'.ActiveAt (flow.homeSlot g.capacity) →
        t.selected? flow.dstAddr flow = s.tables.selected? flow.dstAddr flow ∧
        (g'.slots[flow.homeSlot g.capacity]? = g.slots[flow.homeSlot g.capacity]? →
          t.hop? flow = s.tables.hop? flow)) := by
  obtain ⟨g', hg', hc⟩ := hl.group_of_undeleted hg hd
  have hintact := h.intact.leads hl
  have hselects := (h.intact.group _ _ hg).selects flow
  have hselects' := (hintact.group _ _ hg').selects flow
  refine ⟨g', hg', by rw [hc], hselects, hselects', fun ha ha' => ?_⟩
  have hhome := hselects.stays ha
  have hhome' := hselects'.stays (hc ▸ ha')
  rw [hc] at hhome'
  refine ⟨?_, Tables.hop?_of_home h.intact hintact hg hg' hhome hhome'⟩
  simp [Tables.selected?, hg, hg', hhome, hhome']

theorem flow_kept_by_home_beside_changes :
    let e (addr : Addr) : Endpoint := ⟨⟨addr, ⟨.replicate 6 1⟩⟩, "a", 1, "web"⟩
    let ops : List Op := [.createGroup ⟨1⟩ 3, .putEndpoint (e ⟨10⟩), .putEndpoint (e ⟨11⟩), .bind ⟨1⟩ 0 ⟨10⟩,
      .bind ⟨1⟩ 1 ⟨10⟩, .bind ⟨1⟩ 2 ⟨11⟩]
    let more : List Op := [.unbind ⟨1⟩ 0, .setActive ⟨1⟩ 1 false, .bind ⟨1⟩ 0 ⟨11⟩]
    let s := empty.act (.write none ⟨ops⟩)
    let t := (s.act (.write none ⟨more⟩)).tables
    let flow := FiveTuple.tcp ⟨5⟩ 0 ⟨1⟩ 80
    let before : Group := ⟨⟨1⟩, [some ⟨0, ⟨10⟩, true⟩, some ⟨1, ⟨10⟩, true⟩, some ⟨2, ⟨11⟩, true⟩]⟩
    let after : Group := ⟨⟨1⟩, [some ⟨0, ⟨11⟩, true⟩, some ⟨1, ⟨10⟩, false⟩, some ⟨2, ⟨11⟩, true⟩]⟩
    s.tables.groups.get? ⟨1⟩ = some before ∧ s.tables.Leads more t ∧ .deleteGroup ⟨1⟩ ∉ more ∧
      t.groups.get? ⟨1⟩ = some after ∧ after.Selects flow ∧ after.selected? flow.hash = some 2 ∧
      t.hop? flow = some (.slot ⟨1⟩ 2 ⟨11⟩) := by
  intro e ops more s t flow before after
  have h : s.History ops := .of_write (by decide)
  have hl : s.tables.Leads more t := s.leads_act (.write none ⟨more⟩)
  have hbefore : s.tables.groups.get? ⟨1⟩ = some before := by rfl
  have hafter : t.groups.get? ⟨1⟩ = some after := by rfl
  have hhome : flow.homeSlot before.capacity = 2 := by decide +kernel
  obtain ⟨g', hg', -, -, hselects, hkept⟩ :=
    flow_kept_by_home h (show s.tables.groups.get? flow.dstAddr = some before from hbefore) hl (by decide)
  cases hafter.symm.trans hg'
  have hactive : after.ActiveAt (flow.homeSlot after.capacity) := by
    rw [show after.capacity = before.capacity from rfl, hhome]
    exact ⟨_, rfl, rfl⟩
  rw [hhome] at hkept
  obtain ⟨-, hhop⟩ := hkept ⟨_, rfl, rfl⟩ ⟨_, rfl, rfl⟩
  refine ⟨hbefore, hl, by decide, hafter, hselects, (hselects.stays hactive).trans (congrArg some hhome), ?_⟩
  rw [hhop rfl]
  decide +kernel

end Store

end LiveMigration
