import LiveMigration.Proofs.Forwarding.Isolation

namespace LiveMigration

/-- An endpoint, and how a flow came to it. -/
structure Hop where
  vip : Option Addr
  memberIndex : Option UInt16
  endpoint : Addr
  deriving DecidableEq, Repr

namespace Hop

def direct (addr : Addr) : Hop := ⟨none, none, addr⟩

def slot (vip : Addr) (index : UInt16) (endpoint : Addr) : Hop := ⟨some vip, some index, endpoint⟩

def along (h : Hop) (r : Rule) : Resolution := ⟨h.vip, h.memberIndex, h.endpoint, r.egress, r.mac⟩

def rebound (h : Hop) (vip : Addr) (index : UInt16) (endpoint : Addr) : Hop :=
  if h.vip = some vip ∧ h.memberIndex = some index then { h with endpoint } else h

end Hop

def Group.serving? (g : Group) (hash : UInt32) : Option Member :=
  (Selection.select hash g.eligible).bind fun index => (g.slots[index]?).bind id

namespace Group

variable {g : Group} {vip addr : Addr} {i : UInt16} {m m' : Member}

theorem eligible_setSlot (hs : g.slots[i.toNat]? = some (some m)) (ha : m'.active = m.active) :
    (g.setSlot i (some m')).eligible = g.eligible := by
  apply List.ext_getElem?
  intro j
  simp only [eligible, List.getElem?_map, slots_setSlot]
  split
  · rename_i hj
    subst hj
    simp [hs, ha]
  · rfl

theorem serving?_rebound (hg : g.Sound endpoints vip) (hs : g.slots[i.toNat]? = some (some m))
    (hash : UInt32) : (g.setSlot i (some { m with endpoint := addr })).serving? hash =
      (g.serving? hash).map fun n => if n.index = i then { m with endpoint := addr } else n := by
  have heligible : (g.setSlot i (some { m with endpoint := addr })).eligible = g.eligible :=
    eligible_setSlot hs (by rfl)
  simp only [serving?, heligible]
  cases Selection.select hash g.eligible with
  | none => rfl
  | some j =>
    simp only [Option.bind_some, slots_setSlot]
    split
    · rename_i hj
      subst hj
      have hm : m.index = i := UInt16.toNat_inj.1 (hg.slot _ _ hs).1
      simp [hs, hm]
    · rename_i hj
      cases hn : (g.slots[j]?).bind id with
      | none => rfl
      | some n =>
        obtain ⟨_, hn, rfl⟩ := Option.bind_eq_some_iff.1 hn
        have hne : n.index ≠ i := by
          rintro rfl
          exact hj (hg.slot _ _ hn).1
        simp [hne]

end Group

namespace Tables

variable {t t' : Tables} {vip addr : Addr} {i : UInt16} {flow : FiveTuple}

def hop? (t : Tables) (flow : FiveTuple) : Option Hop :=
  match t.groups.get? flow.dstAddr with
  | some g => (g.serving? flow.hash).map fun m => .slot g.vip m.index m.endpoint
  | none => some (.direct flow.dstAddr)

theorem resolve?_eq (h : t.Intact) (flow : FiveTuple) : t.resolve? flow =
    (t.hop? flow).bind fun hop => (t.rules.get? hop.endpoint).map hop.along := by
  cases hg : t.groups.get? flow.dstAddr with
  | some g =>
    simp only [resolve?, hop?, hg, Group.serving?, Option.bind_eq_bind]
    cases Selection.select flow.hash g.eligible with
    | none => rfl
    | some index =>
      simp only [Option.bind_some]
      cases (g.slots[index]?).bind id with
      | none => rfl
      | some m =>
        simp only [Option.bind_some, Option.map_some, Hop.slot]
        cases t.rules.get? m.endpoint with
        | none => rfl
        | some r => rfl
  | none =>
    simp only [resolve?, hop?, hg, Option.bind_some, Hop.direct]
    cases hr : t.rules.get? flow.dstAddr with
    | none => rfl
    | some r =>
      have hd : r.destination = flow.dstAddr := (h.rule _ _ hr).1
      simp [Hop.along, hd]

theorem resolve?_congr (h : t.Intact) (h' : t'.Intact) (hh : t'.hop? flow = t.hop? flow)
    (hr : ∀ hop, t.hop? flow = some hop → t'.rules.get? hop.endpoint = t.rules.get? hop.endpoint) :
    t'.resolve? flow = t.resolve? flow := by
  rw [resolve?_eq h, resolve?_eq h', hh]
  cases hf : t.hop? flow with
  | none => rfl
  | some hop => simp only [Option.bind_some, hr hop hf]

theorem hop?_cases (h : t.Intact) (hh : t.hop? flow = some hop) : hop = .direct flow.dstAddr ∨
    ∃ vip g i m, hop = .slot vip i m.endpoint ∧ t.groups.get? vip = some g ∧
      g.slots[i.toNat]? = some (some m) := by
  simp only [hop?] at hh
  split at hh
  · rename_i g hg
    obtain ⟨m, hm, rfl⟩ := Option.map_eq_some_iff.1 hh
    obtain ⟨j, -, hj⟩ := Option.bind_eq_some_iff.1 hm
    obtain ⟨_, hj, rfl⟩ := Option.bind_eq_some_iff.1 hj
    have hsound := h.group _ _ hg
    have hi : m.index.toNat = j := (hsound.slot j m hj).1
    subst hi
    rw [hsound.vip]
    exact .inr ⟨_, g, m.index, m, rfl, hg, hj⟩
  · cases hh
    exact .inl rfl

theorem Change.rebound_of_member {g : Group} {m : Member} (h : t.Change (.bind vip i addr) t' c)
    (hg : t.groups.get? vip = some g) (hs : g.slots[i.toNat]? = some (some m))
    (hne : m.endpoint ≠ addr) :
    t' = t.setGroup vip (g.setSlot i (some { m with endpoint := addr })) := by
  cases h with
  | boundAlready _ hg' hs' =>
    cases hg.symm.trans hg'
    cases hs.symm.trans hs'
    exact absurd rfl hne
  | rebound _ hg' hs' =>
    cases hg.symm.trans hg'
    cases hs.symm.trans hs'
    rfl
  | bound _ hg' hs' =>
    cases hg.symm.trans hg'
    cases hs.symm.trans hs'

/-- Another endpoint in a slot changes the way of the flows of this slot, and of no others. -/
theorem hop?_rebound {g : Group} {m : Member} (h : t.Intact) (hg : t.groups.get? vip = some g)
    (hs : g.slots[i.toNat]? = some (some m)) (flow : FiveTuple) :
    (t.setGroup vip (g.setSlot i (some { m with endpoint := addr }))).hop? flow =
      (t.hop? flow).map fun hop => hop.rebound vip i addr := by
  have hsound := h.group vip g hg
  by_cases hv : vip = flow.dstAddr
  · subst hv
    simp only [hop?, setGroup, Table.get?_insert_self, hg]
    rw [Group.serving?_rebound hsound hs, Option.map_map, Option.map_map]
    congr 1
    funext n
    by_cases hn : n.index = i
    · have hm : m.index = i := UInt16.toNat_inj.1 (hsound.slot _ _ hs).1
      simp [Hop.rebound, Hop.slot, Group.setSlot, hsound.vip, hn, hm]
    · simp [Hop.rebound, Hop.slot, Group.setSlot, hn]
  · have hnew : (t.setGroup vip (g.setSlot i (some { m with endpoint := addr }))).groups.get?
        flow.dstAddr = t.groups.get? flow.dstAddr := Table.get?_insert_of_ne hv
    simp only [hop?, hnew]
    cases hf : t.groups.get? flow.dstAddr with
    | none => rfl
    | some g' =>
      have hvip : g'.vip ≠ vip := by
        rw [(h.group _ _ hf).vip]
        exact Ne.symm hv
      simp [Option.map_map, Function.comp_def, Hop.rebound, Hop.slot, hvip]

end Tables

end LiveMigration
