import Mathlib.Data.List.Nodup
import Mathlib.Data.List.Perm.Subperm
import LiveMigration.Forwarding.Provision
import LiveMigration.Proofs.Forwarding.Isolation
import LiveMigration.Proofs.Forwarding.Teardown

namespace LiveMigration

namespace Config

structure Sound (c : Config) : Prop where
  hostNames : (c.hosts.map Host.name).Nodup
  nodeHosts : ∀ n ∈ c.nodes, n.host ∈ c.hosts.map Host.name
  nodeAddrs : (c.nodes.map Node.addr).Nodup
  capacity_ne_zero : c.capacity ≠ 0
  index_lt : ∀ p ∈ c.members, p.1 < c.capacity
  indexes : (c.members.map Prod.fst).Nodup

theorem checkHosts_eq_ok {seen names : List HostName} {hosts : List Host}
    (h : checkHosts seen hosts = .ok names) :
    (∀ name, name ∈ names ↔ name ∈ hosts.map Host.name ∨ name ∈ seen) ∧
      (hosts.map Host.name).Nodup ∧ ∀ name ∈ hosts.map Host.name, name ∉ seen := by
  induction hosts generalizing seen with
  | nil =>
    cases h
    simp
  | cons host hosts ih =>
    simp only [checkHosts] at h
    split at h
    · cases h
    · next hs =>
      replace hs : host.name ∉ seen := by simpa using hs
      obtain ⟨hmem, hnodup, hnew⟩ := ih h
      simp only [List.mem_cons, not_or] at hmem hnew
      refine ⟨fun name => ?_, ?_, ?_⟩
      · rw [hmem, List.map_cons, List.mem_cons]
        exact ⟨fun h => by tauto, fun h => by tauto⟩
      · exact List.nodup_cons.2 ⟨fun hm => (hnew _ hm).1 rfl, hnodup⟩
      · rw [List.map_cons, List.forall_mem_cons]
        exact ⟨hs, fun name hm => (hnew name hm).2⟩

theorem checkNodes_eq_ok {names : List HostName} {seen : List Addr} {nodes : List Node}
    (h : checkNodes names seen nodes = .ok ()) :
    (∀ n ∈ nodes, n.host ∈ names) ∧ (nodes.map Node.addr).Nodup ∧
      ∀ addr ∈ nodes.map Node.addr, addr ∉ seen := by
  induction nodes generalizing seen with
  | nil => simp
  | cons n nodes ih =>
    simp only [checkNodes] at h
    split at h
    · cases h
    · next hn =>
      split at h
      · cases h
      · next hs =>
        replace hs : n.addr ∉ seen := by simpa using hs
        obtain ⟨hhosts, hnodup, hnew⟩ := ih h
        simp only [List.mem_cons, not_or] at hnew
        refine ⟨?_, ?_, ?_⟩
        · rw [List.forall_mem_cons]
          exact ⟨by simpa using hn, hhosts⟩
        · exact List.nodup_cons.2 ⟨fun hm => (hnew _ hm).1 rfl, hnodup⟩
        · rw [List.map_cons, List.forall_mem_cons]
          exact ⟨hs, fun addr hm => (hnew addr hm).2⟩

theorem checkMembers_eq_ok {capacity : UInt16} {seen : List UInt16} {members : List (UInt16 × Node)}
    (h : checkMembers capacity seen members = .ok ()) :
    (∀ p ∈ members, p.1 < capacity) ∧ (members.map Prod.fst).Nodup ∧
      ∀ i ∈ members.map Prod.fst, i ∉ seen := by
  induction members generalizing seen with
  | nil => simp
  | cons p members ih =>
    obtain ⟨i, n⟩ := p
    simp only [checkMembers] at h
    split at h
    · cases h
    · next hi =>
      split at h
      · cases h
      · next hs =>
        replace hs : i ∉ seen := by simpa using hs
        obtain ⟨hlt, hnodup, hnew⟩ := ih h
        simp only [List.mem_cons, not_or] at hnew
        refine ⟨?_, ?_, ?_⟩
        · rw [List.forall_mem_cons]
          exact ⟨UInt16.not_le.1 hi, hlt⟩
        · exact List.nodup_cons.2 ⟨fun hm => (hnew _ hm).1 rfl, hnodup⟩
        · rw [List.map_cons, List.forall_mem_cons]
          exact ⟨hs, fun j hm => (hnew j hm).2⟩

theorem sound_of_validate {c : Config} (h : c.validate = .ok ()) : c.Sound := by
  obtain ⟨names, hhosts, h⟩ := Except.bind_eq_ok.1 h
  obtain ⟨_, hnodes, h⟩ := Except.bind_eq_ok.1 h
  obtain ⟨hnames, hnodup, -⟩ := checkHosts_eq_ok hhosts
  obtain ⟨hhost, haddrs, -⟩ := checkNodes_eq_ok hnodes
  have hcapacity : c.capacity ≠ 0 := by
    rintro h0
    simp only [h0, if_pos] at h
    cases h
  rw [if_neg hcapacity] at h
  obtain ⟨_, hmembers, -⟩ := Except.bind_eq_ok.1 h
  obtain ⟨hlt, hindexes, -⟩ := checkMembers_eq_ok hmembers
  refine ⟨hnodup, fun n hn => ?_, haddrs, hcapacity, hlt, hindexes⟩
  simpa using (hnames n.host).1 (hhost n hn)

def slotOf (n : Node) (position : Nat) : Nat := (n.memberIndex.map UInt16.toNat).getD position

namespace Sound

variable {c : Config}

theorem length_memberNodes_le (h : c.Sound) : c.memberNodes.length ≤ c.capacity.toNat := by
  have hnodup : (c.members.map fun p => p.1.toNat).Nodup := by
    have hmap : (c.members.map fun p => p.1.toNat) = (c.members.map Prod.fst).map UInt16.toNat := by simp
    rw [hmap]
    exact List.Nodup.map (fun _ _ => UInt16.toNat.inj) h.indexes
  have hsub : (c.members.map fun p => p.1.toNat) ⊆ List.range c.capacity.toNat := by
    intro i hi
    obtain ⟨p, hp, rfl⟩ := List.mem_map.1 hi
    exact List.mem_range.2 (h.index_lt p hp)
  simpa [members] using (hnodup.subperm hsub).length_le

theorem position_lt (h : c.Sound) {n : Node} {p : Nat} (hp : c.memberNodes[p]? = some n) :
    p < UInt16.size := by
  have hlt := (List.getElem?_eq_some_iff.1 hp).1
  have hle := h.length_memberNodes_le
  have hsize := c.capacity.toNat_lt_size
  omega

theorem mem_members_iff (h : c.Sound) {i : UInt16} {n : Node} : (i, n) ∈ c.members ↔
    ∃ p, c.memberNodes[p]? = some n ∧ slotOf n p = i.toNat := by
  simp only [members, List.mem_map, Prod.exists, Prod.mk.injEq, List.mk_mem_zipIdx_iff_getElem?]
  constructor
  · rintro ⟨n', p, hp, rfl, rfl⟩
    refine ⟨p, hp, ?_⟩
    cases hi : n'.memberIndex with
    | none => simp [slotOf, hi, UInt16.toNat_ofNat_of_lt' (h.position_lt hp)]
    | some i => simp [slotOf, hi]
  · rintro ⟨p, hp, hi⟩
    refine ⟨n, p, hp, UInt16.toNat_inj.1 ?_, rfl⟩
    rw [← hi]
    cases hm : n.memberIndex with
    | none => simp [slotOf, hm, UInt16.toNat_ofNat_of_lt' (h.position_lt hp)]
    | some i => simp [slotOf, hm]

theorem capacity_of_default (h : c.Sound) (hs : c.slots = none) :
    c.capacity.toNat = max c.memberNodes.length 1 := by
  have hle := h.length_memberNodes_le
  have hsize := c.capacity.toNat_lt_size
  have hcapacity : c.capacity = UInt16.ofNat (max c.memberNodes.length 1) := by simp [capacity, hs]
  have hlt : max c.memberNodes.length 1 < UInt16.size := by
    have hone : 1 < UInt16.size := by decide
    omega
  rw [hcapacity, UInt16.toNat_ofNat_of_lt' hlt]

theorem find?_host (h : c.Sound) {name : HostName} {host : Host} :
    c.inventory.find? name = some host ↔ host ∈ c.hosts ∧ host.name = name := by
  constructor
  · intro hf
    have hmem := List.mem_of_find?_eq_some hf
    exact ⟨List.mem_reverse.1 hmem, by simpa using List.find?_some hf⟩
  · rintro ⟨hm, rfl⟩
    cases hf : c.inventory.find? host.name with
    | none => simpa using List.find?_eq_none.1 hf host (List.mem_reverse.2 hm)
    | some host' =>
      have hmem : host' ∈ c.hosts := List.mem_reverse.1 (List.mem_of_find?_eq_some hf)
      have hname : host'.name = host.name := by simpa using List.find?_some hf
      rw [List.inj_on_of_nodup_map h.hostNames hmem hm hname]

end Sound

end Config

abbrev Seat := Node × Host

namespace Seat

def endpoint (p : Seat) : Endpoint := p.1.endpoint p.2

def rule (p : Seat) : Rule := ⟨p.1.addr, p.2.egress, some p.1.mac⟩

def ops (p : Seat) : List Op := [.putEndpoint p.endpoint, .putRule p.rule]

end Seat

theorem Config.nodeOps_eq_ok {inventory : Inventory} {nodes : List Node}
    (h : ∀ n ∈ nodes, ∃ host, inventory.find? n.host = some host) :
    ∃ seats : List Seat, seats.map Prod.fst = nodes ∧
      (∀ p ∈ seats, inventory.find? p.1.host = some p.2) ∧
      nodeOps inventory nodes = .ok (seats.flatMap Seat.ops) := by
  induction nodes with
  | nil => exact ⟨[], rfl, nofun, rfl⟩
  | cons n nodes ih =>
    rw [List.forall_mem_cons] at h
    obtain ⟨host, hhost⟩ := h.1
    obtain ⟨seats, hseats, hfound, hops⟩ := ih h.2
    refine ⟨(n, host) :: seats, by rw [List.map_cons, hseats], ?_, ?_⟩
    · rw [List.forall_mem_cons]
      exact ⟨hhost, hfound⟩
    · rw [nodeOps, Inventory.get, hhost, hops]
      rfl

namespace Tables

variable {t u : Tables} {vip : Addr} {g : Group}

def seated (t : Tables) (seats : List Seat) : Tables :=
  { t with
    endpoints := (seats.map fun p => (p.1.addr, p.endpoint)).foldl (fun t e => t.insert e.1 e.2) t.endpoints
    rules := (seats.map fun p => (p.1.addr, p.rule)).foldl (fun t e => t.insert e.1 e.2) t.rules }

theorem perform_seats (seats : List Seat) (t : Tables) :
    t.perform (seats.flatMap Seat.ops) = .ok (t.seated seats) := by
  induction seats generalizing t with
  | nil => rfl
  | cons p seats ih =>
    have hput : t.apply (.putEndpoint p.endpoint) =
        .ok ({ t with endpoints := t.endpoints.insert p.1.addr p.endpoint },
          t.endpoints.get? p.1.addr ≠ some p.endpoint) := rfl
    have hrule : Tables.apply { t with endpoints := t.endpoints.insert p.1.addr p.endpoint } (.putRule p.rule) =
        .ok ({ t with
            endpoints := t.endpoints.insert p.1.addr p.endpoint
            rules := t.rules.insert p.1.addr p.rule }, t.rules.get? p.1.addr ≠ some p.rule) := by
      simp only [apply, putRule, Seat.rule, Table.get?_insert_self, Table.insert_insert]
      rfl
    rw [List.flatMap_cons, Seat.ops, List.cons_append, List.singleton_append, perform_cons hput,
      perform_cons hrule, ih]
    rfl

theorem perform_binds {members : List (UInt16 × Node)} (hg : t.groups.get? vip = some g)
    (hs : ∀ p ∈ members, g.slots[p.1.toNat]? = some none) (hn : (members.map Prod.fst).Nodup)
    (he : ∀ p ∈ members, t.endpoints.contains p.2.addr = true) :
    ∃ g', t.perform (members.map fun p => .bind vip p.1 p.2.addr) = .ok (t.setGroup vip g') ∧
      g'.vip = g.vip ∧ g'.slots.length = g.slots.length ∧
      ∀ i m, g'.member? i = some m ↔
        (∃ n, (i, n) ∈ members ∧ m = ⟨i, n.addr, true⟩) ∨ g.member? i = some m := by
  induction members generalizing t g with
  | nil => exact ⟨g, by rw [setGroup_eq_self.2 hg]; rfl, rfl, rfl, by simp⟩
  | cons p members ih =>
    obtain ⟨i, n⟩ := p
    rw [List.forall_mem_cons] at hs he
    obtain ⟨hi, hn⟩ := List.nodup_cons.1 hn
    have hbind : t.apply (.bind vip i n.addr) =
        .ok (t.setGroup vip (g.setSlot i (some ⟨i, n.addr, true⟩)), true) := by
      rw [apply, bind, he.1, group_eq_ok.2 hg]
      change (g.slot i >>= _) = _
      rw [Group.slot_eq_ok.2 hs.1]
      rfl
    -- The slots of the members that follow are empty still, since their indexes are different.
    have hothers : ∀ p ∈ members, (g.setSlot i (some ⟨i, n.addr, true⟩)).slots[p.1.toNat]? = some none := by
      intro p hp
      have hne : i.toNat ≠ p.1.toNat := by
        intro he
        exact hi (List.mem_map.2 ⟨p, hp, (UInt16.toNat_inj.1 he).symm⟩)
      rw [Group.slots_setSlot, if_neg hne]
      exact hs.2 p hp
    obtain ⟨g', hp, hvip, hlen, hmembers⟩ := ih
      (t := t.setGroup vip (g.setSlot i (some ⟨i, n.addr, true⟩))) (Table.get?_insert_self ..) hothers hn he.2
    refine ⟨g', ?_, hvip, by simpa using hlen, fun j m => ?_⟩
    · rw [List.map_cons, perform_cons hbind, hp, setGroup_setGroup]
    · rw [hmembers, Group.member?_setSlot hs.1]
      by_cases hj : i = j
      · subst hj
        have hempty : g.member? i = none := by simp [Group.member?, hs.1]
        have hgone : ∀ n', (i, n') ∉ members := fun n' hm => hi (List.mem_map.2 ⟨_, hm, rfl⟩)
        simp [hempty, hgone, eq_comm]
      · simp [hj, Ne.symm hj]

end Tables

namespace Store

theorem stage_of_perform {holder : Option JobId} {t u : Tables} {ops : List Op}
    (h : t.perform ops = .ok u) : ∃ c, stage ∅ holder t ops = .ok (u, c) := by
  induction ops generalizing t with
  | nil =>
    cases h
    exact ⟨false, rfl⟩
  | cons op ops ih =>
    obtain ⟨⟨t', c⟩, ha, h⟩ := Except.bind_eq_ok.1 h
    obtain ⟨more, hs⟩ := ih h
    have hl : checkLease ∅ holder (t.touched op) = .ok () := checkLease_eq_ok.2 nofun
    exact ⟨c || more, by simp only [stage, hl, ha, hs, bind, Except.bind, pure, Except.pure]⟩

theorem apply_of_perform {t t' u : Tables} {op : Op} {ops : List Op} (ha : t.apply op = .ok (t', true))
    (h : t'.perform ops = .ok u) : apply ⟨t, ∅⟩ ⟨op :: ops⟩ = .ok (⟨u, ∅⟩, true) := by
  obtain ⟨c, hs⟩ : ∃ c, stage ∅ none t' ops = .ok (u, c) := stage_of_perform h
  have hl : checkLease ∅ none (t.touched op) = .ok () := checkLease_eq_ok.2 nofun
  simp only [apply, applyAs, stage, hl, ha, hs, bind, Except.bind, pure, Except.pure, Bool.true_or, if_pos]

end Store

namespace Config

variable {c : Config}

/-- The tables that are written in a configuration, and nothing else. -/
structure Provisions (c : Config) (t : Tables) : Prop where
  group : ∃ g, t.groups = (∅ : Table Addr Group).insert c.vip g ∧ g.vip = c.vip ∧
    g.slots.length = c.capacity.toNat ∧ ∀ i m, g.member? i = some m ↔
      ∃ p n, c.memberNodes[p]? = some n ∧ slotOf n p = i.toNat ∧ m = ⟨i, n.addr, true⟩
  endpoint : ∀ addr e, t.endpoints.get? addr = some e ↔
    ∃ n ∈ c.nodes, ∃ h ∈ c.hosts, n.addr = addr ∧ h.name = n.host ∧ e = n.endpoint h
  rule : ∀ addr r, t.rules.get? addr = some r ↔
    ∃ n ∈ c.nodes, ∃ h ∈ c.hosts, n.addr = addr ∧ h.name = n.host ∧ r = ⟨addr, h.egress, some n.mac⟩
  nat : t.nat = (∅ : Table UInt16 Addr).insert c.servicePort c.vip

theorem Sound.seats (h : c.Sound) : ∃ seats : List Seat, seats.map Prod.fst = c.nodes ∧
    (∀ p, p ∈ seats ↔ p.1 ∈ c.nodes ∧ p.2 ∈ c.hosts ∧ p.2.name = p.1.host) ∧
    nodeOps c.inventory c.nodes = .ok (seats.flatMap Seat.ops) := by
  have hfind : ∀ n ∈ c.nodes, ∃ host, c.inventory.find? n.host = some host := by
    intro n hn
    obtain ⟨host, hm, hname⟩ := List.mem_map.1 (h.nodeHosts n hn)
    exact ⟨host, h.find?_host.2 ⟨hm, hname⟩⟩
  obtain ⟨seats, hseats, hfound, hops⟩ := nodeOps_eq_ok hfind
  refine ⟨seats, hseats, fun p => ⟨fun hp => ?_, ?_⟩, hops⟩
  · exact ⟨hseats ▸ List.mem_map_of_mem hp, h.find?_host.1 (hfound p hp)⟩
  · rintro ⟨hn, hhost⟩
    obtain ⟨q, hq, hqn⟩ := List.mem_map.1 (hseats.symm ▸ hn)
    have hhosts := (hfound q hq).symm.trans (hqn ▸ h.find?_host.2 hhost)
    rwa [Prod.ext hqn (Option.some.inj hhosts)] at hq

theorem Sound.get?_seats (h : c.Sound) {seats : List Seat} (hseats : seats.map Prod.fst = c.nodes)
    (f : Seat → ν) (addr : Addr) (x : ν) :
    ((seats.map fun p => (p.1.addr, f p)).foldl (fun t e => t.insert e.1 e.2) (∅ : Table Addr ν)).get? addr =
      some x ↔ ∃ p ∈ seats, p.1.addr = addr ∧ f p = x := by
  have hkeys : (seats.map fun p => (p.1.addr, f p)).map Prod.fst = c.nodes.map Node.addr := by
    simp [← hseats]
  have hnodup : ((seats.map fun p => (p.1.addr, f p)).map Prod.fst).Nodup := hkeys ▸ h.nodeAddrs
  rw [Table.get?_foldl_insert hnodup, Table.get?_empty, Option.or_none, ← Entries.mem_iff_find?_of_nodup hnodup]
  simp

theorem Sound.mem_nodes (h : c.Sound) {i : UInt16} {n : Node} (hm : (i, n) ∈ c.members) : n ∈ c.nodes := by
  obtain ⟨p, hp, -⟩ := h.mem_members_iff.1 hm
  exact (List.mem_filter.1 (List.mem_of_getElem? hp)).1

theorem Sound.perform_provision (h : c.Sound) : ∃ t' ops t,
    c.provisionBatch = .ok ⟨.createGroup c.vip c.capacity :: ops⟩ ∧
      Tables.empty.apply (.createGroup c.vip c.capacity) = .ok (t', true) ∧ t'.perform ops = .ok t ∧
      c.Provisions t := by
  obtain ⟨seats, hseats, hmem, hops⟩ := h.seats
  let t := (Tables.empty.setGroup c.vip (.empty c.vip c.capacity)).seated seats
  have hcreate : Tables.empty.apply (.createGroup c.vip c.capacity) =
      .ok (Tables.empty.setGroup c.vip (.empty c.vip c.capacity), true) := by
    simp only [Tables.apply, Tables.createGroup, if_neg h.capacity_ne_zero]
    rfl
  have hempty : ∀ p ∈ c.members, (Group.empty c.vip c.capacity).slots[p.1.toNat]? = some none := by
    intro p hp
    rw [Group.empty, List.getElem?_replicate, if_pos (UInt16.lt_iff_toNat_lt.1 (h.index_lt p hp))]
  have hendpoint : ∀ addr e, t.endpoints.get? addr = some e ↔
      ∃ p ∈ seats, p.1.addr = addr ∧ p.endpoint = e :=
    h.get?_seats hseats Seat.endpoint
  have hregistered : ∀ p ∈ c.members, t.endpoints.contains p.2.addr = true := by
    intro p hp
    obtain ⟨q, hq, hqn⟩ := List.mem_map.1 (hseats.symm ▸ h.mem_nodes hp)
    exact Option.isSome_iff_exists.2 ⟨_, (hendpoint _ _).2 ⟨q, hq, by rw [hqn], rfl⟩⟩
  -- The nodes are in the tables by then, so that each member can be bound to its empty slot.
  obtain ⟨g, hbinds, hvip, hlen, hmember⟩ :=
    Tables.perform_binds (t := t) (Table.get?_insert_self ..) hempty h.indexes hregistered
  have hnat : (t.setGroup c.vip g).apply (.putNat c.servicePort c.vip) =
      .ok ({ t.setGroup c.vip g with nat := t.nat.insert c.servicePort c.vip },
        t.nat.get? c.servicePort ≠ some c.vip) := by
    have hgroup : (t.setGroup c.vip g).groups.contains c.vip = true := Table.contains_insert_self
    rw [Tables.apply, Tables.putNat, hgroup]
    rfl
  let ops : List Op := seats.flatMap Seat.ops ++
    (c.members.map (fun p => .bind c.vip p.1 p.2.addr) ++ [.putNat c.servicePort c.vip])
  have hbatch : c.provisionBatch = .ok ⟨.createGroup c.vip c.capacity :: ops⟩ := by
    rw [provisionBatch, hops]
    change Except.ok _ = _
    rw [List.cons_append, List.cons_append, List.append_assoc]
  refine ⟨_, ops, { t.setGroup c.vip g with nat := t.nat.insert c.servicePort c.vip }, hbatch, hcreate, ?perform,
    ?group, ?endpoint, ?rule, rfl⟩
  case perform =>
    rw [Tables.perform_append (Tables.perform_seats ..), Tables.perform_append hbinds, Tables.perform_cons hnat]
    rfl
  case group =>
    refine ⟨g, Table.insert_insert, hvip, by simpa [Group.empty] using hlen, fun i m => ?_⟩
    simp only [hmember, Group.member?_empty, h.mem_members_iff, reduceCtorEq, or_false]
    constructor
    · rintro ⟨n, ⟨p, hp, hi⟩, hm⟩
      exact ⟨p, n, hp, hi, hm⟩
    · rintro ⟨p, n, hp, hi, hm⟩
      exact ⟨n, ⟨p, hp, hi⟩, hm⟩
  case endpoint =>
    intro addr e
    refine (hendpoint addr e).trans ?_
    simp only [Prod.exists, hmem, Seat.endpoint]
    constructor
    · rintro ⟨n, host, ⟨hn, hh, hname⟩, ha, he⟩
      exact ⟨n, hn, host, hh, ha, hname, he.symm⟩
    · rintro ⟨n, hn, host, hh, ha, hname, he⟩
      exact ⟨n, host, ⟨hn, hh, hname⟩, ha, he.symm⟩
  case rule =>
    intro addr r
    refine (h.get?_seats hseats Seat.rule addr r).trans ?_
    simp only [Prod.exists, hmem, Seat.rule]
    constructor
    · rintro ⟨n, host, ⟨hn, hh, hname⟩, rfl, rfl⟩
      exact ⟨n, hn, host, hh, rfl, hname, rfl⟩
    · rintro ⟨n, hn, host, hh, rfl, hname, rfl⟩
      exact ⟨n, host, ⟨hn, hh, hname⟩, rfl, rfl⟩

/-- A configuration that passes its checks has a slot for every member node, counted without being cut off, and
is provisioned exactly as it is written. -/
theorem provisioned_as_written (h : c.validate = .ok ()) :
    c.memberNodes.length ≤ c.capacity.toNat ∧
      (c.slots = none → c.capacity.toNat = max c.memberNodes.length 1) ∧
      ∃ s, c.provision = .ok s ∧ c.Provisions s.tables ∧ s.leases = ∅ := by
  replace h := sound_of_validate h
  obtain ⟨t', ops, t, hbatch, hcreate, hperform, hprovisions⟩ := h.perform_provision
  refine ⟨h.length_memberNodes_le, h.capacity_of_default, ⟨t, ∅⟩, ?_, hprovisions, rfl⟩
  rw [provision, hbatch]
  change (Store.apply ⟨.empty, ∅⟩ _).map Prod.fst = _
  rw [Store.apply_of_perform hcreate hperform]
  rfl

theorem provisioned_as_written_of_mixed :
    let node (addr : Addr) (index : Option UInt16) (member : Bool) : Node :=
      ⟨addr, ⟨.replicate 6 2⟩, "a", "web", index, member⟩
    let c : Config := {
      listenAddr := .v4 ⟨1⟩ 80
      vip := ⟨1⟩
      servicePort := 80
      slots := none
      suppressNat := true
      hosts := [⟨"a", "localhost", 3, "eth0", "/var"⟩]
      nodes := [node ⟨10⟩ (some 2) true, node ⟨11⟩ none false, node ⟨12⟩ none true,
        node ⟨13⟩ (some 0) true]
      peers := []
      migration := .default
      telemetry := .default
      logDir := "" }
    c.validate = .ok () ∧ c.capacity = 3 ∧ ∃ s g, c.provision = .ok s ∧ s.tables.groups.get? ⟨1⟩ = some g ∧
      g.member? 1 = some ⟨1, ⟨12⟩, true⟩ ∧ g.member? 2 = some ⟨2, ⟨10⟩, true⟩ ∧
      s.tables.rules.get? ⟨11⟩ = some ⟨⟨11⟩, 3, some ⟨.replicate 6 2⟩⟩ := by
  intro node c
  have hv : c.validate = .ok () := by decide
  obtain ⟨-, -, s, hs, hp, -⟩ := provisioned_as_written hv
  obtain ⟨g, hg, -, -, hm⟩ := hp.group
  refine ⟨hv, by decide, s, g, hs, hg ▸ Table.get?_insert_self .., ?_, ?_, ?_⟩
  · exact (hm _ _).2 ⟨1, node ⟨12⟩ none true, rfl, rfl, rfl⟩
  · exact (hm _ _).2 ⟨0, node ⟨10⟩ (some 2) true, rfl, rfl, rfl⟩
  · exact (hp.rule _ _).2 ⟨node ⟨11⟩ none false, by simp [c], _, List.mem_singleton_self _, rfl, rfl, rfl⟩

end Config

end LiveMigration
