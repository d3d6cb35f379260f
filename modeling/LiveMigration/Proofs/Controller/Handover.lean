import LiveMigration.Proofs.Controller.History
import LiveMigration.Proofs.Forwarding.Lease

namespace LiveMigration

namespace Tables

variable {t : Tables} {addr vip : Addr} {i : UInt16}

theorem exists_slot_of_slotsOf (h : t.slotsOf addr vip i = some m) :
    ∃ g, t.groups.get? vip = some g ∧ g.slots[i.toNat]? = some (some m) ∧ m.endpoint = addr := by
  obtain ⟨h, ha⟩ := Option.filter_eq_some_iff.1 h
  obtain ⟨g, hg, hm⟩ := Option.bind_eq_some_iff.1 h
  exact ⟨g, hg, Group.member?_eq_some.1 hm, of_decide_eq_true ha⟩

theorem Intact.slotsOf_memberOf (h : t.Intact) (hm : t.memberOf? addr = some (vip, i)) :
    ∃ m, t.slotsOf addr vip i = some m := by
  obtain ⟨g, hg, hs⟩ := List.exists_of_findSome?_eq_some hm
  obtain ⟨m, hf, he⟩ := Option.map_eq_some_iff.1 hs
  cases he
  obtain ⟨k, hk⟩ := Table.mem_values_iff.1 hg
  have hs := h.group k g hk
  obtain ⟨j, hj⟩ := Group.mem_members_iff.1 (List.mem_of_find?_eq_some hf)
  have hi : m.index.toNat = j := (hs.slot j m hj).1
  subst hi
  refine ⟨m, ?_⟩
  rw [hs.vip, slotsOf_of_group hk, Group.member?_eq_some.2 hj]
  simpa using List.find?_some hf

end Tables

namespace Store

variable {s : Store}

theorem checkLease_of_held {job : JobId} {l : List Addr}
    (h : ∀ a ∈ l, s.leases.get? a = some job) : checkLease s.leases (some job) l = .ok () := by
  refine checkLease_eq_ok.2 fun a ha owner ho => ?_
  rw [h a ha] at ho
  exact ho.symm

end Store

structure Plan.Ready (p : Plan) (s : Store) : Prop where
  moves : p.source ≠ p.target
  leased : s.leases.get? p.source.addr = some p.id
  there : s.tables.endpoints.get? p.source.addr = some p.source
  stays : p.mode = .sameIdentity → p.target.addr = p.source.addr
  reserved : p.mode = .memberRebind → s.leases.get? p.target.addr = some p.id
  vacant : p.mode = .memberRebind → s.tables.endpoints.get? p.target.addr = none
  serves : p.mode = .memberRebind →
    ∃ vip i m, p.member = some (vip, i) ∧ s.tables.slotsOf p.source.addr vip i = some m

def Plan.withTarget (p : Plan) (t : Tables) : Tables where
  groups := t.groups
  endpoints := (t.endpoints.insert p.target.addr p.target).insert p.target.addr p.target
  rules := t.rules.insert p.target.addr p.targetRule
  nat := t.nat

theorem Plan.contains_withTarget (p : Plan) (t : Tables) :
    (p.withTarget t).endpoints.contains p.target.addr = true :=
  Table.contains_insert_self

namespace Plan.Ready

variable {p : Plan} {s : Store}

theorem act {a : Store.Action} (h : p.Ready s) (ha : a.ByOthers p.id) : p.Ready (s.act a) := by
  have hs := Store.holding_act h.leased ha
  have ht := fun hm => Store.holding_act (h.reserved hm) ha
  constructor
  · exact h.moves
  · exact (congrArg Store.Holding.lease hs).trans h.leased
  · exact (congrArg Store.Holding.endpoint hs).trans h.there
  · exact h.stays
  · exact fun hm => (congrArg Store.Holding.lease (ht hm)).trans (h.reserved hm)
  · exact fun hm => (congrArg Store.Holding.endpoint (ht hm)).trans (h.vacant hm)
  · intro hm
    obtain ⟨vip, i, m, hp, hv⟩ := h.serves hm
    exact ⟨vip, i, m, hp, (congrFun (congrFun (congrArg Store.Holding.slots hs) vip) i).trans hv⟩

theorem foldl (h : p.Ready s) {as : List Store.Action} (ha : ∀ a ∈ as, a.ByOthers p.id) :
    p.Ready (as.foldl Store.act s) :=
  Store.foldl_induction (fun _ _ ha h => h.act ha) ha h

theorem target_leased (h : p.Ready s) : s.leases.get? p.target.addr = some p.id := by
  cases hm : p.mode with
  | sameIdentity => rw [h.stays hm, h.leased]
  | memberRebind => exact h.reserved hm

theorem target_new (h : p.Ready s) : s.tables.endpoints.get? p.target.addr ≠ some p.target := by
  cases hm : p.mode with
  | sameIdentity =>
    rw [h.stays hm, h.there]
    exact fun he => h.moves (Option.some.inj he)
  | memberRebind =>
    rw [h.vacant hm]
    nofun

theorem source_ne_target (h : p.Ready s) (hm : p.mode = .memberRebind) :
    p.source.addr ≠ p.target.addr := by
  intro ha
  have hv := h.vacant hm
  rw [← ha, h.there] at hv
  cases hv

theorem stage_traffic (h : p.Ready s) (ops : List Op) : ∃ c,
    Store.stage s.leases (some p.id) s.tables (.putEndpoint p.target :: .putRule p.targetRule :: ops) =
      (Store.stage s.leases (some p.id) (p.withTarget s.tables) ops).map fun r => (r.1, true || (c || r.2)) := by
  have hl : Store.checkLease s.leases (some p.id) [p.target.addr] = .ok () :=
    Store.checkLease_of_held (by simpa using h.target_leased)
  let t : Tables := { s.tables with
    endpoints := s.tables.endpoints.insert p.target.addr p.target }
  have hp : s.tables.apply (.putEndpoint p.target) = .ok (t, true) := by
    have hn := h.target_new
    simp [Tables.apply, Tables.putEndpoint, t, hn]
  have hr : ∃ c, t.apply (.putRule p.targetRule) = .ok (p.withTarget s.tables, c) := by
    simp only [Tables.apply, Tables.putRule, targetRule, t, Table.get?_insert_self]
    exact ⟨_, rfl⟩
  obtain ⟨c, hr⟩ := hr
  refine ⟨c, ?_⟩
  rw [Store.stage_cons hl hp, Store.stage_cons hl hr]
  cases Store.stage s.leases (some p.id) (p.withTarget s.tables) ops <;> rfl

theorem bind_withTarget (h : p.Ready s) (hm : p.mode = .memberRebind) : ∃ vip i t,
    p.member = some (vip, i) ∧
    Store.checkLease s.leases (some p.id) ((p.withTarget s.tables).touched (.bind vip i p.target.addr)) =
      .ok () ∧
    (p.withTarget s.tables).apply (.bind vip i p.target.addr) = .ok (t, true) := by
  obtain ⟨vip, i, m, hp, hs⟩ := h.serves hm
  have hc := p.contains_withTarget s.tables
  obtain ⟨g, hg, hi, he⟩ := Tables.exists_slot_of_slotsOf hs
  have hne : m.endpoint ≠ p.target.addr := by
    rw [he]
    exact h.source_ne_target hm
  have ho : (p.withTarget s.tables).occupant? vip i = some p.source.addr := by
    rw [← he]
    exact Tables.occupant?_eq (t := p.withTarget s.tables) hg hi
  let t := (p.withTarget s.tables).setGroup vip (g.setSlot i (some { m with endpoint := p.target.addr }))
  refine ⟨vip, i, t, hp, Store.checkLease_of_held ?_, ?_⟩
  · simp only [Tables.touched, ho, Option.toList_some, List.forall_mem_cons]
    exact ⟨h.target_leased, h.leased, List.forall_mem_nil _⟩
  · have hgroup : (p.withTarget s.tables).group vip = .ok g := Tables.group_eq_ok.2 hg
    have hslot : g.slot i = .ok (some m) := Group.slot_eq_ok.2 hi
    simp only [Tables.apply, Tables.bind, hc, hgroup, hslot, bind, Except.bind,
      if_neg hne]
    rfl

theorem stage_rest (h : p.Ready s) (config : Config) : ∃ ops r,
    (p.traffic config).ops = .putEndpoint p.target :: .putRule p.targetRule :: ops ∧
    Store.stage s.leases (some p.id) (p.withTarget s.tables) ops = .ok r := by
  simp only [traffic, forwardingBatch]
  cases hm : p.mode with
  | sameIdentity =>
    cases Turn.replyPort config with
    | none => exact ⟨[], _, rfl, rfl⟩
    | some port => exact ⟨[.deleteNat port], _, rfl, rfl⟩
  | memberRebind =>
    obtain ⟨vip, i, t, hp, hl, hb⟩ := h.bind_withTarget hm
    rw [hp]
    exact ⟨[.bind vip i p.target.addr], _, rfl, Store.stage_cons hl hb []⟩

theorem traffic_accepted (h : p.Ready s) (config : Config) :
    ∃ s', s.applyAs (some p.id) (p.traffic config) = .ok (s', true) := by
  obtain ⟨ops, r, ho, hs⟩ := h.stage_rest config
  obtain ⟨c, hc⟩ := h.stage_traffic ops
  simp only [Store.applyAs, ho, hc, hs]
  exact ⟨_, rfl⟩

end Plan.Ready

namespace Controller

variable {c c' : Controller} {id : JobId} {q : MigrationRequest}

theorem ready_of_lease {e : Endpoint} {p : Plan} (hi : c.store.tables.Intact)
    (he : c.store.tables.endpoints.get? q.source = some e) (hc : c.checkRequest e q = .ok ())
    (hl : c.store.lease e.addr (q.newIdentity.map Identity.addr) id = .ok (s, lease))
    (hp : p = {
      id, source := e, mode := .ofIdentity q.newIdentity, policy
      target := e.migrated q.targetHost egress q.newIdentity
      member := c.store.tables.memberOf? q.source }) : p.Ready s := by
  obtain ⟨rfl, hg⟩ := Store.granted_of_lease hl
  have ha : e.addr = q.source := hi.endpoint _ _ he
  have hm : e ≠ e.migrated q.targetHost egress q.newIdentity := target_ne_source hc
  subst hp
  cases hq : q.newIdentity with
  | none =>
    rw [hq] at hg hm
    refine ⟨hm, ?_, ?_, fun _ => rfl, nofun, nofun, nofun⟩
    · exact (hg.leases _).trans (if_pos List.mem_cons_self)
    · rw [hg.tables, ha]
      exact he
  | some new =>
    rw [hq] at hg hm
    have hv := hg.unregistered new.addr rfl
    refine ⟨hm, ?_, ?_, nofun, fun _ => ?_, fun _ => ?_, fun _ => ?_⟩
    · exact (hg.leases _).trans (if_pos List.mem_cons_self)
    · rw [hg.tables, ha]
      exact he
    · exact (hg.leases _).trans (if_pos (by simp [Lease.addrs, Endpoint.migrated, Endpoint.addr]))
    · rw [hg.tables]
      exact hv
    · simp only [checkRequest, hq] at hc
      split at hc
      · cases hc
      split at hc
      · cases hc
      rename_i hn
      rw [Bool.not_eq_true, Option.isNone_eq_false_iff, Option.isSome_iff_exists] at hn
      obtain ⟨⟨vip, i⟩, hv⟩ := hn
      obtain ⟨m, hs⟩ := hi.slotsOf_memberOf hv
      rw [ha] at hv
      exact ⟨vip, i, m, hv, hg.tables ▸ hs⟩

/-- Whatever others do to a store after a migration was accepted, the batch that sends traffic to the target
is accepted as well. -/
theorem traffic_never_refused {as : List Store.Action} (hs : c.store.History ops)
    (hr : c.run? id = none) (hq : c.submit now id q = .ok c') (ha : ∀ a ∈ as, a.ByOthers id) :
    ∃ r s', c'.run? id = some r ∧
      (as.foldl Store.act c'.store).applyAs (some r.lease.job) (r.plan.traffic c.config) =
        .ok (s', true) := by
  obtain ⟨e, host, s, lease, p, he, -, hc, hl, hp, rfl⟩ := submit_eq_ok hq
  have hi : c.store.tables.Intact := Tables.Intact.empty.leads hs.leads
  have hready : p.Ready s := ready_of_lease hi he hc hl hp
  have hid : p.id = id := by rw [hp]
  have hjob : lease.job = p.id := by rw [hid, (Store.granted_of_lease hl).1]
  rw [← hid] at ha
  obtain ⟨s', h⟩ := (hready.foldl ha).traffic_accepted c.config
  refine ⟨.new p lease, s', ?_, ?_⟩
  · rw [run?_accept hr hid, if_pos rfl]
  · simp only [Run.new, hjob]
    exact h

theorem traffic_not_refused_after_attempts :
    let e : Endpoint := ⟨⟨⟨10⟩, ⟨.replicate 6 1⟩⟩, "a", 1, "web"⟩
    let s := Store.empty.act (.write none ⟨[.createGroup ⟨1⟩ 2, .putEndpoint e, .bind ⟨1⟩ 0 ⟨10⟩]⟩)
    let config := Config.plain [⟨"a", "a", 1, "eth0", "/var"⟩, ⟨"b", "b", 2, "eth0", "/var"⟩] []
    let id := JobId.ofNat 7
    let c := idle config s
    let q : MigrationRequest := ⟨⟨10⟩, "b", some ⟨⟨11⟩, ⟨.replicate 6 2⟩⟩⟩
    let as : List Store.Action := [.write none ⟨[.unbind ⟨1⟩ 0]⟩, .write (some (.ofNat 8))
      ⟨[.createGroup ⟨2⟩ 1, .removeEndpoint ⟨10⟩]⟩, .lease ⟨11⟩ none (.ofNat 8), .teardownAll]
    c.store.History ([.createGroup ⟨1⟩ 2, .putEndpoint e, .bind ⟨1⟩ 0 ⟨10⟩]) ∧ c.run? id = none ∧
      (∀ a ∈ as, a.ByOthers id) ∧ ∃ c' r s', c.submit ⟨0, 0⟩ id q = .ok c' ∧ c'.run? id = some r ∧
        (as.foldl Store.act c'.store).applyAs (some r.lease.job) (r.plan.traffic c.config) =
          .ok (s', true) := by
  intro e s config id c q as
  have hs : c.store.History [.createGroup ⟨1⟩ 2, .putEndpoint e, .bind ⟨1⟩ 0 ⟨10⟩] := by
    have h := Store.History.empty.act (.write none ⟨[.createGroup ⟨1⟩ 2, .putEndpoint e,
      .bind ⟨1⟩ 0 ⟨10⟩]⟩)
    have ho : Store.empty.carriedOut (.write none ⟨[.createGroup ⟨1⟩ 2, .putEndpoint e,
        .bind ⟨1⟩ 0 ⟨10⟩]⟩) = [.createGroup ⟨1⟩ 2, .putEndpoint e, .bind ⟨1⟩ 0 ⟨10⟩] := by decide
    rw [ho] at h
    exact h
  have ha : ∀ a ∈ as, a.ByOthers id := by
    simp only [as, List.forall_mem_cons]
    exact ⟨by simp [Store.Action.ByOthers], by simp only [Store.Action.ByOthers]; decide, trivial,
      trivial, by simp⟩
  have hr : c.run? id = none := rfl
  have hq : (c.submit ⟨0, 0⟩ id q).isOk = true := by decide
  cases h : c.submit ⟨0, 0⟩ id q with
  | error e =>
    rw [h] at hq
    cases hq
  | ok c' =>
    obtain ⟨r, s', hrun, hw⟩ := traffic_never_refused hs hr h ha
    exact ⟨hs, hr, ha, c', r, s', rfl, hrun, hw⟩

end Controller

end LiveMigration
