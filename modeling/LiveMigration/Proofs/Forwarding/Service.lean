import LiveMigration.Proofs.Forwarding.Flows

/-!
# Service

A group serves as long as one of its members is active, provided that every member can be reached. No single
operation sees to that; batches do that put an endpoint only together with its rule, and bind no endpoint
before.
-/

namespace LiveMigration

namespace Selection

variable {hash : UInt32} {eligible : List Bool} {i : Nat}

theorem mem_activeSlots : i ∈ activeSlots eligible ↔ eligible[i]? = some true := by
  simp only [activeSlots, List.mem_filterMap, Prod.exists, List.mk_mem_zipIdx_iff_getElem?]
  constructor
  · rintro ⟨ok, j, hj, h⟩
    cases ok with
    | true => cases h; exact hj
    | false => cases h
  · intro h
    exact ⟨true, i, h, rfl⟩

theorem eligible_of_select (h : select hash eligible = some i) : eligible[i]? = some true := by
  simp only [select] at h
  split at h
  · cases h
  split at h
  · cases h
    assumption
  · exact mem_activeSlots.1 (List.mem_of_getElem? h)

theorem exists_select (h : eligible[i]? = some true) : ∃ j, select hash eligible = some j := by
  have hlen : eligible.length ≠ 0 := by
    have := (List.getElem?_eq_some_iff.1 h).1
    omega
  have hactive : 0 < (activeSlots eligible).length := List.length_pos_of_mem (mem_activeSlots.2 h)
  simp only [select, if_neg hlen]
  split
  · exact ⟨_, rfl⟩
  · exact ⟨_, List.getElem?_eq_getElem (Nat.mod_lt _ hactive)⟩

end Selection

namespace Group

variable {g : Group} {m : Member} {hash : UInt32}

theorem eligible_eq_true {j : Nat} :
    g.eligible[j]? = some true ↔ ∃ m, g.slots[j]? = some (some m) ∧ m.active = true := by
  simp only [eligible, List.getElem?_map, Option.map_eq_some_iff, Option.any_eq_true]
  constructor
  · rintro ⟨s, hs, m, rfl, hm⟩
    exact ⟨m, hs, hm⟩
  · rintro ⟨m, hs, hm⟩
    exact ⟨some m, hs, m, rfl, hm⟩

theorem active_of_serving (h : g.serving? hash = some m) : m ∈ g.members ∧ m.active = true := by
  obtain ⟨j, hj, hm⟩ := Option.bind_eq_some_iff.1 h
  obtain ⟨m', hs, ha⟩ := eligible_eq_true.1 (Selection.eligible_of_select hj)
  simp only [hs, Option.bind_some, id] at hm
  cases hm
  exact ⟨mem_members_iff.2 ⟨j, hs⟩, ha⟩

theorem serving_isSome_iff : (∃ m, g.serving? hash = some m) ↔ ∃ m ∈ g.members, m.active = true := by
  constructor
  · rintro ⟨m, h⟩
    exact ⟨m, active_of_serving h⟩
  · rintro ⟨m, hm, ha⟩
    obtain ⟨j, hj⟩ := mem_members_iff.1 hm
    obtain ⟨k, hk⟩ : ∃ k, Selection.select hash g.eligible = some k :=
      Selection.exists_select (eligible_eq_true.2 ⟨m, hj, ha⟩)
    obtain ⟨m', hs, -⟩ := eligible_eq_true.1 (Selection.eligible_of_select hk)
    exact ⟨m', by simp [serving?, hk, hs]⟩

end Group

/-- Every member can be reached, and every rule agrees with its endpoint. -/
structure Tables.InService (t : Tables) : Prop where
  member : ∀ m ∈ t.members, t.rules.contains m.endpoint = true
  egress : ∀ addr r, t.rules.get? addr = some r →
    ∃ e, t.endpoints.get? addr = some e ∧ e.egress = r.egress

def Op.Neutral : Op → Prop
  | .putEndpoint _ | .bind .. => False
  | _ => True

/-- Operations that put an endpoint only with its rule, and bind only endpoints that were put just before. -/
inductive Op.Paired : List Addr → List Op → Prop
  | nil : Paired routed []
  | neutral : op.Neutral → Paired [] ops → Paired routed (op :: ops)
  | pair : r.destination = e.addr → Paired (e.addr :: routed) ops →
      Paired routed (.putEndpoint e :: .putRule r :: ops)
  | bind : addr ∈ routed → Paired routed ops → Paired routed (.bind vip i addr :: ops)

namespace Op.Paired

variable {routed : List Addr} {ops : List Op}

theorem of_neutral (h : ∀ op ∈ ops, op.Neutral) : Paired routed ops := by
  induction ops generalizing routed with
  | nil => exact .nil
  | cons op ops ih =>
    rw [List.forall_mem_cons] at h
    exact .neutral h.1 (ih h.2)

theorem mono {routed' : List Addr} (h : Paired routed ops) (hr : ∀ a ∈ routed, a ∈ routed') :
    Paired routed' ops := by
  induction h generalizing routed' with
  | nil => exact .nil
  | neutral hop h _ => exact .neutral hop h
  | pair hd _ ih =>
    refine .pair hd (ih ?_)
    simp only [List.mem_cons]
    exact fun a ha => ha.imp_right (hr a)
  | bind ha _ ih => exact .bind (hr _ ha) (ih hr)

theorem binds {slots : List (UInt16 × Node)} {vip : Addr} (h : Paired routed ops)
    (hs : ∀ s ∈ slots, s.2.addr ∈ routed) :
    Paired routed (slots.map (fun (i, n) => .bind vip i n.addr) ++ ops) := by
  induction slots with
  | nil => exact h
  | cons s slots ih =>
    rw [List.forall_mem_cons] at hs
    exact .bind hs.1 (ih hs.2)

theorem nodes {inventory : Inventory} {nodes : List Node} {puts : List Op}
    (hn : Config.nodeOps inventory nodes = .ok puts) (h : Paired (nodes.map Node.addr ++ routed) ops) :
    Paired routed (puts ++ ops) := by
  induction nodes generalizing routed puts with
  | nil =>
    cases hn
    exact h
  | cons n nodes ih =>
    obtain ⟨host, -, hn⟩ := Except.bind_eq_ok.1 hn
    obtain ⟨puts, hputs, hn⟩ := Except.bind_eq_ok.1 hn
    cases hn
    refine .pair rfl (ih hputs (h.mono ?_))
    simp only [List.map_cons, List.mem_append, List.mem_cons, Node.endpoint, Endpoint.addr]
    grind

end Op.Paired

namespace Tables

variable {t u : Tables} {vip : Addr} {g : Group} {i : UInt16}

theorem mem_members_setGroup {m : Member} (h : m ∈ (t.setGroup vip g).members) :
    m ∈ g.members ∨ m ∈ t.members := by
  obtain ⟨v, g', hg, hm⟩ := mem_members_iff.1 h
  rcases Table.get?_insert_cases hg with ⟨-, rfl⟩ | ⟨-, hg⟩
  · exact .inl hm
  · exact .inr (mem_members_iff.2 ⟨v, g', hg, hm⟩)

namespace InService

theorem setGroup (h : t.InService) (hg : ∀ m ∈ g.members, t.rules.contains m.endpoint = true) :
    (t.setGroup vip g).InService where
  member m hm := (mem_members_setGroup hm).elim (hg m) (h.member m)
  egress := h.egress

theorem setSlot {s : Option Member} (h : t.InService) (hg : t.groups.get? vip = some g)
    (hs : ∀ m, s = some m → t.rules.contains m.endpoint = true) :
    (t.setGroup vip (g.setSlot i s)).InService := by
  apply h.setGroup
  intro m hm
  obtain ⟨j, hj⟩ := Group.mem_members_iff.1 hm
  rw [Group.slots_setSlot] at hj
  split at hj
  · obtain ⟨_, -, rfl⟩ := Option.map_eq_some_iff.1 hj
    exact hs m rfl
  · exact h.member m (mem_members_iff.2 ⟨vip, g, hg, Group.mem_members_iff.2 ⟨j, hj⟩⟩)

theorem slot {m : Member} (h : t.InService) (hg : t.groups.get? vip = some g)
    (hs : g.slots[i.toNat]? = some (some m)) : t.rules.contains m.endpoint = true :=
  h.member m (mem_members_iff.2 ⟨vip, g, hg, Group.mem_members_iff.2 ⟨_, hs⟩⟩)

theorem putRule {r : Rule} {endpoints : Table Addr Endpoint} (h : t.InService)
    (hat : ∃ e, endpoints.get? r.destination = some e ∧ e.egress = r.egress)
    (hother : ∀ a, r.destination ≠ a → endpoints.get? a = t.endpoints.get? a) :
    { t with endpoints, rules := t.rules.insert r.destination r }.InService where
  member m hm := Table.contains_insert (h.member m hm)
  egress a r' hr := by
    rcases Table.get?_insert_cases hr with ⟨rfl, rfl⟩ | ⟨hne, hr⟩
    · exact hat
    · rw [hother a hne]
      exact h.egress a r' hr

theorem removeEndpoint {addr : Addr} (h : t.InService) (hr : t.rules.get? addr = none) :
    { t with endpoints := t.endpoints.erase addr }.InService where
  member := h.member
  egress a r ha := by
    have hne : addr ≠ a := by
      rintro rfl
      cases hr.symm.trans ha
    rw [Table.get?_erase_of_ne hne]
    exact h.egress a r ha

theorem neutral {op : Op} {c : Bool} (h : t.InService) (hc : t.Change op u c) (hop : op.Neutral) :
    u.InService := by
  cases hc with
  | groupThere | natPut | natDeleted => exact ⟨h.member, h.egress⟩
  | groupCreated =>
    apply h.setGroup
    intro m hm
    obtain ⟨j, hj⟩ := Group.mem_members_iff.1 hm
    cases Group.slots_empty hj
  | groupDeleted =>
    refine ⟨fun m hm => ?_, h.egress⟩
    obtain ⟨v, g, hg, hm⟩ := mem_members_iff.1 hm
    exact h.member m (mem_members_iff.2 ⟨v, g, (Table.get?_erase_cases hg).2, hm⟩)
  | endpointPut | boundAlready | rebound | bound => cases hop
  | endpointRemoved _ _ hr => exact h.removeEndpoint hr
  | unbound hg => exact h.setSlot hg nofun
  | activeSet hg hs =>
    have hslot := h.slot hg hs
    refine h.setSlot hg fun m hm => ?_
    cases hm
    exact hslot
  | rulePut =>
    exact h.putRule ⟨_, Table.get?_insert_self .., rfl⟩ fun a hne => Table.get?_insert_of_ne hne
  | ruleRemoved _ hm =>
    exact ⟨fun m hmem => Table.contains_erase (h.member m hmem) (hm m hmem).symm,
      fun a r hr => h.egress a r (Table.get?_erase_cases hr).2⟩

theorem bind {addr : Addr} {c : Bool} (h : t.InService) (hc : t.Change (.bind vip i addr) u c)
    (ha : t.rules.contains addr = true) : u.InService ∧ u.rules = t.rules := by
  cases hc with
  | boundAlready => exact ⟨h, rfl⟩
  | rebound _ hg =>
    refine ⟨h.setSlot hg fun m hm => ?_, rfl⟩
    cases hm
    exact ha
  | bound _ hg =>
    refine ⟨h.setSlot hg fun m hm => ?_, rfl⟩
    cases hm
    exact ha

theorem pair {e : Endpoint} {r : Rule} {v : Tables} {c₁ c₂ : Bool} (h : t.InService)
    (hd : r.destination = e.addr) (he : t.Change (.putEndpoint e) u c₁) (hr : u.Change (.putRule r) v c₂) :
    v.InService ∧ v.rules = t.rules.insert e.addr r := by
  cases he
  cases hr
  refine ⟨h.putRule ⟨_, Table.get?_insert_self .., rfl⟩ fun a hne => ?_, by rw [hd]⟩
  rw [Table.get?_insert_of_ne hne, Table.get?_insert_of_ne (hd ▸ hne)]

theorem leads {routed : List Addr} {ops : List Op} (hp : Op.Paired routed ops) (h : t.InService)
    (ha : ∀ a ∈ routed, t.rules.contains a = true) (hl : t.Leads ops u) : u.InService := by
  induction hp generalizing t with
  | nil =>
    cases hl
    exact h
  | neutral hop _ ih =>
    cases hl with
    | cons hc hl => exact ih (h.neutral hc hop) nofun hl
  | pair hd _ ih =>
    cases hl with
    | cons he hl =>
      cases hl with
      | cons hr hl =>
        obtain ⟨hv, hrules⟩ := h.pair hd he hr
        refine ih hv ?_ hl
        rw [List.forall_mem_cons, hrules]
        exact ⟨Table.contains_insert_self, fun a hm => Table.contains_insert (ha a hm)⟩
  | bind hm _ ih =>
    cases hl with
    | cons hc hl =>
      obtain ⟨hv, hrules⟩ := h.bind hc (ha _ hm)
      exact ih hv (fun a hm => hrules ▸ ha a hm) hl

end InService

end Tables

theorem Config.paired_provisionBatch {config : Config} {b : Batch} (h : config.provisionBatch = .ok b) :
    Op.Paired [] b.ops := by
  obtain ⟨puts, hputs, h⟩ := Except.bind_eq_ok.1 h
  cases h
  rw [List.cons_append, List.cons_append, List.append_assoc]
  refine .neutral trivial (.nodes hputs (.binds (.of_neutral (by simp [Op.Neutral])) ?_))
  intro s hs
  simp only [members, List.mem_map, memberNodes] at hs
  obtain ⟨⟨n, i⟩, hn, rfl⟩ := hs
  have hmem : n ∈ config.nodes := (List.mem_filter.1 (List.fst_mem_of_mem_zipIdx hn)).1
  simp only [List.append_nil, List.mem_map]
  exact ⟨n, hmem, rfl⟩

theorem Tables.neutral_of_teardownOps {t : Tables} : ∀ op ∈ t.teardownOps, op.Neutral := by
  intro op hop
  simp only [teardownOps, List.mem_append, List.mem_map, List.mem_flatMap] at hop
  rcases hop with (((⟨_, -, rfl⟩ | ⟨g, -, m, -, rfl⟩) | ⟨_, -, rfl⟩) | ⟨_, -, rfl⟩) | ⟨_, -, rfl⟩
  all_goals trivial

namespace Store

variable {s : Store} {b : Batch} {holder : Option JobId}

theorem paired_moveBatch {addr : Addr} {e : Endpoint} (he : e.addr = addr) (egress : EgressPort)
    (mac : Option Mac) (host : Option HostName) : Op.Paired [] (s.moveBatch e addr egress mac host).ops := by
  cases host with
  | none => exact .neutral trivial .nil
  | some host => exact .pair he.symm .nil

theorem paired_published (h : Op.Paired [] b.ops) : Op.Paired [] (s.published holder b) := by
  unfold published
  split
  · exact h
  · exact .nil

/-- Whether what an action writes is in pairs; only a batch that is given in full may be otherwise. -/
def Action.Orderly : Action → Prop
  | .write _ b => Op.Paired [] b.ops
  | _ => True

theorem paired_carriedOut {a : Action} (hi : s.tables.Intact) (ha : a.Orderly) :
    Op.Paired [] (s.carriedOut a) := by
  cases a with
  | write => exact paired_published ha
  | relocate addr egress mac host =>
    simp only [carriedOut]
    split
    · exact .nil
    · next e he => exact paired_published (paired_moveBatch (hi.endpoint _ _ he) ..)
  | lease | drop => exact .nil
  | teardownAll | shutdown =>
    exact paired_published (.of_neutral Tables.neutral_of_teardownOps)

end Store

namespace Tables

theorem InService.empty : Tables.empty.InService where
  member m hm := by cases hm
  egress addr r h := by cases h

theorem InService.act {s : Store} {a : Store.Action} (h : s.tables.InService) (hi : s.tables.Intact)
    (ha : a.Orderly) : (s.act a).tables.InService :=
  h.leads (Store.paired_carriedOut hi ha) nofun (Store.leads_act s a)

theorem inService_of_provision {config : Config} {s : Store} (h : config.provision = .ok s) :
    s.tables.InService := by
  cases hb : config.provisionBatch with
  | error e => simp [Config.provision, hb] at h
  | ok b =>
    exact InService.empty.leads (Store.paired_published (config.paired_provisionBatch hb)) nofun
      (Store.leads_provision hb h)

structure Serves (t : Tables) (vip : Addr) (g : Group) (flow : FiveTuple) : Prop where
  isSome_iff : (∃ r, t.resolve? flow = some r) ↔ ∃ m ∈ g.members, m.active = true
  active : ∀ r, t.resolve? flow = some r → ∃ m ∈ g.members, m.active = true ∧ ∃ e rule,
    t.endpoints.get? m.endpoint = some e ∧ t.rules.get? m.endpoint = some rule ∧
      rule.egress = e.egress ∧ r = ⟨some vip, some m.index, m.endpoint, e.egress, rule.mac⟩

theorem InService.serves {t : Tables} {vip : Addr} {g : Group} {flow : FiveTuple} (h : t.InService)
    (hi : t.Intact) (hg : t.groups.get? vip = some g) (hf : flow.dstAddr = vip) : t.Serves vip g flow := by
  have hhop : t.hop? flow = (g.serving? flow.hash).map fun m => .slot vip m.index m.endpoint := by
    simp [hop?, hf, hg, (hi.group vip g hg).vip]
  have hreach : ∀ m ∈ g.members, ∃ e rule, t.endpoints.get? m.endpoint = some e ∧
      t.rules.get? m.endpoint = some rule ∧ rule.egress = e.egress := by
    intro m hm
    have hrule := h.member m (mem_members_iff.2 ⟨vip, g, hg, hm⟩)
    obtain ⟨rule, hrule⟩ := Option.isSome_iff_exists.1 hrule
    obtain ⟨e, he, heq⟩ := h.egress _ _ hrule
    exact ⟨e, rule, he, hrule, heq.symm⟩
  have hroute : ∀ r, t.resolve? flow = some r ↔ ∃ m, g.serving? flow.hash = some m ∧
      ∃ rule, t.rules.get? m.endpoint = some rule ∧ (Hop.slot vip m.index m.endpoint).along rule = r := by
    intro r
    simp only [resolve?_eq hi, hhop, Option.bind_map, Option.bind_eq_some_iff, Function.comp_apply,
      Option.map_eq_some_iff]
    rfl
  constructor
  · have hserving : (∃ m, g.serving? flow.hash = some m) ↔ ∃ m ∈ g.members, m.active = true :=
      Group.serving_isSome_iff
    rw [← hserving]
    constructor
    · rintro ⟨r, hr⟩
      obtain ⟨m, hm, -⟩ := (hroute r).1 hr
      exact ⟨m, hm⟩
    · rintro ⟨m, hm⟩
      obtain ⟨e, rule, -, hrule, -⟩ := hreach m (Group.active_of_serving hm).1
      exact ⟨_, (hroute _).2 ⟨m, hm, rule, hrule, rfl⟩⟩
  · intro r hr
    obtain ⟨m, hm, rule, hrule, rfl⟩ := (hroute r).1 hr
    obtain ⟨hmem, hactive⟩ := Group.active_of_serving hm
    obtain ⟨e, rule', he, hrule', heq⟩ := hreach m hmem
    cases hrule.symm.trans hrule'
    exact ⟨m, hmem, hactive, e, rule, he, hrule, heq, by rw [← heq]; rfl⟩

end Tables

end LiveMigration
