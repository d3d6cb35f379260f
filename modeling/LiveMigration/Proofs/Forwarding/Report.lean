import LiveMigration.Proofs.Forwarding.Integrity

/-!
# Reports of change

A batch is published if one of its operations reports a change. Each operation reports what it does to the
tables but for one: a rule that is there already still moves its endpoint, and says nothing of it.
-/

namespace LiveMigration

namespace Table

variable {κ : Type u} {ν : Type v} [Ranked κ] {t : Table κ ν} {k : κ} {x : ν}

theorem insert_eq_self : t.insert k x = t ↔ t.get? k = some x := by
  constructor
  · intro h
    rw [← h, get?_insert_self]
  · intro h
    apply ext_get?
    intro k'
    rw [get?_insert]
    split
    · next hk => rw [← rank_inj hk, h]
    · rfl

theorem erase_eq_self : t.erase k = t ↔ t.get? k = none := by
  constructor
  · intro h
    rw [← h, get?_erase_self]
  · intro h
    apply ext_get?
    intro k'
    rw [get?_erase]
    split
    · next hk => rw [← rank_inj hk, h]
    · rfl

end Table

theorem Group.setSlot_eq_self {g : Group} {i : UInt16} {old s : Option Member}
    (h : g.slots[i.toNat]? = some old) : g.setSlot i s = g ↔ s = old := by
  constructor
  · intro hs
    have hi := slots_setSlot g i s i.toNat
    rw [hs, if_pos rfl, h] at hi
    exact (Option.some.inj hi).symm
  · rintro rfl
    obtain ⟨hi, hs⟩ := List.getElem?_eq_some_iff.1 h
    simp [setSlot, ← hs]

namespace Tables

variable {t t' u : Tables} {addr vip : Addr} {ops : List Op}

def perform (t : Tables) : List Op → Except Error Tables
  | [] => .ok t
  | op :: ops => do
    let (t, _) ← t.apply op
    t.perform ops

def egress? (t : Tables) (addr : Addr) : Option EgressPort := (t.endpoints.get? addr).map Endpoint.egress

/-- Some of these operations put a rule that sends an endpoint elsewhere. -/
def Moves (t : Tables) (ops : List Op) : Prop :=
  ∃ r e, .putRule r ∈ ops ∧ t.endpoints.get? r.destination = some e ∧ e.egress ≠ r.egress

structure Follows (ops : List Op) (t u : Tables) : Prop where
  groups : u.groups = t.groups
  rules : u.rules = t.rules
  nat : u.nat = t.nat
  rule : ∀ r, .putRule r ∈ ops → t.rules.get? r.destination = some r
  moved : ∀ r, .putRule r ∈ ops → ∃ e, t.endpoints.get? r.destination = some e ∧
    u.endpoints.get? r.destination = some { e with egress := r.egress }
  stayed : ∀ addr, (∀ r, .putRule r ∈ ops → r.destination ≠ addr) →
    u.endpoints.get? addr = t.endpoints.get? addr

theorem setGroup_eq_self {g : Group} : t.setGroup vip g = t ↔ t.groups.get? vip = some g := by
  rw [← Table.insert_eq_self]
  constructor
  · exact congrArg Tables.groups
  · intro h
    rw [setGroup, h]

theorem setSlot_eq_self {g : Group} {i : UInt16} {old s : Option Member}
    (hg : t.groups.get? vip = some g) (hs : g.slots[i.toNat]? = some old) :
    t.setGroup vip (g.setSlot i s) = t ↔ s = old := by
  rw [setGroup_eq_self, hg, Option.some.injEq, eq_comm, Group.setSlot_eq_self hs]

theorem Change.ne {op : Op} {c : Bool} (h : t.Change op t' c) (hc : c = true) : t' ≠ t := by
  intro ht
  cases h with
  | groupThere | boundAlready => cases hc
  | groupCreated _ hv => simp [setGroup_eq_self, hv] at ht
  | groupDeleted hg => simp [Table.erase_eq_self.1 (congrArg groups ht)] at hg
  | endpointPut =>
    exact of_decide_eq_true hc (Table.insert_eq_self.1 (congrArg endpoints ht))
  | endpointRemoved he =>
    simp [Table.contains, Table.erase_eq_self.1 (congrArg endpoints ht)] at he
  | rebound _ hg hs hne =>
    exact hne (congrArg Member.endpoint (Option.some.inj ((setSlot_eq_self hg hs).1 ht))).symm
  | bound _ hg hs => cases (setSlot_eq_self hg hs).1 ht
  | unbound hg hs => cases (setSlot_eq_self hg hs).1 ht
  | @activeSet v g i m a hg hs =>
    exact of_decide_eq_true hc (congrArg Member.active
      (Option.some.inj ((setSlot_eq_self hg hs).1 ht))).symm
  | rulePut => exact of_decide_eq_true hc (Table.insert_eq_self.1 (congrArg rules ht))
  | ruleRemoved hr =>
    simp [Table.contains, Table.erase_eq_self.1 (congrArg rules ht)] at hr
  | natPut => exact of_decide_eq_true hc (Table.insert_eq_self.1 (congrArg nat ht))
  | natDeleted =>
    simp [Table.contains, Table.erase_eq_self.1 (congrArg nat ht)] at hc

theorem Change.unreported {op : Op} {c : Bool} (h : t.Change op u c) (hc : c = false) :
    ((∀ r, op ≠ .putRule r) ∧ u = t) ∨
      ∃ r e, op = .putRule r ∧ t.rules.get? r.destination = some r ∧
        t.endpoints.get? r.destination = some e ∧
        u = { t with endpoints := t.endpoints.insert r.destination { e with egress := r.egress } } := by
  cases h with
  | groupThere | boundAlready => exact .inl ⟨nofun, rfl⟩
  | endpointPut =>
    have he := Decidable.of_not_not (of_decide_eq_false hc)
    exact .inl ⟨nofun, by rw [Table.insert_eq_self.2 he]⟩
  | activeSet hg hs =>
    have ha := Decidable.of_not_not (of_decide_eq_false hc)
    exact .inl ⟨nofun, (setSlot_eq_self hg hs).2 (by rw [← ha])⟩
  | rulePut he =>
    have hr := Decidable.of_not_not (of_decide_eq_false hc)
    exact .inr ⟨_, _, rfl, hr, he, by rw [Table.insert_eq_self.2 hr]⟩
  | natPut =>
    have hn := Decidable.of_not_not (of_decide_eq_false hc)
    exact .inl ⟨nofun, by rw [Table.insert_eq_self.2 hn]⟩
  | natDeleted => exact .inl ⟨nofun, by rw [Table.erase_eq_self.2 (Table.contains_eq_false.1 hc)]⟩
  | _ => cases hc

theorem Follows.nil : Follows [] t t := ⟨rfl, rfl, rfl, nofun, nofun, fun _ _ => rfl⟩

theorem Follows.cons_of_ne {op : Op} (h : Follows ops t u) (hop : ∀ r, op ≠ .putRule r) :
    Follows (op :: ops) t u := by
  have hmem : ∀ r, .putRule r ∈ op :: ops → .putRule r ∈ ops := by
    intro r hr
    rcases List.mem_cons.1 hr with hr | hr
    · exact absurd hr.symm (hop r)
    · exact hr
  exact ⟨h.groups, h.rules, h.nat, fun r hr => h.rule r (hmem r hr), fun r hr => h.moved r (hmem r hr),
    fun addr ha => h.stayed addr fun r hr => ha r (List.mem_cons_of_mem _ hr)⟩

theorem Follows.cons_putRule {r : Rule} {e : Endpoint} (hr : t.rules.get? r.destination = some r)
    (he : t.endpoints.get? r.destination = some e)
    (h : Follows ops { t with endpoints := t.endpoints.insert r.destination { e with egress := r.egress } } u) :
    Follows (.putRule r :: ops) t u where
  groups := h.groups
  rules := h.rules
  nat := h.nat
  rule r' hr' := by
    rcases List.mem_cons.1 hr' with hr' | hr'
    · cases hr'; exact hr
    · exact h.rule r' hr'
  moved r' hr' := by
    by_cases hmem : .putRule r' ∈ ops
    · obtain ⟨e', he', hu⟩ := h.moved r' hmem
      rcases Table.get?_insert_cases he' with ⟨hd, rfl⟩ | ⟨-, he'⟩
      · exact ⟨e, hd ▸ he, hu⟩
      · exact ⟨e', he', hu⟩
    · obtain rfl : r' = r := by
        rcases List.mem_cons.1 hr' with hr' | hr'
        · exact Op.putRule.inj hr'
        · exact absurd hr' hmem
      refine ⟨e, he, (h.stayed _ ?_).trans (Table.get?_insert_self ..)⟩
      intro r hr₁ hd
      have hr₂ := h.rule r hr₁
      rw [hd, hr] at hr₂
      cases hr₂
      exact hmem hr₁
  stayed addr ha := by
    rw [h.stayed addr fun r' hr' => ha r' (List.mem_cons_of_mem _ hr')]
    exact Table.get?_insert_of_ne (ha r List.mem_cons_self)

theorem Follows.eq_iff (h : Follows ops t u) : u = t ↔ ¬ t.Moves ops := by
  constructor
  · rintro rfl ⟨r, e, hr, he, hne⟩
    obtain ⟨e', he', hu⟩ := h.moved r hr
    cases he.symm.trans he'
    exact hne (congrArg Endpoint.egress (Option.some.inj (he.symm.trans hu)))
  · intro hm
    have hendpoints : u.endpoints = t.endpoints := by
      apply Table.ext_get?
      intro addr
      by_cases ha : ∀ r, .putRule r ∈ ops → r.destination ≠ addr
      · exact h.stayed addr ha
      · obtain ⟨r, hr, rfl⟩ : ∃ r, .putRule r ∈ ops ∧ r.destination = addr := by simpa using ha
        obtain ⟨e, he, hu⟩ := h.moved r hr
        have heg : e.egress = r.egress :=
          Decidable.byContradiction fun hne => hm ⟨r, e, hr, he, hne⟩
        rw [he, hu, ← heg]
    obtain ⟨ug, ue, ur, un⟩ := u
    cases h.groups; cases h.rules; cases h.nat; cases hendpoints
    rfl

theorem Leads.concat {op : Op} (h : t.Leads (ops ++ [op]) t') : ∃ u c, t.Leads ops u ∧ u.Change op t' c := by
  induction ops generalizing t with
  | nil =>
    cases h with
    | cons hc hl => cases hl; exact ⟨t, _, .nil, hc⟩
  | cons op' ops ih =>
    cases h with
    | cons hc hl =>
      obtain ⟨u, c, hu, hop⟩ := ih hl
      exact ⟨u, c, .cons hc hu, hop⟩

end Tables

namespace Store

variable {s s' : Store} {t t' : Tables} {leases : Table Addr JobId} {holder : Option JobId} {ops : List Op}
  {c : Bool}

theorem perform_of_stage (h : stage leases holder t ops = .ok (t', c)) : t.perform ops = .ok t' := by
  induction ops generalizing t c with
  | nil => cases h; rfl
  | cons op ops ih =>
    unfold stage at h
    obtain ⟨_, -, h⟩ := Except.bind_eq_ok.mp h
    obtain ⟨⟨u, c₁⟩, hu, h⟩ := Except.bind_eq_ok.mp h
    obtain ⟨⟨v, c₂⟩, hv, h⟩ := Except.bind_eq_ok.mp h
    cases h
    exact Except.bind_eq_ok.2 ⟨_, hu, ih hv⟩

theorem follows_of_stage (h : stage leases holder t ops = .ok (t', false)) : t.Follows ops t' := by
  induction ops generalizing t with
  | nil => cases h; exact .nil
  | cons op ops ih =>
    obtain ⟨u, c₁, c₂, -, hc, hs, hor⟩ := stage_cons_eq_ok h
    obtain ⟨rfl, rfl⟩ : c₁ = false ∧ c₂ = false := by simpa using hor.symm
    rcases hc.unreported rfl with ⟨hop, rfl⟩ | ⟨r, e, rfl, hr, he, rfl⟩
    · exact (ih hs).cons_of_ne hop
    · exact .cons_putRule hr he (ih hs)

theorem stage_of_applyAs {b : Batch} (h : s.applyAs holder b = .ok (s', c)) :
    ∃ t, stage s.leases holder s.tables b.ops = .ok (t, c) ∧
      s' = if c then { s with tables := t } else s := by
  unfold applyAs at h
  obtain ⟨⟨t, c'⟩, hs, h⟩ := Except.bind_eq_ok.mp h
  cases h
  exact ⟨t, hs, rfl⟩

/-- A batch is performed as a whole, or it is dropped because nothing was reported; then the moves are lost. -/
theorem performed_of_applyAs {b : Batch} (h : s.applyAs holder b = .ok (s', c)) :
    ∃ t, s.tables.perform b.ops = .ok t ∧ (s'.tables = t ↔ c = true ∨ ¬ s.tables.Moves b.ops) := by
  obtain ⟨t, hs, rfl⟩ := stage_of_applyAs h
  refine ⟨t, perform_of_stage hs, ?_⟩
  cases c with
  | true => simp
  | false => simpa [eq_comm] using (follows_of_stage hs).eq_iff

theorem reported_iff {op : Op} (h : s.applyAs holder ⟨[op]⟩ = .ok (s', c)) :
    c = true ↔ s'.tables ≠ s.tables := by
  obtain ⟨-, ⟨rfl, rfl⟩ | ⟨rfl, hs⟩⟩ := applyAs_eq_ok h
  · simp
  · obtain ⟨u, c₁, c₂, -, hc, hs, hor⟩ := stage_cons_eq_ok hs
    cases hs
    simp only [Bool.or_false] at hor
    simp [hc.ne hor.symm]

theorem routed_of_applyAs {r : Rule} (h : s.applyAs holder ⟨ops ++ [.putRule r]⟩ = .ok (s', c)) :
    s'.tables.rules.get? r.destination = some r ∧
      (s'.tables.egress? r.destination = some r.egress ↔
        c = true ∨ s.tables.egress? r.destination = some r.egress) := by
  obtain ⟨t, hs, rfl⟩ := stage_of_applyAs h
  cases c with
  | true =>
    obtain ⟨u, c, -, hc⟩ := (Tables.leads_of_stage hs).concat
    cases hc with
    | rulePut => exact ⟨Table.get?_insert_self .., by simp [Tables.egress?]⟩
  | false => exact ⟨(follows_of_stage hs).rule r (by simp), by simp⟩

theorem routed_of_relocate {addr : Addr} {egress : EgressPort} {mac : Option Mac} {host : Option HostName}
    (hi : s.tables.Intact) (h : s.relocate addr egress mac host = .ok (s', c)) :
    (s'.tables.rules.get? addr).map Rule.egress = some egress ∧
      (s'.tables.egress? addr = some egress ↔
        c = true ∨ host.isSome ∨ s.tables.egress? addr = some egress) := by
  unfold relocate at h
  split at h
  · cases h
  · next e he =>
    obtain ⟨hr, hp⟩ := routed_of_applyAs h
    refine ⟨congrArg (Option.map Rule.egress) hr, ?_⟩
    cases host with
    | none => simpa using hp
    | some host =>
      simp only [Option.isSome_some, true_or, or_true, iff_true]
      cases c with
      | true => exact hp.2 (.inl rfl)
      | false =>
        obtain ⟨t, hs, rfl⟩ := stage_of_applyAs h
        obtain ⟨u, c₁, c₂, -, hc, -, hor⟩ := stage_cons_eq_ok hs
        have hput : u.endpoints.get? (e.relocated host egress).addr = some (e.relocated host egress) := by
          cases hc
          exact Table.get?_insert_self ..
        obtain ⟨rfl, -⟩ : c₁ = false ∧ c₂ = false := by simpa using hor.symm
        -- the endpoint was there as it was put, and so had the port already
        rcases hc.unreported rfl with ⟨-, rfl⟩ | ⟨_, _, hop, -⟩
        · rw [Endpoint.addr_relocated, hi.endpoint _ _ he] at hput
          exact congrArg (Option.map Endpoint.egress) hput
        · cases hop

/-- What an accepted batch does to the tables of a store, and what it reports. All of it is done, but nothing
is kept of a batch that reports no change and yet moves an endpoint along a rule that is there already. -/
theorem accepted_write_performed {past : List Op} (h : s.History past) :
    (∀ holder b s' c, s.applyAs holder b = .ok (s', c) → ∃ t, s.tables.perform b.ops = .ok t ∧
      (s'.tables = t ↔ c = true ∨ ¬ s.tables.Moves b.ops)) ∧
    (∀ holder op s' c, s.applyAs holder ⟨[op]⟩ = .ok (s', c) → (c = true ↔ s'.tables ≠ s.tables)) ∧
    (∀ r s' c, s.applyOp (.putRule r) = .ok (s', c) →
      s'.tables.rules.get? r.destination = some r ∧
        (s'.tables.egress? r.destination = some r.egress ↔
          c = true ∨ s.tables.egress? r.destination = some r.egress)) ∧
    (∀ addr egress mac host s' c, s.relocate addr egress mac host = .ok (s', c) →
      (s'.tables.rules.get? addr).map Rule.egress = some egress ∧
        (s'.tables.egress? addr = some egress ↔
          c = true ∨ host.isSome ∨ s.tables.egress? addr = some egress)) := by
  refine ⟨?batch, ?single, ?rule, ?move⟩
  case batch =>
    intro holder b s' c hb
    exact performed_of_applyAs hb
  case single =>
    intro holder op s' c hop
    exact reported_iff hop
  case rule =>
    intro r s' c hr
    replace hr : s.applyAs none ⟨[] ++ [.putRule r]⟩ = .ok (s', c) := hr
    exact routed_of_applyAs hr
  case move =>
    intro addr egress mac host s' c hm
    exact routed_of_relocate (tables_intact_of_history h).1 hm

theorem accepted_write_performed_of_move :
    let e : Endpoint := ⟨⟨⟨10⟩, ⟨.replicate 6 1⟩⟩, "a", 1, "web"⟩
    let s := empty.act (.write none ⟨[.putEndpoint e, .putRule ⟨⟨10⟩, 1, none⟩]⟩)
    let routed := s.act (.write none ⟨[.putRule ⟨⟨10⟩, 2, none⟩]⟩)
    let moved := s.act (.relocate ⟨10⟩ 3 none (some "b"))
    s.tables.perform [.putRule ⟨⟨10⟩, 1, none⟩] = .ok s.tables ∧ routed.tables ≠ s.tables ∧
      routed.tables.egress? ⟨10⟩ = some 2 ∧ moved.tables.egress? ⟨10⟩ = some 3 := by
  intro e s routed moved
  have h : s.History _ := .act _ .empty
  obtain ⟨hbatch, hsingle, hrule, hmove⟩ := accepted_write_performed h
  refine ⟨?_, ?_, ?_, ?_⟩
  · obtain ⟨t, ht, heq⟩ := hbatch none ⟨[.putRule ⟨⟨10⟩, 1, none⟩]⟩ s false (by rfl)
    have hst : s.tables = t := by
      refine heq.2 (.inr ?_)
      rintro ⟨r, e', hr, he, hne⟩
      cases List.mem_singleton.1 hr
      cases he
      exact hne rfl
    rw [ht, hst]
  · exact (hsingle none (.putRule ⟨⟨10⟩, 2, none⟩) routed true (by rfl)).1 rfl
  · exact (hrule ⟨⟨10⟩, 2, none⟩ routed true (by rfl)).2.2 (.inl rfl)
  · exact (hmove ⟨10⟩ 3 none (some "b") moved true (by rfl)).2.2 (.inl rfl)

/-- An endpoint that is put elsewhere and then has its old rule put again. -/
theorem unreported_move_lost :
    let e : Endpoint := ⟨⟨⟨10⟩, ⟨.replicate 6 1⟩⟩, "a", 1, "web"⟩
    let r : Rule := ⟨⟨10⟩, 1, none⟩
    let s := (empty.act (.write none ⟨[.putEndpoint e, .putRule r]⟩)).act
      (.write none ⟨[.putEndpoint { e with egress := 2 }]⟩)
    (∃ past, s.History past) ∧ s.applyOp (.putRule r) = .ok (s, false) ∧
      s.tables.egress? ⟨10⟩ = some 2 ∧ s.tables.perform [.putRule r] ≠ .ok s.tables := by
  intro e r s
  refine ⟨⟨_, .act _ (.act _ .empty)⟩, by rfl, by decide, ?_⟩
  intro h
  have h' := congrArg (fun x => x.toOption.map Tables.endpoints) h
  revert h'
  decide

end Store

end LiveMigration
