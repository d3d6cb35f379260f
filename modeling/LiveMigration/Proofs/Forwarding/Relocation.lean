import LiveMigration.Proofs.Forwarding.Report

namespace LiveMigration

def Endpoint.moved (e : Endpoint) (egress : EgressPort) (host : Option HostName) : Endpoint :=
  e.relocated (host.getD e.host) egress

namespace Tables

variable {t : Tables} {e : Endpoint} {r : Rule}

def place (t : Tables) (e : Endpoint) (r : Rule) : Tables where
  groups := t.groups
  endpoints := t.endpoints.insert r.destination e
  rules := t.rules.insert r.destination r
  nat := t.nat

theorem place_eq_self : t.place e r = t ↔
    t.endpoints.get? r.destination = some e ∧ t.rules.get? r.destination = some r := by
  constructor
  · intro h
    exact ⟨Table.insert_eq_self.1 (congrArg endpoints h), Table.insert_eq_self.1 (congrArg rules h)⟩
  · rintro ⟨he, hr⟩
    rw [place, Table.insert_eq_self.2 he, Table.insert_eq_self.2 hr]

theorem place_of_put (t : Tables) (e : Endpoint) (r : Rule) :
    place { t with endpoints := t.endpoints.insert r.destination e } e r = t.place e r := by
  simp [place, Table.insert_eq_self]

theorem apply_putRule (he : t.endpoints.get? r.destination = some e) : t.apply (.putRule r) =
    .ok (t.place { e with egress := r.egress } r, t.rules.get? r.destination ≠ some r) := by
  simp only [apply, putRule, he]
  rfl

end Tables

namespace Store

variable {s s' : Store} {addr : Addr} {egress : EgressPort} {mac : Option Mac} {host : Option HostName}
  {e : Endpoint} {c : Bool}

def movedRule (s : Store) (addr : Addr) (egress : EgressPort) (mac : Option Mac) : Rule :=
  ⟨addr, egress, mac <|> (s.tables.rules.get? addr).bind Rule.mac⟩

theorem moveBatch_ops (s : Store) (e : Endpoint) (addr : Addr) (egress : EgressPort) (mac : Option Mac)
    (host : Option HostName) : (s.moveBatch e addr egress mac host).ops =
      (host.map fun h => Op.putEndpoint (e.relocated h egress)).toList ++
        [.putRule (s.movedRule addr egress mac)] := rfl

def relocates (s : Store) (e : Endpoint) (addr : Addr) (egress : EgressPort) (mac : Option Mac)
    (host : Option HostName) : Bool :=
  host.isSome && e ≠ e.moved egress host || s.tables.rules.get? addr ≠ some (s.movedRule addr egress mac)

def moveTo (s : Store) (e : Endpoint) (addr : Addr) (egress : EgressPort) (mac : Option Mac)
    (host : Option HostName) : Store :=
  { s with tables := s.tables.place (e.moved egress host) (s.movedRule addr egress mac) }

theorem stage_moveBatch (egress : EgressPort) (mac : Option Mac) (host : Option HostName)
    (he : s.tables.endpoints.get? addr = some e) (ha : e.addr = addr)
    (hfree : checkLease s.leases none [addr] = .ok ()) :
    stage s.leases none s.tables (s.moveBatch e addr egress mac host).ops =
      .ok ((s.moveTo e addr egress mac host).tables, s.relocates e addr egress mac host) := by
  rw [moveBatch_ops]
  cases host with
  | none =>
    have hput := s.tables.apply_putRule (r := s.movedRule addr egress mac) he
    rw [Option.map_none, Option.toList_none, List.nil_append, stage_cons hfree hput]
    simp only [stage, Except.map, Bool.or_false]
    rfl
  | some host =>
    let t : Tables :=
      { s.tables with endpoints := s.tables.endpoints.insert addr (e.relocated host egress) }
    have hrecord : s.tables.apply (.putEndpoint (e.relocated host egress)) =
        .ok (t, e ≠ e.relocated host egress) := by
      simp [Tables.apply, Tables.putEndpoint, t, ha, he]
    have hown : checkLease s.leases none (s.tables.touched (.putEndpoint (e.relocated host egress))) =
        .ok () := by rwa [Tables.touched, Endpoint.addr_relocated, ha]
    have hput := t.apply_putRule (r := s.movedRule addr egress mac) (Table.get?_insert_self ..)
    -- the rule writes the record once more, as it is by then
    have hplace : t.place (e.relocated host egress) (s.movedRule addr egress mac) =
        (s.moveTo e addr egress mac (some host)).tables := Tables.place_of_put ..
    rw [Option.map_some, Option.toList_some, List.singleton_append, stage_cons hown hrecord,
      stage_cons hfree hput, ← hplace]
    simp only [stage, Except.map, Bool.or_false]
    rfl

theorem relocate_eq (egress : EgressPort) (mac : Option Mac) (host : Option HostName)
    (he : s.tables.endpoints.get? addr = some e) (ha : e.addr = addr)
    (hl : s.leases.get? addr = none) : s.relocate addr egress mac host =
      .ok (if s.relocates e addr egress mac host then s.moveTo e addr egress mac host else s,
        s.relocates e addr egress mac host) := by
  have hfree : checkLease s.leases none [addr] = .ok () := by simp [checkLease, hl]
  simp only [relocate, he, apply, applyAs, stage_moveBatch egress mac host he ha hfree, bind, Except.bind,
    pure, Except.pure]
  rfl

theorem granted_of_relocate (hi : s.tables.Intact) (h : s.relocate addr egress mac host = .ok (s', c)) :
    ∃ e, s.tables.endpoints.get? addr = some e ∧ e.addr = addr ∧ s.leases.get? addr = none := by
  unfold relocate at h
  split at h
  · cases h
  · next e he =>
    have ha := hi.endpoint addr e he
    obtain ⟨t, hs, -⟩ := stage_of_applyAs h
    rw [moveBatch_ops] at hs
    have hfree : checkLease s.leases none [addr] = .ok () := by
      cases host with
      | none =>
        obtain ⟨_, _, _, hl, -⟩ := stage_cons_eq_ok hs
        exact hl
      | some host =>
        obtain ⟨_, _, _, hl, -⟩ := stage_cons_eq_ok hs
        rwa [Tables.touched, Endpoint.addr_relocated, ha] at hl
    refine ⟨e, he, ha, Option.eq_none_iff_forall_ne_some.2 fun owner ho => ?_⟩
    cases checkLease_eq_ok.1 hfree addr (List.mem_singleton_self _) owner ho

theorem endpoint_moveTo (s : Store) (e : Endpoint) :
    (s.moveTo e addr egress mac host).tables.endpoints.get? addr = some (e.moved egress host) :=
  Table.get?_insert_self ..

theorem rule_moveTo (s : Store) (e : Endpoint) :
    (s.moveTo e addr egress mac host).tables.rules.get? addr = some (s.movedRule addr egress mac) :=
  Table.get?_insert_self ..

theorem relocates_eq_false : s.relocates e addr egress mac host = false ↔
    (host.isSome → e = e.moved egress host) ∧
      s.tables.rules.get? addr = some (s.movedRule addr egress mac) := by
  simp [relocates]

theorem movedRule_moveTo (s : Store) (e : Endpoint) :
    (s.moveTo e addr egress mac host).movedRule addr egress mac = s.movedRule addr egress mac := by
  rw [movedRule, rule_moveTo]
  cases mac <;> rfl

theorem relocates_moveTo (s : Store) (e : Endpoint) :
    (s.moveTo e addr egress mac host).relocates (e.moved egress host) addr egress mac host = false := by
  refine relocates_eq_false.2 ⟨fun _ => ?_, ?_⟩
  · cases host <;> rfl
  · rw [rule_moveTo, movedRule_moveTo]

theorem relocate_moveTo (s : Store) (ha : e.addr = addr) (hl : s.leases.get? addr = none) :
    (s.moveTo e addr egress mac host).relocate addr egress mac host =
      .ok (s.moveTo e addr egress mac host, false) := by
  have he : (s.moveTo e addr egress mac host).tables.endpoints.get? addr =
      some (e.moved egress host) := endpoint_moveTo s e
  rw [relocate_eq egress mac host he ha hl, relocates_moveTo]
  rfl

/-- A store and the same one after a relocation, whether or not that had anything to report. -/
structure Relocated (s s' : Store) (addr : Addr) (egress : EgressPort) (mac : Option Mac)
    (host : Option HostName) : Prop where
  leases : s'.leases = s.leases
  groups : s'.tables.groups = s.tables.groups
  nat : s'.tables.nat = s.tables.nat
  endpoint_ne : ∀ a, a ≠ addr → s'.tables.endpoints.get? a = s.tables.endpoints.get? a
  rule_ne : ∀ a, a ≠ addr → s'.tables.rules.get? a = s.tables.rules.get? a
  endpoint : ∃ e e', s.tables.endpoints.get? addr = some e ∧ s'.tables.endpoints.get? addr = some e' ∧
    e'.identity = e.identity ∧ e'.container = e.container ∧ e'.host = host.getD e.host
  rule : s'.tables.rules.get? addr =
    some ⟨addr, egress, mac <|> (s.tables.rules.get? addr).bind Rule.mac⟩

theorem relocated_moveTo (he : s.tables.endpoints.get? addr = some e) :
    s.Relocated (s.moveTo e addr egress mac host) addr egress mac host where
  leases := rfl
  groups := rfl
  nat := rfl
  endpoint_ne _ ha := Table.get?_insert_of_ne ha.symm
  rule_ne _ ha := Table.get?_insert_of_ne ha.symm
  endpoint := ⟨e, e.moved egress host, he, endpoint_moveTo s e, rfl, rfl, rfl⟩
  rule := rule_moveTo s e

theorem relocated_of_relocates (he : s.tables.endpoints.get? addr = some e)
    (h : s.relocates e addr egress mac host = false) : s.Relocated s addr egress mac host where
  leases := rfl
  groups := rfl
  nat := rfl
  endpoint_ne _ _ := rfl
  rule_ne _ _ := rfl
  endpoint := by
    refine ⟨e, e, he, he, rfl, rfl, ?_⟩
    cases host with
    | none => rfl
    | some host => exact congrArg Endpoint.host ((relocates_eq_false.1 h).1 rfl)
  rule := (relocates_eq_false.1 h).2

theorem moveTo_ne (he : s.tables.endpoints.get? addr = some e)
    (h : s.relocates e addr egress mac host = true) :
    (s.moveTo e addr egress mac host).tables ≠ s.tables := by
  intro ht
  obtain ⟨he', hr⟩ := Tables.place_eq_self.1 ht
  have hmoved : e = e.moved egress host := Option.some.inj (he.symm.trans he')
  have hno := relocates_eq_false.2 ⟨fun _ => hmoved, hr⟩
  cases h.symm.trans hno

/-- A relocation that goes through writes the record and the rule of its address and nothing else: the identity
and the container stay as they are, and the host and the hardware address unless they are given. The same call
made again reports no change and makes none. A relocation that is refused changes nothing. -/
theorem relocation_idempotent_and_local {past : List Op} (h : s.History past) (addr : Addr)
    (egress : EgressPort) (mac : Option Mac) (host : Option HostName) :
    (∀ s' c, s.relocate addr egress mac host = .ok (s', c) →
      s'.relocate addr egress mac host = .ok (s', false) ∧ (c = true ↔ s'.tables ≠ s.tables) ∧
        s.Relocated s' addr egress mac host) ∧
    ∀ err, s.relocate addr egress mac host = .error err → s.act (.relocate addr egress mac host) = s := by
  refine ⟨fun s' c hs => ?_, fun err hs => ?_⟩
  · obtain ⟨e, he, ha, hl⟩ := granted_of_relocate h.intact hs
    have heq := relocate_eq egress mac host he ha hl
    cases hc : s.relocates e addr egress mac host with
    | false =>
      rw [hc] at heq
      cases hs.symm.trans heq
      exact ⟨hs, by simp, relocated_of_relocates he hc⟩
    | true =>
      rw [hc, if_pos rfl] at heq
      cases hs.symm.trans heq
      exact ⟨relocate_moveTo s ha hl, by simp [moveTo_ne he hc], relocated_moveTo he⟩
  · rw [act, hs, settle]

theorem relocation_idempotent_and_local_after_drift :
    let mac : Mac := ⟨.replicate 6 1⟩
    let e : Endpoint := ⟨⟨⟨10⟩, mac⟩, "a", 1, "web"⟩
    let s := (empty.act (.write none ⟨[.putEndpoint e, .putRule ⟨⟨10⟩, 1, some mac⟩]⟩)).act
      (.write none ⟨[.putEndpoint { e with egress := 2 }]⟩)
    let s' := s.act (.relocate ⟨10⟩ 3 none (some "b"))
    s.relocate ⟨10⟩ 3 none (some "b") = .ok (s', true) ∧
      s'.relocate ⟨10⟩ 3 none (some "b") = .ok (s', false) ∧ s'.tables ≠ s.tables ∧
      s'.tables.rules.get? ⟨10⟩ = some ⟨⟨10⟩, 3, some mac⟩ ∧
      s.relocate ⟨11⟩ 3 none none = .error (.notFound (.endpoint ⟨11⟩)) ∧
      s.act (.relocate ⟨11⟩ 3 none none) = s := by
  intro mac e s s'
  have h : s.History _ := .act _ (.act _ .empty)
  have hmove : s.relocate ⟨10⟩ 3 none (some "b") = .ok (s', true) := by rfl
  have hrefused : s.relocate ⟨11⟩ 3 none none = .error (.notFound (.endpoint ⟨11⟩)) := by rfl
  obtain ⟨hagain, hne, hmoved⟩ := (relocation_idempotent_and_local h ⟨10⟩ 3 none (some "b")).1 _ _ hmove
  have hsame := (relocation_idempotent_and_local h ⟨11⟩ 3 none none).2 _ hrefused
  exact ⟨hmove, hagain, hne.1 rfl, hmoved.rule, hrefused, hsame⟩

end Store

end LiveMigration
