import LiveMigration.Proofs.Forwarding.Report
import LiveMigration.Proofs.Forwarding.Service

namespace LiveMigration

namespace Table

variable {κ : Type u} {ν : Type v} [Ranked κ] {t : Table κ ν} {k : κ}

theorem mem_keys_iff : k ∈ t.keys ↔ t.contains k = true := by
  simp [keys, contains, mem_entries_iff, Option.isSome_iff_exists]

theorem nodup_keys (t : Table κ ν) : t.keys.Nodup := t.ascending.nodup_keys

theorem insert_insert {x y : ν} : (t.insert k x).insert k y = t.insert k y := by
  apply ext_get?
  intro k'
  simp only [get?_insert]
  split <;> rfl

end Table

namespace Tables

variable {t u v : Tables} {vip : Addr} {ops more : List Op}

theorem perform_cons {op : Op} {c : Bool} (h : t.apply op = .ok (u, c)) :
    t.perform (op :: ops) = u.perform ops := by
  rw [perform, h]
  rfl

theorem perform_append (h : t.perform ops = .ok u) : t.perform (ops ++ more) = u.perform more := by
  induction ops generalizing t with
  | nil =>
    cases h
    rfl
  | cons op ops ih =>
    obtain ⟨⟨t', c⟩, ha, h⟩ := Except.bind_eq_ok.1 h
    rw [List.cons_append, perform_cons ha, ih h]

theorem perform_sweep [Ranked κ] {P : Table κ ν → Prop} {f : Table κ ν → Tables} {op : κ → Op}
    (step : ∀ r k, P r → r.contains k = true →
      P (r.erase k) ∧ ∃ c, (f r).apply (op k) = .ok (f (r.erase k), c))
    {r : Table κ ν} {ks : List κ} (hks : ks.Nodup) (hr : ∀ k, k ∈ ks ↔ r.contains k = true) (h : P r) :
    (f r).perform (ks.map op) = .ok (f ∅) := by
  induction ks generalizing r with
  | nil =>
    have he : r = ∅ := by
      apply Table.ext_get?
      intro k
      exact Table.contains_eq_false.1 (Bool.eq_false_iff.2 fun hc => List.not_mem_nil ((hr k).2 hc))
    rw [he]
    rfl
  | cons k ks ih =>
    obtain ⟨hk, hks⟩ := List.nodup_cons.1 hks
    obtain ⟨hp, c, ha⟩ := step r k h ((hr k).1 List.mem_cons_self)
    rw [List.map_cons, perform_cons ha]
    refine ih hks (fun k' => ?_) hp
    by_cases he : k = k'
    · subst he
      simp [hk, Table.contains]
    · have hm := hr k'
      rw [List.mem_cons] at hm
      rw [Table.contains, Table.get?_erase_of_ne he]
      exact ⟨fun h => hm.1 (.inr h), fun h => (hm.2 h).resolve_left (Ne.symm he)⟩

theorem setGroup_setGroup {g g' : Group} : (t.setGroup vip g).setGroup vip g' = t.setGroup vip g' := by
  simp only [setGroup, Table.insert_insert]

end Tables

def Group.vacated (g : Group) : Group := { g with slots := List.replicate g.slots.length none }

theorem Group.members_vacated (g : Group) : g.vacated.members = [] := by
  simp [members, vacated]

namespace Tables

variable {t u v : Tables} {vip : Addr} {ops more : List Op}

theorem apply_unbind {g : Group} {i : UInt16} {m : Member} (hg : t.groups.get? vip = some g)
    (hs : g.slots[i.toNat]? = some (some m)) :
    t.apply (.unbind vip i) = .ok (t.setGroup vip (g.setSlot i none), true) := by
  rw [apply, unbind, group_eq_ok.2 hg]
  change (g.slot i >>= _) = _
  rw [Group.slot_eq_ok.2 hs]
  rfl

theorem perform_unbind {g : Group} {n : Nat} (slots : List (Option Member))
    (hg : t.groups.get? vip = some { g with slots := List.replicate n none ++ slots })
    (hi : ∀ (j : Nat) m, slots[j]? = some (some m) → m.index.toNat = n + j) :
    t.perform ((slots.filterMap id).map fun m => .unbind vip m.index) =
      .ok (t.setGroup vip { g with slots := List.replicate (n + slots.length) none }) := by
  induction slots generalizing t n with
  | nil => rw [setGroup_eq_self.2 (by simpa using hg)]; rfl
  | cons s slots ih =>
    have hrest : ∀ (j : Nat) m, slots[j]? = some (some m) → m.index.toNat = n + 1 + j := by
      intro j m hm
      have := hi (j + 1) m hm
      omega
    have hlen : n + (s :: slots).length = n + 1 + slots.length := by
      rw [List.length_cons]
      omega
    cases s with
    | none =>
      have hg' : t.groups.get? vip = some { g with slots := List.replicate (n + 1) none ++ slots } := by
        rw [hg, List.replicate_succ']
        simp
      rw [hlen, List.filterMap_cons_none rfl, ih hg' hrest]
    | some m =>
      have hm : m.index.toNat = n := hi 0 m rfl
      have hslot : (List.replicate n none ++ some m :: slots)[m.index.toNat]? = some (some m) := by
        simp [hm]
      have hset : (List.replicate n none ++ some m :: slots).set m.index.toNat none =
          List.replicate (n + 1) none ++ slots := by
        rw [hm, List.set_append_right _ _ (by simp), List.replicate_succ']
        simp
      have ha : t.apply (.unbind vip m.index) =
          .ok (t.setGroup vip { g with slots := List.replicate (n + 1) none ++ slots }, true) := by
        rw [apply_unbind hg hslot, Group.setSlot, hset]
      rw [List.filterMap_cons_some (f := id) rfl, List.map_cons, perform_cons ha,
        ih (Table.get?_insert_self ..) hrest, setGroup_setGroup, hlen]

theorem perform_unbindAll {gs : List (Addr × Group)} (hn : (gs.map Prod.fst).Nodup)
    (hg : ∀ e ∈ gs, t.groups.get? e.1 = some e.2) (hs : ∀ e ∈ gs, e.2.Sound t.endpoints e.1) :
    ∃ groups, t.perform (gs.flatMap fun e => e.2.members.map fun m => .unbind e.2.vip m.index) =
        .ok { t with groups } ∧
      ∀ vip, groups.get? vip =
        if vip ∈ gs.map Prod.fst then (t.groups.get? vip).map Group.vacated else t.groups.get? vip := by
  induction gs generalizing t with
  | nil => exact ⟨t.groups, rfl, fun vip => rfl⟩
  | cons e gs ih =>
    obtain ⟨vip, g⟩ := e
    rw [List.forall_mem_cons] at hg hs
    obtain ⟨hv, hn⟩ := List.nodup_cons.1 hn
    have hone : t.perform (g.members.map fun m => .unbind g.vip m.index) =
        .ok (t.setGroup vip g.vacated) := by
      have h := perform_unbind (n := 0) g.slots hg.1 fun j m hm => by
        rw [(hs.1.slot j m hm).1]
        omega
      rw [Nat.zero_add] at h
      rw [hs.1.vip]
      exact h
    have hothers : ∀ e ∈ gs, (t.setGroup vip g.vacated).groups.get? e.1 = some e.2 := by
      intro e he
      refine (Table.get?_insert_of_ne ?_).trans (hg.2 e he)
      rintro rfl
      exact hv (List.mem_map.2 ⟨e, he, rfl⟩)
    obtain ⟨groups, hp, hgroups⟩ := ih hn hothers hs.2
    refine ⟨groups, ?_, fun vip' => ?_⟩
    · rw [List.flatMap_cons, perform_append hone, hp]
      rfl
    · rw [hgroups, setGroup]
      by_cases h : vip' = vip
      · subst h
        simp [hv, hg.1]
      · rw [Table.get?_insert_of_ne (Ne.symm h), List.map_cons]
        simp only [List.mem_cons, h, false_or]

theorem apply_deleteGroup {g : Group} (hg : t.groups.get? vip = some g) (hm : g.members = [])
    (hn : t.nat = ∅) : t.apply (.deleteGroup vip) = .ok ({ t with groups := t.groups.erase vip }, true) := by
  have he : g.isEmpty = true := Group.isEmpty_iff.2 (by simp [hm])
  have hfind : t.nat.entries.find? (·.2 = vip) = none := by
    rw [hn]
    rfl
  rw [apply, deleteGroup, group_eq_ok.2 hg]
  change (if !g.isEmpty then _ else _) = _
  rw [he, hfind]
  rfl

theorem apply_removeRule {addr : Addr} (hr : t.rules.contains addr = true) (hm : t.members = []) :
    t.apply (.removeRule addr) = .ok ({ t with rules := t.rules.erase addr }, true) := by
  rw [apply, removeRule, hr, hm]
  rfl

theorem apply_removeEndpoint {addr : Addr} (he : t.endpoints.contains addr = true) (hm : t.members = [])
    (hr : t.rules = ∅) :
    t.apply (.removeEndpoint addr) = .ok ({ t with endpoints := t.endpoints.erase addr }, true) := by
  rw [apply, removeEndpoint, he, hm, hr]
  rfl

theorem perform_deleteNats (t : Tables) : t.perform (t.nat.keys.map .deleteNat) = .ok { t with nat := ∅ } :=
  perform_sweep (P := fun _ => True) (f := fun nat => { t with nat }) (fun _ _ _ _ => ⟨trivial, _, rfl⟩)
    t.nat.nodup_keys (fun _ => Table.mem_keys_iff) trivial

theorem perform_deleteGroups {vips : List Addr} (hn : t.nat = ∅) (hv : vips.Nodup)
    (hk : ∀ vip, vip ∈ vips ↔ t.groups.contains vip = true)
    (hm : ∀ vip g, t.groups.get? vip = some g → g.members = []) :
    t.perform (vips.map .deleteGroup) = .ok { t with groups := ∅ } := by
  refine perform_sweep (P := fun groups => ∀ vip g, groups.get? vip = some g → g.members = [])
    (f := fun groups => { t with groups }) (fun r vip hr hc => ?_) hv hk hm
  obtain ⟨g, hg⟩ := Option.isSome_iff_exists.1 hc
  exact ⟨fun vip g hg => hr vip g (Table.get?_erase_cases hg).2, true, apply_deleteGroup hg (hr vip g hg) hn⟩

theorem perform_removeRules (hm : t.members = []) :
    t.perform (t.rules.keys.map .removeRule) = .ok { t with rules := ∅ } :=
  perform_sweep (P := fun _ => True) (f := fun rules => { t with rules })
    (fun _ _ _ hc => ⟨trivial, true, apply_removeRule hc hm⟩) t.rules.nodup_keys
    (fun _ => Table.mem_keys_iff) trivial

theorem perform_removeEndpoints (hm : t.members = []) (hr : t.rules = ∅) :
    t.perform (t.endpoints.keys.map .removeEndpoint) = .ok { t with endpoints := ∅ } :=
  perform_sweep (P := fun _ => True) (f := fun endpoints => { t with endpoints })
    (fun _ _ _ hc => ⟨trivial, true, apply_removeEndpoint hc hm hr⟩) t.endpoints.nodup_keys
    (fun _ => Table.mem_keys_iff) trivial

/-- Each operation comes when nothing refers any more to what it takes away. -/
theorem Intact.perform_teardown (h : t.Intact) : t.perform t.teardownOps = .ok .empty := by
  obtain ⟨groups, hmembers, hget⟩ := perform_unbindAll (t := { t with nat := ∅ }) t.groups.nodup_keys
    (fun e he => Table.mem_entries_iff.1 he) (fun e he => h.group e.1 e.2 (Table.mem_entries_iff.1 he))
  replace hget : ∀ vip, groups.get? vip =
      if vip ∈ t.groups.keys then (t.groups.get? vip).map Group.vacated else t.groups.get? vip := hget
  have hkeys : ∀ vip, vip ∈ t.groups.keys ↔ groups.contains vip = true := by
    intro vip
    rw [Table.mem_keys_iff, Table.contains, Table.contains, hget]
    split <;> simp
  have hvacant : ∀ vip g, groups.get? vip = some g → g.members = [] := by
    intro vip g hg
    have hvip : vip ∈ t.groups.keys := (hkeys vip).2 (Option.isSome_iff_exists.2 ⟨g, hg⟩)
    rw [hget, if_pos hvip] at hg
    obtain ⟨g', -, rfl⟩ := Option.map_eq_some_iff.1 hg
    exact g'.members_vacated
  have hvalues : (t.groups.values.flatMap fun g => g.members.map fun m => Op.unbind g.vip m.index) =
      t.groups.entries.flatMap fun e => e.2.members.map fun m => .unbind e.2.vip m.index :=
    List.flatMap_map ..
  -- Each kind of record goes when nothing refers to it any more.
  rw [teardownOps, hvalues]
  simp only [List.append_assoc]
  rw [perform_append t.perform_deleteNats, perform_append hmembers,
    perform_append (perform_deleteGroups rfl t.groups.nodup_keys hkeys hvacant),
    perform_append (perform_removeRules rfl), perform_removeEndpoints rfl rfl]
  rfl

theorem length_teardownOps (t : Tables) : t.teardownOps.length =
    t.nat.size + t.members.length + t.groups.size + t.rules.size + t.endpoints.size := by
  simp [teardownOps, members, Table.keys, Table.size, List.length_flatMap, Nat.add_assoc]

theorem Change.touched_registered {op : Op} {c : Bool} {addr : Addr} (h : t.Change op u c) (hi : t.Intact)
    (hop : op.Neutral) (ha : addr ∈ t.touched op) : t.endpoints.contains addr = true := by
  cases h with
  | endpointPut | boundAlready | rebound | bound => cases hop
  | endpointRemoved hc =>
    rw [touched, List.mem_singleton] at ha
    rwa [ha]
  | unbound hg hs | activeSet hg hs =>
    rw [touched, occupant?_eq hg hs, Option.mem_toList, Option.some.injEq] at ha
    rw [← ha]
    exact ((hi.group _ _ hg).slot _ _ hs).2
  | rulePut he =>
    rw [touched, List.mem_singleton] at ha
    rw [ha, Table.contains, he]
    rfl
  | ruleRemoved hc =>
    rw [touched, List.mem_singleton] at ha
    obtain ⟨r, hr⟩ := Option.isSome_iff_exists.1 hc
    rw [ha]
    exact (hi.rule _ r hr).2
  | _ => cases ha

theorem Change.registered {op : Op} {c : Bool} {addr : Addr} (h : t.Change op u c) (hop : op.Neutral)
    (ha : u.endpoints.contains addr = true) : t.endpoints.contains addr = true := by
  obtain ⟨e, he⟩ := Option.isSome_iff_exists.1 ha
  cases h with
  | endpointPut => cases hop
  | endpointRemoved => exact Option.isSome_iff_exists.2 ⟨e, (Table.get?_erase_cases he).2⟩
  | rulePut hr =>
    rcases Table.get?_insert_cases he with ⟨rfl, -⟩ | ⟨-, he⟩
    · exact Option.isSome_iff_exists.2 ⟨_, hr⟩
    · exact Option.isSome_iff_exists.2 ⟨e, he⟩
  | _ => exact ha

end Tables

namespace Store

variable {s s' : Store} {t u : Tables} {leases : Table Addr JobId} {holder : Option JobId} {ops : List Op}
  {e : Error}

theorem checkLease_eq_error {l : List Addr} (h : checkLease leases holder l = .error e) :
    ∃ a ∈ l, ∃ owner, leases.get? a = some owner ∧ some owner ≠ holder ∧ e = .conflict (.leased a owner) := by
  induction l with
  | nil => cases h
  | cons a l ih =>
    have later : checkLease leases holder l = .error e → ∃ a' ∈ a :: l, ∃ owner,
        leases.get? a' = some owner ∧ some owner ≠ holder ∧ e = .conflict (.leased a' owner) := by
      intro h
      obtain ⟨a', ha, h⟩ := ih h
      exact ⟨a', List.mem_cons_of_mem _ ha, h⟩
    simp only [checkLease] at h
    split at h
    · next owner ho =>
      split at h
      · exact later h
      · next hne =>
        cases h
        exact ⟨a, List.mem_cons_self, owner, ho, hne, rfl⟩
    · exact later h

theorem leased_of_refused (hi : t.Intact) (hn : ∀ op ∈ ops, op.Neutral) (hp : t.perform ops = .ok u)
    (h : stage leases holder t ops = .error e) : ∃ a owner, t.endpoints.contains a = true ∧
      leases.get? a = some owner ∧ some owner ≠ holder ∧ e = .conflict (.leased a owner) := by
  induction ops generalizing t with
  | nil => cases h
  | cons op ops ih =>
    rw [List.forall_mem_cons] at hn
    obtain ⟨⟨t', c⟩, ha, hp⟩ := Except.bind_eq_ok.1 hp
    have hc : t.Change op t' c := Tables.change_of_apply ha
    cases hl : checkLease leases holder (t.touched op) with
    | error e' =>
      simp only [stage, hl, bind, Except.bind] at h
      cases h
      obtain ⟨a, hm, owner, ho, hne, rfl⟩ := checkLease_eq_error hl
      exact ⟨a, owner, hc.touched_registered hi hn.1 hm, ho, hne, rfl⟩
    | ok _ =>
      cases hs : stage leases holder t' ops with
      | error e' =>
        simp only [stage, hl, ha, hs, bind, Except.bind] at h
        cases h
        obtain ⟨a, owner, hreg, h⟩ := ih (hi.change hc) hn.2 hp hs
        exact ⟨a, owner, hc.registered hn.1 hreg, h⟩
      | ok r =>
        simp only [stage, hl, ha, hs, bind, Except.bind] at h
        cases h

theorem checkLease_of_mem {op : Op} {c : Bool} (h : stage leases holder t ops = .ok (u, c)) (hop : op ∈ ops) :
    ∃ v : Tables, checkLease leases holder (v.touched op) = .ok () := by
  induction ops generalizing t c with
  | nil => cases hop
  | cons op' ops ih =>
    obtain ⟨t', c₁, c₂, hl, -, hs, -⟩ := stage_cons_eq_ok h
    rcases List.mem_cons.1 hop with rfl | hop
    · exact ⟨t, hl⟩
    · exact ih hs hop

theorem teardownAll_eq_ok {n : Nat} (h : s.teardownAll = .ok (s', n)) : n = s.tables.teardownOps.length ∧
    ∃ c, s.apply ⟨s.tables.teardownOps⟩ = .ok (s', c) := by
  obtain ⟨⟨s'', c⟩, ha, h⟩ := Except.bind_eq_ok.1 h
  cases h
  exact ⟨rfl, c, ha⟩

theorem teardownAll_eq_error (h : s.teardownAll = .error e) :
    stage s.leases none s.tables s.tables.teardownOps = .error e := by
  cases hs : stage s.leases none s.tables s.tables.teardownOps with
  | error e' =>
    simp only [teardownAll, apply, applyAs, hs, bind, Except.bind] at h
    cases h
    rfl
  | ok r =>
    simp only [teardownAll, apply, applyAs, hs, bind, Except.bind] at h
    cases h

theorem torn_down {n : Nat} (hi : s.tables.Intact) (h : s.teardownAll = .ok (s', n)) :
    s'.tables = .empty ∧ s'.leases = s.leases ∧
      n = s.tables.nat.size + s.tables.members.length + s.tables.groups.size + s.tables.rules.size +
        s.tables.endpoints.size := by
  obtain ⟨rfl, c, ha⟩ := teardownAll_eq_ok h
  refine ⟨?_, (applyAs_eq_ok ha).1, s.tables.length_teardownOps⟩
  obtain ⟨t, hp, ht⟩ := performed_of_applyAs ha
  cases hi.perform_teardown.symm.trans hp
  refine ht.2 (.inr ?_)
  rintro ⟨r, -, hr, -⟩
  simp [Tables.teardownOps] at hr

theorem leased_of_teardown_refused (hi : s.tables.Intact) (h : s.teardownAll = .error e) : ∃ a owner,
    s.tables.endpoints.contains a = true ∧ s.leases.get? a = some owner ∧
      e = .conflict (.leased a owner) := by
  obtain ⟨a, owner, ha, ho, -, he⟩ := leased_of_refused hi Tables.neutral_of_teardownOps hi.perform_teardown
    (teardownAll_eq_error h)
  exact ⟨a, owner, ha, ho, he⟩

theorem unleased_of_torn_down {n : Nat} {a : Addr} (h : s.teardownAll = .ok (s', n))
    (ha : s.tables.endpoints.contains a = true) : s.leases.get? a = none := by
  obtain ⟨-, c, hb⟩ := teardownAll_eq_ok h
  obtain ⟨t, hs, -⟩ := stage_of_applyAs hb
  have hop : Op.removeEndpoint a ∈ s.tables.teardownOps := by
    simp [Tables.teardownOps, Table.mem_keys_iff, ha]
  obtain ⟨v, hl⟩ := checkLease_of_mem hs hop
  rw [Option.eq_none_iff_forall_ne_some]
  intro owner ho
  cases checkLease_eq_ok.1 hl a List.mem_cons_self owner ho

theorem teardownAll_isOk_iff (hi : s.tables.Intact) : (∃ r, s.teardownAll = .ok r) ↔
    ∀ a owner, s.leases.get? a = some owner → s.tables.endpoints.get? a = none := by
  constructor
  · rintro ⟨⟨s', n⟩, h⟩ a owner ho
    cases he : s.tables.endpoints.get? a with
    | none => rfl
    | some e =>
      cases ho.symm.trans (unleased_of_torn_down h (Option.isSome_iff_exists.2 ⟨e, he⟩))
  · intro h
    cases ht : s.teardownAll with
    | ok r => exact ⟨r, rfl⟩
    | error e =>
      obtain ⟨a, owner, ha, ho, -⟩ := leased_of_teardown_refused hi ht
      rw [Table.contains, h a owner ho] at ha
      cases ha

theorem shutdown_eq_empty (hi : s.tables.Intact) :
    s.act .shutdown = .empty ∧ ∃ n, s.shutdown.2 = .ok n := by
  obtain ⟨⟨u, n⟩, h⟩ := (teardownAll_isOk_iff (s := { s with leases := ∅ }) hi).2 nofun
  obtain ⟨ht, hl, -⟩ := torn_down (s := { s with leases := ∅ }) hi h
  have hu : u = .empty := by
    cases u
    cases ht
    cases hl
    rfl
  simp only [act, shutdown, h]
  exact ⟨hu, n, rfl⟩

end Store

end LiveMigration
