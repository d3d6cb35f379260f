import LiveMigration.Proofs.Controller.Leases
import LiveMigration.Proofs.Controller.Redirection
import LiveMigration.Proofs.Forwarding.Patch
import LiveMigration.Proofs.Forwarding.Report

namespace LiveMigration

open Journal

theorem Tables.Intact.bound_iff {t : Tables} {addr : Addr} (h : t.Intact) :
    (∃ m ∈ t.members, m.endpoint = addr) ↔ ∃ vip i m, t.slotsOf addr vip i = some m := by
  constructor
  · rintro ⟨m, hm, he⟩
    obtain ⟨vip, g, hg, hm⟩ := mem_members_iff.1 hm
    obtain ⟨j, hj⟩ := Group.mem_members_iff.1 hm
    obtain rfl : m.index.toNat = j := ((h.group vip g hg).slot j m hj).1
    refine ⟨vip, m.index, m, ?_⟩
    rw [slotsOf_of_group hg, Group.member?_eq_some.2 hj]
    simp [he]
  · rintro ⟨vip, i, m, hs⟩
    obtain ⟨g, hg, hi, he⟩ := exists_slot_of_slotsOf hs
    exact ⟨m, mem_members_iff.2 ⟨vip, g, hg, Group.mem_members_iff.2 ⟨_, hi⟩⟩, he⟩

namespace Plan

variable {config : Config} {p : Plan} {s : Store}

def trafficPatch (config : Config) (p : Plan) : Patch where
  addr := p.target.addr
  endpoint := some p.target
  rule := some p.targetRule
  slot :=
    match p.mode with
    | .sameIdentity => none
    | .memberRebind => p.member
  port :=
    match p.mode with
    | .sameIdentity => Turn.replyPort config
    | .memberRebind => none

def retirePatch (p : Plan) : Patch := ⟨p.source.addr, none, none, none, none⟩

theorem withTarget_eq (p : Plan) (t : Tables) : p.withTarget t = { t with
    endpoints := t.endpoints.insert p.target.addr p.target
    rules := t.rules.insert p.target.addr p.targetRule } := by
  rw [withTarget, Table.insert_eq_self.2 (Table.get?_insert_self ..)]

theorem Ready.traffic_eq (h : p.Ready s) (config : Config) : s.applyAs (some p.id) (p.traffic config) =
    .ok ({ s with tables := s.tables.patch (p.trafficPatch config) }, true) := by
  obtain ⟨s', hs⟩ := h.traffic_accepted config
  have ht : s'.tables = s.tables.patch (p.trafficPatch config) := by
    rcases h.tables_of_traffic hs with ⟨hm, ht⟩ | ⟨hm, vip, i, g, m, hp, hg, hi, -, ht⟩
    · rw [ht, withTarget_eq]
      simp only [Tables.patch, trafficPatch, hm]
      rfl
    · rw [ht, withTarget_eq, ← Group.give_eq_setSlot hi]
      simp only [Tables.patch, trafficPatch, hm, hp, Tables.setGroup, Option.elim_some, Table.update, hg]
      rfl
  rw [hs, ← ht, ← (Store.applyAs_eq_ok hs).1]

def retireAnswer (p : Plan) (t : Tables) : Except Error Patch :=
  if t.rules.contains p.source.addr then
    if t.members.any (·.endpoint = p.source.addr) then .error (.integrity (.inUse p.source.addr))
    else .ok p.retirePatch
  else .error (.notFound (.rule p.source.addr))

theorem retire_eq (hl : s.leases.get? p.source.addr = some p.id) (hi : s.tables.Intact) :
    s.applyAs (some p.id) p.retireBatch =
      (p.retireAnswer s.tables).map fun P => ({ s with tables := s.tables.patch P }, true) := by
  have hheld : Store.checkLease s.leases (some p.id) [p.source.addr] = .ok () :=
    Store.checkLease_of_held (by simpa using hl)
  unfold retireAnswer
  split
  · next hrule =>
    split
    · next hany =>
      simp [Store.applyAs, retireBatch, Store.stage, Tables.touched, hheld, Tables.apply, Tables.removeRule,
        hrule, hany, bind, Except.bind, Except.map]
    · next hany =>
      let t : Tables := { s.tables with rules := s.tables.rules.erase p.source.addr }
      have hunruled : s.tables.apply (.removeRule p.source.addr) = .ok (t, true) := by
        simp [Tables.apply, Tables.removeRule, hrule, hany, t]
      have hgone : t.apply (.removeEndpoint p.source.addr) = .ok (s.tables.patch p.retirePatch, true) := by
        obtain ⟨r, hr⟩ := Option.isSome_iff_exists.1 hrule
        have hthere : t.endpoints.contains p.source.addr = true := (hi.rule _ _ hr).2
        have hfind : t.members.find? (·.endpoint = p.source.addr) = none := by
          rw [List.find?_eq_none]
          exact fun m hm he => hany (List.any_eq_true.2 ⟨m, hm, he⟩)
        have hout : t.rules.contains p.source.addr = false :=
          Table.contains_eq_false.2 (Table.get?_erase_self ..)
        simp only [Tables.apply, Tables.removeEndpoint, hthere, hfind, hout]
        rfl
      simp only [Store.applyAs, retireBatch, Store.stage_cons hheld hunruled, Store.stage_cons hheld hgone]
      rfl
  · next hrule =>
    simp [Store.applyAs, retireBatch, Store.stage, Tables.touched, hheld, Tables.apply, Tables.removeRule,
      hrule, bind, Except.bind, Except.map]

theorem retireAnswer_congr {t t' : Tables} (hi : t.Intact) (hi' : t'.Intact)
    (hrule : t'.rules.get? p.source.addr = t.rules.get? p.source.addr)
    (hslots : t'.slotsOf p.source.addr = t.slotsOf p.source.addr) : p.retireAnswer t' = p.retireAnswer t := by
  have hany : t'.members.any (·.endpoint = p.source.addr) = t.members.any (·.endpoint = p.source.addr) := by
    rw [Bool.eq_iff_iff]
    simp only [List.any_eq_true, decide_eq_true_eq, hi.bound_iff, hi'.bound_iff, hslots]
  have hcontains : t'.rules.contains p.source.addr = t.rules.contains p.source.addr := by
    simp only [Table.contains, hrule]
  rw [retireAnswer, retireAnswer, hcontains, hany]

end Plan

namespace Watch

variable {w : Watch} {i : Input} {id : JobId}

theorem publishes_iff (hw : w.Sound) (ht : w.controller.Turned i id j r before t) :
    (∃ k, .publish k ∈ t.effects) ↔ t.run.stage = .finished := by
  have hnone := (hw.stands id).published_iff ht.job
  have hstands := (hw.step i).stands id
  rw [journal_step, ht.log] at hstands
  have hend := hstands.published_iff ht.job_after
  rw [ht.run] at hnone
  have hnew : (∃ k, .publish k ∈ t.effects) ↔ (w.step i).controller.run? id = none := by
    rw [← hend]
    simp only [List.mem_append, ht.before_idle, false_or, exists_or]
    simp only [hnone, reduceCtorEq, false_or]
    simp
  rw [hnew, controller_step]
  by_cases hf : t.run.stage = .finished
  · simp [hf, ht.run_finished hf]
  · simp [hf, ht.run_after hf]

def Holds (w : Watch) (id : JobId) : Prop :=
  ∀ r, w.controller.run? id = some r → ∀ a ∈ [r.plan.source.addr, r.plan.target.addr],
    w.controller.store.leases.get? a = some id

theorem holds_step (hw : w.Sound) (hi : ∀ a, i = .store a → a.ByOthers id)
    (hintact : w.controller.store.tables.Intact) (h : w.Holds id) : (w.step i).Holds id := by
  intro r hr a ha
  rw [controller_step] at hr ⊢
  cases hw.fate i id with
  | spared _ hsame _ hacts =>
    rw [hsame] at hr
    rw [w.controller.store_step]
    have hkept := Store.leased_address_isolated (h r hr a ha) (byOthers_of_spared hi hacts)
    exact (congrArg Store.Holding.lease hkept).trans (h r hr a ha)
  | cancelled hc _ _ _ hsame =>
    rw [hsame] at hr
    rw [w.controller.store_step, hc]
    exact h r hr a ha
  | accepted _ _ _ hnew _ _ _ hready =>
    cases hr.symm.trans hnew
    have hready := hready hintact
    have hid : r.plan.id = id := Controller.plan_id_of_run? hr
    rw [← hid]
    simp only [List.mem_cons, List.not_mem_nil, or_false] at ha
    rcases ha with rfl | rfl
    · exact hready.leased
    · exact hready.target_leased
  | @turned j r' before t ht =>
    have hrest : t.run.stage ≠ .finished := by
      intro hf
      cases hr.symm.trans (ht.run_finished hf)
    cases hr.symm.trans (ht.run_after hrest)
    rw [ht.yields.plan] at ha
    have hheld := ht.yields.of_start.1.leased_iff (a := a)
    rw [hw.lease_job ht.run] at hheld
    rw [ht.store, hheld]
    exact ⟨h _ ht.run a ha, fun _ k hk => hrest ((publishes_iff hw ht).1 ⟨k, hk⟩)⟩

theorem upheld_foldl {inputs : List Input} (hw : w.Sound) (hintact : w.controller.store.tables.Intact)
    (hj : w.controller.job? id = none) (hi : ∀ a, .store a ∈ inputs → a.ByOthers id) :
    (inputs.foldl step w).Faithful id ∧ (inputs.foldl step w).Holds id := by
  obtain ⟨hr, -, hf⟩ := faithful_of_unknown hw hintact hj
  refine foldl_induction (q := fun i => ∀ a, i = .store a → a.ByOthers id)
    (P := fun w => w.Faithful id ∧ w.Holds id) ?_ ?_ hw ⟨hf, fun r hr' => ?_⟩
  · intro w i hw hi h
    exact ⟨faithful_step hw hi h.1, holds_step hw hi h.1.intact h.2⟩
  · rintro i hm a rfl
    exact hi a hm
  · cases hr.symm.trans hr'

end Watch

end LiveMigration
