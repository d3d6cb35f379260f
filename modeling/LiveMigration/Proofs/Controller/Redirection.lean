import LiveMigration.Proofs.Controller.Writes
import LiveMigration.Proofs.Forwarding.Flows
import LiveMigration.Proofs.Migration.Copies

namespace LiveMigration

open Journal

namespace Plan

section

variable (config : Config) (p : Plan) (t t' : Tables)

/-- A target with the address of its source takes its flows over, however they come to it. -/
structure TakesOver : Prop where
  moved : ∀ flow hop, t.hop? flow = some hop → hop.endpoint = p.source.addr →
    t'.resolve? flow = some (hop.along p.targetRule)
  others : ∀ flow, (∀ hop, t.hop? flow = some hop → hop.endpoint ≠ p.source.addr) →
    t'.resolve? flow = t.resolve? flow

structure Replaces (vip : Addr) (i : UInt16) : Prop where
  slot : ∃ m, t.slotsOf p.source.addr vip i = some m ∧
    t'.slotsOf p.target.addr vip i = some { m with endpoint := p.target.addr }
  moved : ∀ flow, t.hop? flow = some (.slot vip i p.source.addr) →
    t'.resolve? flow = some ((Hop.slot vip i p.target.addr).along p.targetRule)
  others : ∀ flow, t.hop? flow ≠ some (.slot vip i p.source.addr) →
    t.hop? flow ≠ some (.direct p.target.addr) → t'.resolve? flow = t.resolve? flow

/-- The flows of a migration are moved, and no others. Replies keep their source address but for those of
a service whose address moves along. -/
structure Redirects : Prop where
  takesOver : p.mode = .sameIdentity → p.TakesOver t t'
  replaces : p.mode = .memberRebind → ∃ vip i, p.member = some (vip, i) ∧ p.Replaces t t' vip i
  replies : ∀ port, t'.nat.get? port =
    if p.mode = .sameIdentity ∧ config.suppressNat = true ∧ port = config.servicePort then none
    else t.nat.get? port

end

variable {t : Tables}

theorem intact_withTarget (p : Plan) (h : t.Intact) : (p.withTarget t).Intact := by
  have hput : { t with endpoints := t.endpoints.insert p.target.addr p.target }.Intact :=
    h.putEndpoint rfl
  exact hput.putRule (r := p.targetRule) (Table.get?_insert_self ..)

namespace Ready

variable {p : Plan} {s s' : Store}

theorem tables_of_traffic (h : p.Ready s) (hw : s.applyAs (some p.id) (p.traffic config) = .ok (s', true)) :
    (p.mode = .sameIdentity ∧ s'.tables = { p.withTarget s.tables with
      nat := (Turn.replyPort config).elim s.tables.nat s.tables.nat.erase }) ∨
    (p.mode = .memberRebind ∧ ∃ vip i g m, p.member = some (vip, i) ∧
      s.tables.groups.get? vip = some g ∧ g.slots[i.toNat]? = some (some m) ∧
      m.endpoint = p.source.addr ∧ s'.tables = (p.withTarget s.tables).setGroup vip
        (g.setSlot i (some { m with endpoint := p.target.addr }))) := by
  have hstage : ∀ ops, (p.traffic config).ops = .putEndpoint p.target :: .putRule p.targetRule :: ops →
      ∃ c, Store.stage s.leases (some p.id) (p.withTarget s.tables) ops = .ok (s'.tables, c) := by
    intro ops ho
    obtain ⟨-, ⟨hc, -⟩ | ⟨-, hs⟩⟩ := Store.applyAs_eq_ok hw
    · cases hc
    · obtain ⟨c, hc⟩ := h.stage_traffic ops
      rw [ho, hc] at hs
      cases hr : Store.stage s.leases (some p.id) (p.withTarget s.tables) ops with
      | error e =>
        rw [hr] at hs
        cases hs
      | ok r =>
        rw [hr] at hs
        rw [← (Prod.mk.inj (Except.ok.inj hs)).1]
        exact ⟨r.2, rfl⟩
  cases hm : p.mode with
  | sameIdentity =>
    refine .inl ⟨rfl, ?_⟩
    cases hp : Turn.replyPort config with
    | none =>
      obtain ⟨c, hc⟩ := hstage [] (by simp [traffic, forwardingBatch, hm, hp])
      exact (Prod.mk.inj (Except.ok.inj hc)).1.symm
    | some port =>
      obtain ⟨c, hc⟩ := hstage [.deleteNat port] (by simp [traffic, forwardingBatch, hm, hp])
      exact (Prod.mk.inj (Except.ok.inj hc)).1.symm
  | memberRebind =>
    refine .inr ⟨rfl, ?_⟩
    obtain ⟨vip, i, m, hp, hslot⟩ := h.serves hm
    obtain ⟨g, hg, hi, he⟩ := Tables.exists_slot_of_slotsOf hslot
    refine ⟨vip, i, g, m, hp, hg, hi, he, ?_⟩
    obtain ⟨c, hc⟩ := hstage [.bind vip i p.target.addr] (by simp [traffic, forwardingBatch, hm, hp])
    obtain ⟨u, c₁, c₂, -, hb, hn, -⟩ := Store.stage_cons_eq_ok hc
    have hu : u = s'.tables := (Prod.mk.inj (Except.ok.inj hn)).1
    rw [← hu]
    refine hb.rebound_of_member hg hi ?_
    rw [he]
    exact h.source_ne_target hm

theorem takesOver (h : p.Ready s) (hi : s.tables.Intact) (hi' : t.Intact) (hm : p.mode = .sameIdentity)
    (ht : t = { p.withTarget s.tables with nat }) : p.TakesOver s.tables t where
  moved flow hop hh he := by
    have hrule : t.rules.get? hop.endpoint = some p.targetRule := by
      rw [ht, he, ← h.stays hm]
      exact Table.get?_insert_self ..
    have hhop : t.hop? flow = some hop := by
      rw [ht]
      exact hh
    rw [Tables.resolve?_eq hi', hhop, Option.bind_some, hrule, Option.map_some]
  others flow hn := by
    refine Tables.resolve?_congr hi hi' ?_ fun hop hh => ?_
    · rw [ht]
      rfl
    · rw [ht]
      apply Table.get?_insert_of_ne
      rw [h.stays hm]
      exact (hn hop hh).symm

theorem replaces {g : Group} {m : Member} (h : p.Ready s) (hi : s.tables.Intact) (hi' : t.Intact)
    (hm : p.mode = .memberRebind) (hg : s.tables.groups.get? vip = some g)
    (hs : g.slots[i.toNat]? = some (some m)) (he : m.endpoint = p.source.addr)
    (ht : t = (p.withTarget s.tables).setGroup vip
      (g.setSlot i (some { m with endpoint := p.target.addr }))) : p.Replaces s.tables t vip i := by
  have hhop : ∀ flow, t.hop? flow =
      (s.tables.hop? flow).map fun hop => hop.rebound vip i p.target.addr := by
    intro flow
    rw [ht]
    exact Tables.hop?_rebound (p.intact_withTarget hi) hg hs flow
  have hrules : t.rules = s.tables.rules.insert p.target.addr p.targetRule := by
    rw [ht]
    rfl
  constructor
  · refine ⟨m, ?_, ?_⟩
    · rw [Tables.slotsOf_of_group hg, Group.member?_eq_some.2 hs]
      simp [he]
    · have hnew : t.groups.get? vip = some (g.setSlot i (some { m with endpoint := p.target.addr })) := by
        rw [ht]
        exact Table.get?_insert_self ..
      rw [Tables.slotsOf_of_group hnew, Group.member?_setSlot hs]
      simp
  · intro flow hf
    have hrule : t.rules.get? p.target.addr = some p.targetRule := by
      rw [hrules]
      exact Table.get?_insert_self ..
    rw [Tables.resolve?_eq hi', hhop, hf]
    simp [Hop.rebound, Hop.slot, hrule]
  · intro flow hslot hdirect
    -- Any other flow keeps its way, and the one rule that was put is not on it.
    apply Tables.resolve?_congr hi hi'
    · rw [hhop]
      cases hh : s.tables.hop? flow with
      | none => rfl
      | some hop =>
        rw [Option.map_some, Hop.rebound, if_neg]
        rintro ⟨hv, hn⟩
        rcases Tables.hop?_cases hi hh with rfl | ⟨v, g', j, m', rfl, hg', hs'⟩
        · cases hv
        · cases hv
          cases hn
          cases hg.symm.trans hg'
          cases hs.symm.trans hs'
          rw [he] at hh
          exact hslot hh
    · intro hop hh
      rw [hrules]
      apply Table.get?_insert_of_ne
      intro ha
      rcases Tables.hop?_cases hi hh with rfl | ⟨v, g', j, m', rfl, hg', hs'⟩
      · rw [ha] at hdirect
        exact hdirect hh
      · have hreg := ((hi.group v g' hg').slot _ m' hs').2
        have hv := Table.contains_eq_false.2 (h.vacant hm)
        rw [ha] at hv
        cases hreg.symm.trans hv

theorem redirects (h : p.Ready s) (hi : s.tables.Intact)
    (hw : s.applyAs (some p.id) (p.traffic config) = .ok (s', true)) :
    p.Redirects config s.tables s'.tables := by
  have hi' : s'.tables.Intact := by
    have hl := Store.leads_act s (.write (some p.id) (p.traffic config))
    simp only [Store.act, hw, Store.settle] at hl
    exact hi.leads hl
  rcases h.tables_of_traffic hw with ⟨hm, ht⟩ | ⟨hm, vip, i, g, m, hp, hg, hs, he, ht⟩
  · refine ⟨fun _ => h.takesOver hi hi' hm ht, fun hn => ?_, fun port => ?_⟩
    · cases hm.symm.trans hn
    · rw [ht, Turn.replyPort]
      cases config.suppressNat with
      | false => simp
      | true =>
        by_cases hport : port = config.servicePort
        · simp [hm, hport]
        · simp [hm, hport, Table.get?_erase_of_ne (Ne.symm hport)]
  · refine ⟨fun hn => ?_, fun _ => ⟨vip, i, hp, h.replaces hi hi' hm hg hs he ht⟩, fun port => ?_⟩
    · cases hm.symm.trans hn
    · rw [ht, if_neg (by simp [hm])]
      rfl

end Ready

end Plan

theorem Controller.Stands.plan_id {c : Controller} {id : JobId} {l : List Occurrence} (h : c.Stands id l)
    (hp : l.head? = some (.accepted p)) : p.id = id := by
  cases h with
  | unknown _ _ hl =>
    rw [hl] at hp
    cases hp
  | underWay hr _ _ hl =>
    cases hl.head?_eq.symm.trans hp
    exact plan_id_of_run? hr
  | ended _ _ hid hl =>
    cases hl.head?_eq.symm.trans hp
    exact hid

theorem Effect.write_of_actions {es : List Effect} {xs ys : List Store.Action}
    (h : es.filterMap (Effect.action? l) = xs ++ .write holder b :: ys) :
    ∃ es₁ r es₂, es = es₁ ++ .write b r :: es₂ ∧ es₁.filterMap (Effect.action? l) = xs := by
  obtain ⟨es₁, rest, rfl, rfl, hrest⟩ := List.filterMap_eq_append_iff.1 h
  obtain ⟨es₂, e, es₃, rfl, hn, he, -⟩ := List.filterMap_eq_cons_iff.1 hrest
  cases e with
  | write b' r =>
    cases he
    refine ⟨es₁ ++ es₂, r, es₃, by simp, ?_⟩
    rw [List.filterMap_append, List.filterMap_eq_nil_iff.2 hn, List.append_nil]
  | publish => cases he
  | call => cases he
  | pause => cases he

namespace Watch

variable {w : Watch} {i : Input} {id : JobId}

def Given (w : Watch) (config : Config) (id : JobId) (s : Store) (b : Batch) : Prop :=
  ∃ p, (w.journal id).head? = some (.accepted p) ∧
    (b = p.retireBatch ∨ b = p.traffic config ∧ p.Ready s ∧ s.tables.Intact)

theorem given_step {before after : List Store.Action} (hw : w.Sound)
    (hi : ∀ a, i = .store a → a.ByOthers id) (h : w.Faithful id)
    (ha : w.controller.actions i = before ++ .write (some id) b :: after) :
    (w.step i).Given w.controller.config id (before.foldl Store.act w.controller.store) b := by
  have hm : .write (some id) b ∈ w.controller.actions i := by simp [ha]
  cases hw.fate i id with
  | spared _ _ _ hf => exact absurd rfl (byOthers_of_spared hi hf _ hm)
  | accepted _ _ _ _ _ _ _ _ hf => exact absurd rfl (hf _ hm)
  | cancelled hc =>
    rw [hc] at hm
    cases hm
  | @turned j r noted t ht =>
    obtain ⟨hlog, stage, pr, hc⟩ := hw.course_of_turned ht
    rw [ht.actions] at ha
    obtain ⟨es₁, res, es₂, he, rfl⟩ := Effect.write_of_actions ha
    have hh := (faithful_step hw hi h).honest r.plan
    have hhead := hc.head?_eq
    rw [hlog] at hh
    refine ⟨r.plan, by rw [hlog, hhead], ?_⟩
    rw [he, List.map_append, List.map_cons, ← List.append_assoc] at hc hh
    rcases hc.first_of_write hh with hb | ⟨hb, hn, hp⟩
    · exact .inl hb
    · rw [attempted_append, attempted_append, List.append_eq_nil_iff, List.append_eq_nil_iff] at hn
      rw [published_append, List.append_eq_nil_iff] at hp
      rw [List.filterMap_eq_nil_iff.2 (Effect.idle_of_journal hn.2 hp.2)]
      exact .inr ⟨hb, h.ready r ht.run hn.1.1, h.intact⟩

theorem journal_prefix (w : Watch) (inputs : List Input) (id : JobId) :
    w.journal id <+: (inputs.foldl step w).journal id := by
  induction inputs generalizing w with
  | nil => exact List.prefix_rfl
  | cons i is ih =>
    refine List.IsPrefix.trans ?_ (ih (w.step i))
    rw [journal_step]
    exact List.prefix_append ..

theorem head?_foldl (h : (w.journal id).head? = some e) (inputs : List Input) :
    ((inputs.foldl step w).journal id).head? = some e := by
  obtain ⟨k, hk⟩ := w.journal_prefix inputs id
  rw [← hk, List.head?_append, h]
  rfl

theorem Given.foldl (h : w.Given config id s b) (inputs : List Input) :
    (inputs.foldl step w).Given config id s b := by
  obtain ⟨p, hp, hb⟩ := h
  exact ⟨p, head?_foldl hp inputs, hb⟩

theorem given_foldl {inputs : List Input} {before after : List Store.Action} (hw : w.Sound)
    (hi : ∀ i ∈ inputs, ∀ a, i = .store a → a.ByOthers id) (h : w.Faithful id)
    (ha : w.controller.history inputs = before ++ .write (some id) b :: after) :
    (inputs.foldl step w).Given w.controller.config id
      (before.foldl Store.act w.controller.store) b := by
  induction inputs generalizing w before with
  | nil => simp [Controller.history] at ha
  | cons i is ih =>
    rw [List.forall_mem_cons] at hi
    have later : ∀ k, (w.step i).controller.history is = k ++ .write (some id) b :: after →
        (is.foldl step (w.step i)).Given w.controller.config id
          (k.foldl Store.act ((w.controller.actions i).foldl Store.act w.controller.store)) b := by
      intro k hk
      rw [← w.controller.store_step i]
      have hconfig : (w.step i).controller.config = w.controller.config := w.controller.config_step i
      rw [← hconfig]
      exact ih (hw.step i) hi.2 (faithful_step hw hi.1 h) hk
    obtain ⟨k, rfl, hk⟩ | ⟨k, hk, hl⟩ := List.append_eq_append_iff.1 ha
    · rw [List.foldl_append]
      exact later k hk
    · cases k with
      | nil =>
        rw [List.append_nil] at hk
        subst hk
        exact later [] hl.symm
      | cons e k =>
        cases hl
        exact (given_step hw hi.1 h hk).foldl is

theorem mem_actions_of_attempted (hw : w.Sound)
    (hb : b ∈ attempted (Journal.of id (w.controller.step i).2)) :
    .write (some id) b ∈ w.controller.actions i := by
  obtain ⟨r, hr⟩ := mem_attempted.1 hb
  cases hw.fate i id with
  | spared _ _ hn =>
    rw [hn] at hr
    cases hr
  | accepted _ _ _ _ hn =>
    rw [hn] at hr
    simp at hr
  | cancelled _ _ _ _ _ hn =>
    rw [hn] at hr
    cases hr
  | turned ht =>
    rw [ht.log] at hr
    simp only [List.mem_append, ht.before_idle, false_or] at hr
    rw [ht.actions, List.mem_filterMap]
    refine ⟨.write b r, by simpa using hr, ?_⟩
    rw [Effect.action?, hw.lease_job ht.run]

theorem mem_history_of_attempted {inputs : List Input} (hw : w.Sound)
    (hb : b ∈ attempted ((inputs.foldl step w).journal id)) :
    b ∈ attempted (w.journal id) ∨ .write (some id) b ∈ w.controller.history inputs := by
  induction inputs generalizing w with
  | nil => exact .inl hb
  | cons i is ih =>
    rw [Controller.history, List.mem_append]
    rcases ih (hw.step i) hb with h | h
    · rw [journal_step, attempted_append, List.mem_append] at h
      exact h.imp_right fun h => .inl (mem_actions_of_attempted hw h)
    · exact .inr (.inr h)

end Watch

theorem Course.forwardingUpdate_iff (h : Course config p P pr j l) :
    .forwardingUpdate ∈ j.opened ↔ p.traffic config ∈ attempted l := by
  induction h with
  | accepted ho =>
    obtain ⟨_, _, _, _, rfl⟩ := ho.job_new
    simp [Job.new, Job.opened, attempt?]
  | @entered s _ _ _ _ _ _ ih =>
    cases s with
    | _ => simp_all [Stage.phases]
  | cancel _ _ ih | gathered _ ih => exact ih
  | drained _ _ _ _ ih =>
    rw [Job.opened_leave, attempted_append]
    exact (List.append_nil _).symm ▸ ih
  | retireRefused _ _ _ ih | retired _ _ _ ih => simp [ih, attempt?, Plan.traffic_ne_retireBatch]
  | _ => simp_all [attempt?]

namespace Watch

variable {w : Watch} {id : JobId}

theorem intact_foldl (hw : w.Sound) (h : w.controller.store.tables.Intact) (inputs : List Input) :
    (inputs.foldl step w).controller.store.tables.Intact :=
  foldl_induction (q := fun _ => True) (P := fun w => w.controller.store.tables.Intact)
    (fun _ _ _ _ h => intact_step h) (fun _ _ => trivial) hw h

theorem intact_watch (config : Config) {s : Store} (h : s.tables.Intact) (inputs : List Input) :
    ((Controller.idle config s).watch inputs).controller.store.tables.Intact :=
  intact_foldl (sound_idle config s) h inputs

theorem faithful_of_unknown (hw : w.Sound) (h : w.controller.store.tables.Intact)
    (hj : w.controller.job? id = none) :
    w.controller.run? id = none ∧ w.journal id = [] ∧ w.Faithful id := by
  cases hw.stands id with
  | unknown _ hr hl =>
    refine ⟨hr, hl, h, fun r hr' => ?_, fun p e he => ?_, fun b hb => ?_⟩
    · cases hr.symm.trans hr'
    · rw [hl] at he
      cases he
    · rw [hl] at hb
      cases hb
  | underWay _ hk => cases hj.symm.trans hk
  | ended _ hk => cases hj.symm.trans hk

theorem faithful_of_submit (hw : w.Sound) (h : w.controller.store.tables.Intact)
    (hj : w.controller.job? id = none) (hq : w.controller.submit now id q = .ok c') :
    ∃ e host p, w.controller.store.tables.endpoints.get? q.source = some e ∧
      w.controller.config.inventory.get q.targetHost = .ok host ∧
      p.source = e ∧ p.target = e.migrated q.targetHost host.egress q.newIdentity ∧
      p.mode = .ofIdentity q.newIdentity ∧
      p.member = w.controller.store.tables.memberOf? q.source ∧
      (w.step (.submit now id q)).controller = c' ∧
      (w.step (.submit now id q)).journal id = [.accepted p] ∧
      (w.step (.submit now id q)).Faithful id := by
  obtain ⟨hr, hl, hf⟩ := faithful_of_unknown hw h hj
  obtain ⟨e, host, s, lease, p, he, hh, hc, -, hp, hc'⟩ := Controller.submit_eq_ok hq
  have hrun : c'.run? id = some (.new p lease) := by
    rw [hc', Controller.run?_accept hr (by rw [hp]), if_pos rfl]
  have hstep : w.controller.step (.submit now id q) = (c', [(id, .accepted p)]) := by
    simp [Controller.step, hj, hq, hrun, Run.new]
  refine ⟨e, host, p, he, hh, by rw [hp], by rw [hp], by rw [hp], by rw [hp], ?_, ?_, ?_⟩
  · exact congrArg Prod.fst hstep
  · rw [journal_step, hl, hstep]
    exact Journal.of_self [.accepted p]
  · refine faithful_step hw (fun a ha => ?_) hf
    cases ha

section

variable {inputs : List Input} {p : Plan} (hw : w.Sound)
  (hp : (w.journal id).head? = some (.accepted p))

include hw hp

theorem redirects_of_history {before after : List Store.Action}
    (hi : ∀ i ∈ inputs, ∀ a, i = .store a → a.ByOthers id) (hf : w.Faithful id)
    (ha : w.controller.history inputs =
      before ++ .write (some id) (p.traffic w.controller.config) :: after) :
    let s := before.foldl Store.act w.controller.store
    p.Redirects w.controller.config s.tables
      (s.act (.write (some id) (p.traffic w.controller.config))).tables := by
  intro s
  obtain ⟨p', hp', hg⟩ := given_foldl hw hi hf ha
  cases (head?_foldl hp inputs).symm.trans hp'
  rcases hg with hg | ⟨-, hready, hintact⟩
  · exact absurd hg Plan.traffic_ne_retireBatch
  · obtain ⟨s', hs'⟩ := hready.traffic_accepted w.controller.config
    have hredirects := hready.redirects hintact hs'
    rw [(hw.stands id).plan_id hp] at hs'
    simpa only [s, Store.act, hs', Store.settle] using hredirects

theorem mem_history_of_opened (hn : attempted (w.journal id) = [])
    (hj : (inputs.foldl step w).controller.job? id = some j) (ho : .forwardingUpdate ∈ j.opened) :
    .write (some id) (p.traffic w.controller.config) ∈ w.controller.history inputs := by
  obtain ⟨p', stage, pr, hc⟩ := ((hw.foldl inputs).stands id).course_of_job? hj
  cases (head?_foldl hp inputs).symm.trans hc.head?_eq
  rw [config_foldl] at hc
  refine (mem_history_of_attempted hw (hc.forwardingUpdate_iff.1 ho)).resolve_left ?_
  rw [hn]
  exact List.not_mem_nil

end

end Watch

namespace Controller

/-- Between its submission and its batch nobody but a job writes on the addresses that are leased to it, as
long as the leases are not revoked. So where a job comes to move its traffic, its batch is in the history,
and wherever it is there, the tables before it and after it differ in the flows of the job, and in no
others. -/
theorem own_flows_redirected (config : Config) {s : Store} {early late : List Input} {id : JobId}
    {q : MigrationRequest} {c' : Controller} (hs : s.History ops)
    (hj : ((idle config s).watch early).controller.job? id = none)
    (hq : ((idle config s).watch early).controller.submit now id q = .ok c')
    (hi : ∀ a, .store a ∈ late → a.ByOthers id) :
    let c := ((idle config s).watch early).controller
    let w := (idle config s).watch (early ++ .submit now id q :: late)
    ∃ e host p, c.store.tables.endpoints.get? q.source = some e ∧
      config.inventory.get q.targetHost = .ok host ∧ (w.journal id).head? = some (.accepted p) ∧
      p.source = e ∧ p.target = e.migrated q.targetHost host.egress q.newIdentity ∧
      p.targetRule = ⟨p.target.addr, host.egress, some (q.newIdentity.getD e.identity).mac⟩ ∧
      p.mode = .ofIdentity q.newIdentity ∧ p.member = c.store.tables.memberOf? q.source ∧
      (∀ before after, c'.history late = before ++ .write (some id) (p.traffic config) :: after →
        let s := before.foldl Store.act c'.store
        p.Redirects config s.tables (s.act (.write (some id) (p.traffic config))).tables) ∧
      ∀ j, w.controller.job? id = some j → .forwardingUpdate ∈ j.opened →
        .write (some id) (p.traffic config) ∈ c'.history late := by
  intro c w
  let w₀ := (idle config s).watch early
  have hw₀ : w₀.Sound := Watch.sound_watch config s early
  have hintact : w₀.controller.store.tables.Intact := Watch.intact_watch config hs.intact early
  have hconfig : w₀.controller.config = config := Watch.config_foldl early
  obtain ⟨e, host, p, he, hh, hsource, htarget, hmode, hmember, hc', hl, hf⟩ :=
    Watch.faithful_of_submit hw₀ hintact hj hq
  let w₁ := w₀.step (.submit now id q)
  have hw₁ : w₁.Sound := hw₀.step _
  have hconfig₁ : w₁.controller.config = config := (w₀.controller.config_step _).trans hconfig
  have hp₁ : (w₁.journal id).head? = some (.accepted p) := by
    rw [hl]
    rfl
  have hwatch : w = late.foldl Watch.step w₁ := watch_append_cons ..
  have hrule : p.targetRule = ⟨p.target.addr, host.egress, some (q.newIdentity.getD e.identity).mac⟩ := by
    rw [Plan.targetRule, htarget]
    cases q.newIdentity with
    | none => rfl
    | some new => rfl
  refine ⟨e, host, p, he, hconfig ▸ hh, ?_, hsource, htarget, hrule, hmode, hmember, ?_, ?_⟩
  · rw [hwatch]
    exact Watch.head?_foldl hp₁ late
  · intro before after hb
    rw [← hc', ← hconfig₁] at hb
    rw [← hc', ← hconfig₁]
    exact Watch.redirects_of_history hw₁ hp₁ (fun i hm a ha => hi a (ha ▸ hm)) hf hb
  · intro j hjob ho
    rw [hwatch] at hjob
    rw [← hc', ← hconfig₁]
    exact Watch.mem_history_of_opened hw₁ hp₁ (by rw [hl]; rfl) hjob ho

theorem own_flows_redirected_of_replacement :
    let e : Endpoint := ⟨⟨⟨10⟩, ⟨.replicate 6 1⟩⟩, "a", 1, "web"⟩
    let new : Identity := ⟨⟨11⟩, ⟨.replicate 6 2⟩⟩
    let ops : List Op :=
      [.createGroup ⟨1⟩ 2, .putEndpoint e, .putRule ⟨⟨10⟩, 1, none⟩, .bind ⟨1⟩ 0 ⟨10⟩]
    let s := Store.empty.act (.write none ⟨ops⟩)
    let config := Config.plain [⟨"a", "a", 1, "eth0", "/var"⟩, ⟨"b", "b", 2, "eth0", "/var"⟩] []
    let now : Moment := ⟨0, 0, 0⟩
    let p : Plan :=
      ⟨.ofNat 7, e, e.migrated "b" 2 (some new), .memberRebind, .afterForwarding, some (⟨1⟩, 0)⟩
    let x : Snapshot := ⟨"x", ⟨10⟩, "a", "/var/x", 5, now.wall⟩
    let late := p.delivered now x ++ .store .teardownAll :: p.reattached now x ++
      [.answer now p.id (.announce p.target) (.ok ())]
    let w := (idle config s).watch (.submit now.wall p.id ⟨⟨10⟩, "b", some new⟩ :: late)
    s.History ops ∧ ((idle config s).watch []).controller.job? p.id = none ∧
      (∀ a, .store a ∈ late → a.ByOthers p.id) ∧ (w.journal p.id).head? = some (.accepted p) ∧
      ∃ (c' : Controller) (before after : List Store.Action),
        ((idle config s).watch []).controller.submit now.wall p.id ⟨⟨10⟩, "b", some new⟩ = .ok c' ∧
        c'.history late = before ++ .write (some p.id) (p.traffic config) :: after ∧
        let s := before.foldl Store.act c'.store
        p.Redirects config s.tables (s.act (.write (some p.id) (p.traffic config))).tables := by
  intro e new ops s config now p x late w
  have hs : s.History ops := by
    have h := Store.History.empty.act (.write none ⟨ops⟩)
    have ho : Store.empty.carriedOut (.write none ⟨ops⟩) = ops := by decide
    rw [ho] at h
    exact h
  have hj : ((idle config s).watch []).controller.job? p.id = none := by decide
  have hi : ∀ a, .store a ∈ late → a.ByOthers p.id := by
    intro a ha
    have hall : a = .teardownAll := by simpa [late, Plan.delivered, Plan.reattached] using ha
    rw [hall]
    trivial
  have hp : (w.journal p.id).head? = some (.accepted p) := by decide
  have hopened : (w.controller.job? p.id).any (·.opened.contains .forwardingUpdate) = true := by decide
  have hok : (((idle config s).watch []).controller.submit now.wall p.id
      ⟨⟨10⟩, "b", some new⟩).isOk = true := by decide
  cases hq : ((idle config s).watch []).controller.submit now.wall p.id ⟨⟨10⟩, "b", some new⟩ with
  | error e =>
    rw [hq] at hok
    cases hok
  | ok c' =>
    obtain ⟨_, _, p', -, -, hp', -, -, -, -, -, hredirects, hreached⟩ :=
      own_flows_redirected config hs hj hq hi
    cases hp.symm.trans hp'
    obtain ⟨j, hjob, ho⟩ := (Option.any_eq_true _ _).1 hopened
    obtain ⟨before, after, hb⟩ := List.append_of_mem (hreached j hjob (by simpa using ho))
    exact ⟨hs, hj, hi, hp, c', before, after, rfl, hb, hredirects before after hb⟩

/-- Leases that are revoked on the way protect nothing: whoever registers the address of the replacement
elsewhere, and binds it to another slot, loses the flows of that slot to the migration. -/
theorem foreign_flow_redirected_after_shutdown :
    let e : Endpoint := ⟨⟨⟨10⟩, ⟨.replicate 6 1⟩⟩, "a", 1, "web"⟩
    let new : Identity := ⟨⟨11⟩, ⟨.replicate 6 2⟩⟩
    let other : Endpoint := ⟨new, "c", 3, "web"⟩
    let ops : List Op :=
      [.createGroup ⟨1⟩ 2, .putEndpoint e, .putRule ⟨⟨10⟩, 1, none⟩, .bind ⟨1⟩ 0 ⟨10⟩]
    let s := Store.empty.act (.write none ⟨ops⟩)
    let config := Config.plain [⟨"a", "a", 1, "eth0", "/var"⟩, ⟨"b", "b", 2, "eth0", "/var"⟩,
      ⟨"c", "c", 3, "eth0", "/var"⟩] []
    let now : Moment := ⟨0, 0, 0⟩
    let p : Plan :=
      ⟨.ofNat 7, e, e.migrated "b" 2 (some new), .memberRebind, .afterForwarding, some (⟨1⟩, 0)⟩
    let x : Snapshot := ⟨"x", ⟨10⟩, "a", "/var/x", 5, now.wall⟩
    let w := (idle config s).watch (.submit now.wall p.id ⟨⟨10⟩, "b", some new⟩ ::
      p.delivered now x ++ p.reattached now x ++ [
        .store .shutdown,
        .store (.write none
          ⟨ops ++ [.putEndpoint other, .putRule ⟨⟨11⟩, 3, none⟩, .bind ⟨1⟩ 1 ⟨11⟩]⟩)])
    let w' := w.step (.answer now p.id (.announce p.target) (.ok ()))
    let flow := FiveTuple.tcp ⟨5⟩ 2 ⟨1⟩ 80
    (w.journal p.id).head? = some (.accepted p) ∧ attempted (w.journal p.id) = [] ∧
      attempted (w'.journal p.id) = [p.traffic config] ∧
      w.controller.store.tables.hop? flow = some (.slot ⟨1⟩ 1 ⟨11⟩) ∧
      w.controller.store.tables.resolve? flow = some ⟨some ⟨1⟩, some 1, ⟨11⟩, 3, none⟩ ∧
      w'.controller.store.tables.resolve? flow = some ⟨some ⟨1⟩, some 1, ⟨11⟩, 2, some new.mac⟩ := by
  intro e new other ops s config now p x w w' flow
  exact ⟨by decide, by decide, by decide, by decide +kernel, by decide +kernel, by decide +kernel⟩

end Controller

end LiveMigration
