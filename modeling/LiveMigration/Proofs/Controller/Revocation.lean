import LiveMigration.Proofs.Controller.Leases
import LiveMigration.Proofs.Controller.Redirection
import LiveMigration.Proofs.Controller.Service
import LiveMigration.Proofs.Forwarding.Teardown

/-!
# Revoked leases

A shutdown empties a store and takes the leases away, but a job whose lease is gone may still write as anyone
may: what a migration puts for a target that keeps its address needs no record that is there already.
-/

namespace LiveMigration

open Journal

namespace Store

variable {s u : Store} {leases : Table Addr JobId} {holder : Option JobId} {job : JobId} {l : Lease}

theorem checkLease_of_unowned (h : ∀ a, leases.get? a ≠ some job) (as : List Addr) :
    checkLease leases (some job) as = checkLease leases none as := by
  induction as with
  | nil => rfl
  | cons a as ih =>
    simp only [checkLease, ih]
    split
    · next owner ho =>
      have hne : some owner ≠ some job := fun he => h a (ho.trans he)
      rw [if_neg hne, if_neg (by simp)]
    · rfl

theorem stage_of_unowned (h : ∀ a, leases.get? a ≠ some job) (t : Tables) (ops : List Op) :
    stage leases (some job) t ops = stage leases none t ops := by
  induction ops generalizing t with
  | nil => rfl
  | cons op ops ih => simp only [stage, checkLease_of_unowned h, ih]

theorem applyAs_of_unowned (h : ∀ a, s.leases.get? a ≠ some job) (b : Batch) :
    s.applyAs (some job) b = s.apply b := by
  simp only [apply, applyAs, stage_of_unowned h]

theorem leases_shutdown (s : Store) : (s.act .shutdown).leases = ∅ := by
  rw [act, shutdown_eq_settle]
  exact leases_settle_applyAs { s with leases := ∅ } none _

theorem unowned_act {x : Action} (hx : ∀ e r, x ≠ .lease e r job)
    (h : ∀ a, s.leases.get? a ≠ some job) (a : Addr) : (s.act x).leases.get? a ≠ some job := by
  cases x with
  | write | relocate | teardownAll => rw [leases_act_of_isWrite (by trivial)]; exact h a
  | drop l =>
    rw [Ne, leased_drop_iff]
    exact fun ha => h a ha.1
  | shutdown =>
    rw [leases_shutdown]
    nofun
  | lease e r owner =>
    have hne : owner ≠ job := by
      rintro rfl
      exact hx e r rfl
    rw [Ne, leased_act_iff (x := .lease e r owner) (.inr hne)]
    exact h a

theorem unowned_foldl {as : List Action} (has : ∀ x ∈ as, ∀ e r, x ≠ .lease e r job)
    (h : ∀ a, s.leases.get? a ≠ some job) : ∀ a, (as.foldl act s).leases.get? a ≠ some job :=
  foldl_induction (P := fun s => ∀ a, s.leases.get? a ≠ some job) (fun _ _ hx h => unowned_act hx h) has h

/-- A store without leases in which there is nothing but the targets of some of these plans, each with its
rule. -/
structure Landed (q : Plan → Prop) (s : Store) : Prop where
  leases : s.leases = ∅
  groups : s.tables.groups = ∅
  nat : s.tables.nat = ∅
  rule : ∀ addr r, s.tables.rules.get? addr = some r → s.tables.endpoints.contains addr = true
  endpoint : ∀ addr e, s.tables.endpoints.get? addr = some e → ∃ p, q p ∧ p.mode = .sameIdentity ∧
    p.target = e ∧ e.addr = addr ∧ s.tables.rules.get? addr = some p.targetRule

namespace Landed

variable {config : Config} {p : Plan} {q q' : Plan → Prop}

theorem empty (q : Plan → Prop) : empty.Landed q := ⟨rfl, rfl, rfl, nofun, nofun⟩

theorem mono (h : s.Landed q) (hq : ∀ p, q p → q' p) : s.Landed q' := by
  refine ⟨h.leases, h.groups, h.nat, h.rule, fun addr e he => ?_⟩
  obtain ⟨p, hp, h⟩ := h.endpoint addr e he
  exact ⟨p, hq p hp, h⟩

theorem checkLease (h : s.Landed q) (holder : Option JobId) (as : List Addr) :
    checkLease s.leases holder as = .ok () := by
  rw [checkLease_eq_ok, h.leases]
  exact fun _ _ _ ho => nomatch ho

theorem withTarget (h : s.Landed q) (hq : q p) (hm : p.mode = .sameIdentity) :
    Landed q { s with tables := p.withTarget s.tables } := by
  refine ⟨h.leases, h.groups, h.nat, fun addr r hr => ?_, fun addr e he => ?_⟩
  · rcases Table.get?_insert_cases hr with ⟨rfl, -⟩ | ⟨-, hr⟩
    · exact Table.contains_insert_self
    · exact Table.contains_insert (Table.contains_insert (h.rule addr r hr))
  · rw [Plan.withTarget, Table.insert_insert] at he
    rcases Table.get?_insert_cases he with ⟨rfl, rfl⟩ | ⟨hne, he⟩
    · exact ⟨p, hq, hm, rfl, rfl, Table.get?_insert_self ..⟩
    · obtain ⟨p', hp, hm', ht, ha, hr⟩ := h.endpoint addr e he
      exact ⟨p', hp, hm', ht, ha, (Table.get?_insert_of_ne hne).trans hr⟩

theorem stage_target (h : s.Landed q) (holder : Option JobId) (ops : List Op) : ∃ c,
    stage s.leases holder s.tables (.putEndpoint p.target :: .putRule p.targetRule :: ops) =
      (stage s.leases holder (p.withTarget s.tables) ops).map fun r => (r.1, c || r.2) := by
  let t : Tables := { s.tables with endpoints := s.tables.endpoints.insert p.target.addr p.target }
  have hp : ∃ c, s.tables.apply (.putEndpoint p.target) = .ok (t, c) := ⟨_, rfl⟩
  have hr : ∃ c, t.apply (.putRule p.targetRule) = .ok (p.withTarget s.tables, c) := by
    simp only [Tables.apply, Tables.putRule, Plan.targetRule, t, Table.get?_insert_self]
    exact ⟨_, rfl⟩
  obtain ⟨c₁, hp⟩ := hp
  obtain ⟨c₂, hr⟩ := hr
  refine ⟨c₁ || c₂, ?_⟩
  rw [stage_cons (h.checkLease _ _) hp, stage_cons (h.checkLease _ _) hr]
  cases stage s.leases holder (p.withTarget s.tables) ops with
  | error e => rfl
  | ok r => simp [Except.map, Bool.or_assoc]

theorem accepts (h : s.Landed q) (hm : p.mode = .sameIdentity) (config : Config) (holder : Option JobId) :
    ∃ u c, s.applyAs holder (p.traffic config) = .ok (u, c) ∧ u.Landed fun p' => q p' ∨ p' = p := by
  have hlast : ∀ ops : List Op, ops = ((Turn.replyPort config).map Op.deleteNat).toList →
      ∃ c, stage s.leases holder (p.withTarget s.tables) ops = .ok (p.withTarget s.tables, c) := by
    rintro ops rfl
    cases Turn.replyPort config with
    | none => exact ⟨_, rfl⟩
    | some port =>
      have hn : (p.withTarget s.tables).apply (.deleteNat port) = .ok (p.withTarget s.tables, false) := by
        simp only [Tables.apply, Tables.deleteNat, Plan.withTarget, h.nat]
        rfl
      exact ⟨false, by rw [Option.map_some, Option.toList_some, stage_cons (h.checkLease _ _) hn]; rfl⟩
  obtain ⟨c₁, hc₁⟩ := h.stage_target (p := p) holder ((Turn.replyPort config).map Op.deleteNat).toList
  obtain ⟨c₂, hc₂⟩ := hlast _ rfl
  have hops : (p.traffic config).ops = .putEndpoint p.target :: .putRule p.targetRule ::
      ((Turn.replyPort config).map Op.deleteNat).toList := by
    simp only [Plan.traffic, Plan.forwardingBatch, hm]
    rfl
  have hstage : stage s.leases holder s.tables (p.traffic config).ops =
      .ok (p.withTarget s.tables, c₁ || c₂) := by
    rw [hops, hc₁, hc₂]
    rfl
  simp only [applyAs, hstage, bind, Except.bind, pure, Except.pure]
  refine ⟨_, _, rfl, ?_⟩
  split
  · exact (h.mono fun _ => .inl).withTarget (.inr rfl) hm
  · exact h.mono fun _ => .inl

theorem refuses (h : s.Landed q) (hm : p.mode = .memberRebind) (hp : p.member = some (vip, i))
    (config : Config) (holder : Option JobId) :
    s.applyAs holder (p.traffic config) = .error (.notFound (.group vip)) := by
  have hops : (p.traffic config).ops =
      [.putEndpoint p.target, .putRule p.targetRule, .bind vip i p.target.addr] := by
    simp only [Plan.traffic, Plan.forwardingBatch, hm, hp]
    rfl
  have hbind : (p.withTarget s.tables).apply (.bind vip i p.target.addr) = .error (.notFound (.group vip)) := by
    have hg : (p.withTarget s.tables).group vip = .error (.notFound (.group vip)) := by
      simp [Tables.group, Plan.withTarget, h.groups]
    simp only [Tables.apply, Tables.bind, p.contains_withTarget, hg, bind, Except.bind]
    rfl
  obtain ⟨c, hc⟩ := h.stage_target (p := p) holder [.bind vip i p.target.addr]
  simp only [applyAs, hops, hc, stage, h.checkLease, hbind, bind, Except.bind, Except.map]

theorem retire (h : s.Landed q) (holder : Option JobId) (p : Plan) :
    (s.act (.write holder p.retireBatch)).Landed q := by
  have hl : (s.act (.write holder p.retireBatch)).leases = ∅ := by
    rw [leases_act_of_isWrite (a := .write ..) trivial, h.leases]
  have ht := leads_act s (.write holder p.retireBatch)
  generalize s.act (.write holder p.retireBatch) = u at hl ht ⊢
  obtain ⟨t, leases⟩ := u
  simp only [carriedOut, published] at ht hl
  split at ht
  · cases ht with
    | cons hrule ht =>
      cases ht with
      | cons hgone ht =>
        cases ht
        cases hrule
        cases hgone
        refine ⟨hl, h.groups, h.nat, fun addr r hr => ?_, fun addr e he => ?_⟩
        · obtain ⟨hne, hr⟩ := Table.get?_erase_cases hr
          exact Table.contains_erase (h.rule addr r hr) hne
        · obtain ⟨hne, he⟩ := Table.get?_erase_cases he
          obtain ⟨p', hp, hm, ht, ha, hr⟩ := h.endpoint addr e he
          exact ⟨p', hp, hm, ht, ha, (Table.get?_erase_of_ne hne).trans hr⟩
  · cases ht
    exact ⟨hl, h.groups, h.nat, h.rule, h.endpoint⟩

theorem drop (h : s.Landed q) (l : Lease) : (s.act (.drop l)).Landed q := by
  have ht : (s.act (.drop l)).tables = s.tables := tables_release s l
  have hl : (s.act (.drop l)).leases = ∅ := by
    apply Table.ext_get?
    intro a
    rw [act, get?_leases_release, h.leases]
    simp
  refine ⟨hl, ?_, ?_, ?_, ?_⟩
  · rw [ht]
    exact h.groups
  · rw [ht]
    exact h.nat
  · rw [ht]
    exact h.rule
  · rw [ht]
    exact h.endpoint

theorem performs (h : Performs l s es u)
    (hb : ∀ b r, .write b r ∈ es → b = p.traffic config ∨ b = p.retireBatch)
    (hm : p.mode = .memberRebind → ∃ slot, p.member = some slot) (hs : s.Landed q) :
    u.Landed fun p' => q p' ∨ p' = p ∧ p.traffic config ∈ written (es.map .did) := by
  induction h generalizing q with
  | nil => exact hs.mono fun _ => .inl
  | @idle s es u e _ _ ih =>
    refine (ih (fun b r hm => hb b r (List.mem_cons_of_mem _ hm)) hs).mono fun p' hp => ?_
    refine hp.imp_right fun ⟨he, hw⟩ => ⟨he, ?_⟩
    simp [hw]
  | @write es u s b _ ih =>
    have hrest : ∀ b' r, .write b' r ∈ es → b' = p.traffic config ∨ b' = p.retireBatch :=
      fun b' r hm => hb b' r (List.mem_cons_of_mem _ hm)
    rcases hb b _ List.mem_cons_self with rfl | rfl
    · cases hmode : p.mode with
      | sameIdentity =>
        obtain ⟨s', c, ha, hs'⟩ := hs.accepts hmode config (some l.job)
        have hact : s.act (.write (some l.job) (p.traffic config)) = s' := by rw [act, ha]; rfl
        refine (ih hrest (hact ▸ hs')).mono fun p' hp => ?_
        simp only [List.map_cons, written_cons, ha, Except.map, written?, Option.toList_some, List.mem_append,
          List.mem_singleton, true_or, and_true]
        rcases hp with (hp | hp) | hp
        · exact .inl hp
        · exact .inr hp
        · exact .inr hp.1
      | memberRebind =>
        obtain ⟨⟨vip, i⟩, hslot⟩ := hm hmode
        have hact : s.act (.write (some l.job) (p.traffic config)) = s := by
          rw [act, hs.refuses hmode hslot]
          rfl
        refine (ih hrest (hact.symm ▸ hs)).mono fun p' hp => hp.imp_right fun ⟨he, hw⟩ => ⟨he, ?_⟩
        simp [hw]
    · refine (ih hrest (hs.retire _ p)).mono fun p' hp => hp.imp_right fun ⟨he, hw⟩ => ⟨he, ?_⟩
      simp [hw]
  | publish _ ih =>
    refine (ih (fun b r hm => hb b r (List.mem_cons_of_mem _ hm)) (hs.drop l)).mono fun p' hp => ?_
    refine hp.imp_right fun ⟨he, hw⟩ => ⟨he, ?_⟩
    simp [hw]

end Landed

end Store

/-- An input by which only a job that is there already gets anything to do. -/
def Input.ByJobs : Input → Prop
  | .start .. | .wake _ | .answer .. | .cancel _ => True
  | .submit .. | .reattach .. | .cleanup | .store _ => False

namespace Controller

variable {c : Controller} {i : Input} {id : JobId}

theorem actions_of_byJobs (c : Controller) (hi : i.ByJobs) : ∃ id es, c.actions i = c.actionsOf id es := by
  cases i with
  | start m id => exact ⟨id, _, rfl⟩
  | wake id => exact ⟨id, _, rfl⟩
  | answer m id call o => exact ⟨id, _, rfl⟩
  | cancel id => exact ⟨id, [], (c.actionsOf_nil id).symm⟩
  | submit | reattach | cleanup | store => cases hi

theorem not_accepted_of_byJobs (c : Controller) (hi : i.ByJobs) (id : JobId) (p : Plan) :
    Journal.of id (c.step i).2 ≠ [.accepted p] := by
  intro h
  obtain ⟨now, q, -, -, rfl, -⟩ := submit_of_accepted (Journal.mem_of.1 (h ▸ List.mem_cons_self))
  cases hi

end Controller

theorem Effect.not_foreign_of_action? {e : Effect} (ha : e.action? l = some a) (hl : l.job = job) :
    ¬ a.Foreign job := by
  cases e with
  | write b r =>
    cases ha
    exact fun h => h (congrArg some hl)
  | publish j =>
    cases ha
    exact fun h => h hl
  | call | pause => cases ha

namespace Watch

variable {w w' : Watch} {i : Input} {id : JobId}

theorem known_step (hw : w.Sound) (i : Input) (hj : w.controller.job? id ≠ none) :
    (w.step i).controller.job? id ≠ none := by
  rw [controller_step]
  cases hw.fate i id with
  | spared hsame => rwa [hsame]
  | accepted hnone => exact absurd hnone hj
  | cancelled _ _ _ hk => simp [hk]
  | turned ht => simp [ht.job_after]

theorem unowned_step (hw : w.Sound) (hj : w.controller.job? id ≠ none) (hi : ∀ e r, i ≠ .store (.lease e r id))
    (h : ∀ a, w.controller.store.leases.get? a ≠ some id) :
    ∀ a, (w.step i).controller.store.leases.get? a ≠ some id := by
  rw [controller_step, w.controller.store_step]
  refine Store.unowned_foldl ?_ h
  rintro x hx e r rfl
  cases hw.fate i id with
  | spared _ _ _ ha =>
    rcases ha _ hx with rfl | hf
    · exact hi e r rfl
    · exact hf rfl
  | accepted hnone => exact hj hnone
  | cancelled hc =>
    rw [hc] at hx
    cases hx
  | turned ht =>
    rw [ht.actions] at hx
    obtain ⟨o, -, ho⟩ := List.mem_filterMap.1 hx
    cases o with
    | write | publish | call | pause => cases ho

theorem unowned_foldl {inputs : List Input} (hw : w.Sound) (hj : w.controller.job? id ≠ none)
    (hi : ∀ e r, .store (.lease e r id) ∉ inputs) (h : ∀ a, w.controller.store.leases.get? a ≠ some id) :
    ∀ a, (inputs.foldl step w).controller.store.leases.get? a ≠ some id := by
  refine (foldl_induction (q := fun i => ∀ e r, i ≠ .store (.lease e r id)) (P := fun w =>
    w.controller.job? id ≠ none ∧ ∀ a, w.controller.store.leases.get? a ≠ some id) ?_ ?_ hw ⟨hj, h⟩).2
  · exact fun w i hw hi h => ⟨known_step hw i h.1, unowned_step hw h.1 hi h.2⟩
  · rintro i hm e r rfl
    exact hi e r hm

def Slotted (w : Watch) : Prop := ∀ id r, w.controller.run? id = some r → r.plan.mode = .memberRebind →
  ∃ slot, r.plan.member = some slot

theorem slotted_step (hw : w.Sound) (hintact : w.controller.store.tables.Intact) (h : w.Slotted) (i : Input) :
    (w.step i).Slotted := by
  intro id r hr hm
  rw [controller_step] at hr
  cases hw.fate i id with
  | spared _ hsame | cancelled _ _ _ _ hsame =>
    rw [hsame] at hr
    exact h id r hr hm
  | accepted _ _ _ hnew _ _ _ hready =>
    cases hr.symm.trans hnew
    obtain ⟨vip, i, -, hp, -⟩ := (hready hintact).serves hm
    exact ⟨_, hp⟩
  | @turned _ _ _ t ht =>
    have hrest : t.run.stage ≠ .finished := by
      intro hf
      cases hr.symm.trans (ht.run_finished hf)
    cases hr.symm.trans (ht.run_after hrest)
    rw [ht.yields.plan] at hm ⊢
    exact h id _ ht.run hm

theorem slotted_watch (config : Config) {s : Store} (hs : s.tables.Intact) (inputs : List Input) :
    ((Controller.idle config s).watch inputs).Slotted := by
  refine (foldl_induction (q := fun _ => True) (P := fun w => w.controller.store.tables.Intact ∧ w.Slotted)
    (fun w i hw _ h => ⟨intact_step h.1, slotted_step hw h.1 h.2 i⟩) (fun _ _ => trivial)
    (sound_idle config s) ⟨hs, ?_⟩).2
  intro id r hr
  cases hr

def Rewrote (w w' : Watch) (p : Plan) : Prop := ∃ r since, w.controller.run? p.id = some r ∧ r.plan = p ∧
  w'.journal p.id = w.journal p.id ++ since ∧ p.traffic w.controller.config ∈ written since

structure Aftermath (w w' : Watch) : Prop where
  config : w'.controller.config = w.controller.config
  journal : ∀ id, ∃ since, w'.journal id = w.journal id ++ since
  run : ∀ id r, w'.controller.run? id = some r →
    ∃ r₀, w.controller.run? id = some r₀ ∧ r.plan = r₀.plan
  landed : w'.controller.store.Landed (w.Rewrote w')

theorem Rewrote.step (h : w.Rewrote w' p) (i : Input) : w.Rewrote (w'.step i) p := by
  obtain ⟨r, since, hr, hp, hl, hw⟩ := h
  refine ⟨r, since ++ Journal.of p.id (w'.controller.step i).2, hr, hp, ?_, ?_⟩
  · rw [journal_step, hl, List.append_assoc]
  · rw [written_append]
    exact List.mem_append_left _ hw

theorem Aftermath.refl (h : w.controller.store = .empty) : w.Aftermath w := by
  refine ⟨rfl, fun id => ⟨[], (List.append_nil _).symm⟩, fun id r hr => ⟨r, hr, rfl⟩, ?_⟩
  rw [h]
  exact .empty _

theorem Aftermath.landed_step (h : w.Aftermath w') (hslots : w.Slotted) (hw : w'.Sound) (hi : i.ByJobs) :
    (w'.step i).controller.store.Landed (w.Rewrote (w'.step i)) := by
  have hstore : (w'.step i).controller.store = (w'.controller.actions i).foldl Store.act w'.controller.store :=
    w'.controller.store_step i
  have hsame : w'.controller.actions i = [] → (w'.step i).controller.store.Landed (w.Rewrote (w'.step i)) := by
    intro hnone
    rw [hstore, hnone]
    exact h.landed.mono fun p hp => hp.step i
  -- Such an input is for one job; if this is not a turn of it, then nothing is done to the store.
  obtain ⟨id, es, hacts⟩ := w'.controller.actions_of_byJobs hi
  cases hw.fate i id with
  | spared _ _ _ hforeign =>
    apply hsame
    rw [List.eq_nil_iff_forall_not_mem]
    intro a ha
    rcases hforeign a ha with rfl | hf
    · cases hi
    · cases hr : w'.controller.run? id with
      | none => simp [hacts, Controller.actionsOf, hr] at ha
      | some r =>
        rw [hacts, Controller.actionsOf_of_run? hr] at ha
        obtain ⟨e, -, he⟩ := List.mem_filterMap.1 ha
        exact Effect.not_foreign_of_action? he (hw.lease_job hr) hf
  | accepted _ _ _ _ hlog => exact absurd hlog (w'.controller.not_accepted_of_byJobs hi id _)
  | cancelled hc =>
    apply hsame
    rw [hc]
    rfl
  | @turned j r before t ht =>
    obtain ⟨hlog, stage, pr, hc⟩ := hw.course_of_turned ht
    obtain ⟨r₀, hr₀, hplan⟩ := h.run id r ht.run
    obtain ⟨since, hsince⟩ := h.journal id
    have hid : r.plan.id = id := Controller.plan_id_of_run? ht.run
    have hbatches : ∀ b res, .write b res ∈ t.effects →
        b = r.plan.traffic w'.controller.config ∨ b = r.plan.retireBatch := by
      intro b res hm
      refine hc.batch_of_attempted (mem_attempted.2 ⟨res, ?_⟩)
      exact List.mem_append_right _ (List.mem_map_of_mem hm)
    have hslot : r.plan.mode = .memberRebind → ∃ slot, r.plan.member = some slot := by
      rw [hplan]
      exact hslots id r₀ hr₀
    rw [controller_step, ht.store]
    refine (h.landed.performs ht.yields.of_start.1 hbatches hslot).mono fun p hp => ?_
    rcases hp with hp | ⟨rfl, hwritten⟩
    · exact hp.step i
    · refine ⟨r₀, since ++ before ++ t.effects.map .did, hid.symm ▸ hr₀, hplan.symm, ?_, ?_⟩
      · rw [hid, hlog, hsince]
        simp only [List.append_assoc]
      · rw [← h.config, written_append]
        exact List.mem_append_right _ hwritten

theorem Aftermath.step (h : w.Aftermath w') (hslots : w.Slotted) (hw : w'.Sound) (hi : i.ByJobs) :
    w.Aftermath (w'.step i) := by
  refine ⟨(w'.controller.config_step i).trans h.config, fun id => ?_, fun id r hr => ?_,
    h.landed_step hslots hw hi⟩
  · obtain ⟨since, hl⟩ := h.journal id
    exact ⟨since ++ Journal.of id (w'.controller.step i).2, by rw [journal_step, hl, List.append_assoc]⟩
  · rw [controller_step] at hr
    cases hw.fate i id with
    | spared _ hsame | cancelled _ _ _ _ hsame =>
      rw [hsame] at hr
      exact h.run id r hr
    | accepted _ _ _ _ hlog => exact absurd hlog (w'.controller.not_accepted_of_byJobs hi id _)
    | @turned _ r' _ t ht =>
      have hrest : t.run.stage ≠ .finished := by
        intro hf
        cases hr.symm.trans (ht.run_finished hf)
      cases hr.symm.trans (ht.run_after hrest)
      rw [ht.yields.plan]
      exact h.run id r' ht.run

end Watch

namespace Controller

/-- A shutdown always succeeds and leaves an empty store. What a job that is there writes from then on is
answered as if anyone had written it. When only such jobs go on, the targets of those that keep their
addresses come back, each when its batch is written, and no batch for another slot is accepted. -/
theorem revoked_lease_grants_nothing (config : Config) {s : Store} (hs : s.History past) (before : List Input) :
    let w := (idle config s).watch (before ++ [.store .shutdown])
    w.controller.store = .empty ∧
    (∀ (id : JobId) (after : List Input), w.controller.job? id ≠ none →
      (∀ e r, .store (.lease e r id) ∉ after) →
      let s' := (after.foldl Watch.step w).controller.store
      (∀ a, s'.leases.get? a ≠ some id) ∧ ∀ b, s'.applyAs (some id) b = s'.apply b) ∧
    ∀ after : List Input, (∀ i ∈ after, i.ByJobs) →
      let w' := after.foldl Watch.step w
      w'.controller.store.Landed (w.Rewrote w') ∧ ∀ id r, w'.controller.run? id = some r →
        (r.plan.mode = .sameIdentity →
          ∃ x, w'.controller.store.applyAs (some id) (r.plan.traffic config) = .ok x) ∧
        (r.plan.mode = .memberRebind →
          ∃ e, w'.controller.store.applyAs (some id) (r.plan.traffic config) = .error e) := by
  intro w
  have hi : s.tables.Intact := hs.intact
  have hsound : w.Sound := Watch.sound_watch ..
  have hslots : w.Slotted := Watch.slotted_watch config hi _
  have hempty : w.controller.store = .empty := by
    have hlast : w = ((idle config s).watch before).step (.store .shutdown) := watch_append_cons ..
    rw [hlast]
    exact (Store.shutdown_eq_empty (Watch.intact_watch config hi before)).1
  refine ⟨hempty, ?alone, ?aftermath⟩
  case alone =>
    intro id after hj hafter s'
    have hunowned : ∀ a, s'.leases.get? a ≠ some id := by
      refine Watch.unowned_foldl hsound hj hafter fun a => ?_
      rw [hempty]
      nofun
    exact ⟨hunowned, Store.applyAs_of_unowned hunowned⟩
  case aftermath =>
    intro after hafter w'
    have h : w.Aftermath w' := Watch.foldl_induction (P := w.Aftermath)
      (fun _ _ hw hi h => h.step hslots hw hi) hafter hsound (.refl hempty)
    refine ⟨h.landed, fun id r hr => ⟨fun hm => ?_, fun hm => ?_⟩⟩
    · obtain ⟨u, c, ha, -⟩ := h.landed.accepts hm config (some id)
      exact ⟨_, ha⟩
    · obtain ⟨r₀, hr₀, hplan⟩ := h.run id r hr
      obtain ⟨⟨vip, i⟩, hslot⟩ := hslots id r₀ hr₀ (hplan ▸ hm)
      exact ⟨_, h.landed.refuses hm (hplan ▸ hslot) config (some id)⟩

theorem revoked_lease_grants_nothing_to_replacement :
    let e : Endpoint := ⟨⟨⟨10⟩, ⟨.replicate 6 1⟩⟩, "a", 1, "web"⟩
    let new : Identity := ⟨⟨11⟩, ⟨.replicate 6 2⟩⟩
    let ops : List Op := [.createGroup ⟨1⟩ 2, .putEndpoint e, .putRule ⟨⟨10⟩, 1, none⟩, .bind ⟨1⟩ 0 ⟨10⟩]
    let s := Store.empty.act (.write none ⟨ops⟩)
    let config := Config.plain [⟨"a", "a", 1, "eth0", "/var"⟩, ⟨"b", "b", 2, "eth0", "/var"⟩] []
    let now : Moment := ⟨0, 0, 0⟩
    let p : Plan :=
      ⟨.ofNat 7, e, e.migrated "b" 2 (some new), .memberRebind, .afterForwarding, some (⟨1⟩, 0)⟩
    let x : Snapshot := ⟨"x", ⟨10⟩, "a", "/var/x", 5, now.wall⟩
    let before := .submit now.wall p.id ⟨⟨10⟩, "b", some new⟩ :: p.delivered now x ++ p.reattached now x
    let after : List Input := [.cancel (.ofNat 8), .wake p.id]
    let w := (idle config s).watch (before ++ [.store .shutdown])
    let w' := after.foldl Watch.step w
    s.History ops ∧ w.controller.store = .empty ∧ w.controller.job? p.id ≠ none ∧
      (∀ e r, .store (.lease e r p.id) ∉ after) ∧ (∀ i ∈ after, i.ByJobs) ∧
      (∀ b, w'.controller.store.applyAs (some p.id) b = w'.controller.store.apply b) ∧
      w'.controller.store.Landed (w.Rewrote w') ∧ ∃ r, w'.controller.run? p.id = some r ∧ r.plan = p ∧
        ∃ e, w'.controller.store.applyAs (some p.id) (p.traffic config) = .error e := by
  intro e new ops s config now p x before after w w'
  have hs : s.History ops := .of_write (by decide)
  have hknown : w.controller.job? p.id ≠ none := by decide +kernel
  have hleases : ∀ e r, .store (.lease e r p.id) ∉ after := by simp [after]
  have hjobs : ∀ i ∈ after, i.ByJobs := by
    simp only [after, List.forall_mem_cons]
    exact ⟨trivial, trivial, List.forall_mem_nil _⟩
  have hrun : (w'.controller.run? p.id).map (·.plan) = some p := by decide +kernel
  obtain ⟨r, hr, hp⟩ := Option.map_eq_some_iff.1 hrun
  obtain ⟨hempty, halone, hafter⟩ := revoked_lease_grants_nothing config hs before
  obtain ⟨-, hanyone⟩ := halone p.id after hknown hleases
  obtain ⟨hlanded, hnext⟩ := hafter after hjobs
  have hrefused := (hnext p.id r hr).2 (by rw [hp])
  have hw' : after.foldl Watch.step ((idle config s).watch (before ++ [.store .shutdown])) = w' := rfl
  rw [hw'] at hlanded
  simp only [hw', hp] at hanyone hrefused
  exact ⟨hs, hempty, hknown, hleases, hjobs, hanyone, hlanded, r, hr, hp, hrefused⟩

/-- A migration that keeps the address of its endpoint fills the tables again that a shutdown has emptied,
although it has lost its lease. -/
theorem emptied_tables_refilled :
    let e : Endpoint := ⟨⟨⟨10⟩, ⟨.replicate 6 1⟩⟩, "a", 1, "web"⟩
    let s := Store.empty.act (.write none ⟨[.putEndpoint e, .putRule ⟨⟨10⟩, 1, none⟩]⟩)
    let config := Config.plain [⟨"a", "a", 1, "eth0", "/var"⟩, ⟨"b", "b", 2, "eth0", "/var"⟩] []
    let now : Moment := ⟨0, 0, 0⟩
    let p : Plan := ⟨.ofNat 7, e, e.migrated "b" 2 none, .sameIdentity, .beforeRestore, none⟩
    let x : Snapshot := ⟨"x", ⟨10⟩, "a", "/var/x", 5, now.wall⟩
    let before := (idle config s).watch (.submit now.wall p.id ⟨⟨10⟩, "b", none⟩ :: p.delivered now x ++
      .answer now p.id (.teardown e) (.ok ()) :: .answer now p.id (.detach e) (.ok ()) ::
      p.reattached now x)
    let w := before.step (.store .shutdown)
    let w' := w.step (.answer now p.id (.announce p.target) (.ok ()))
    before.controller.store.leases.get? ⟨10⟩ = some p.id ∧ w.controller.store = .empty ∧
      written (w.journal p.id) = [] ∧ written (w'.journal p.id) = [p.traffic config] ∧
      w'.controller.store.tables.endpoints.get? ⟨10⟩ = some p.target ∧
      w'.controller.store.tables.rules.get? ⟨10⟩ = some p.targetRule := by
  intro e s config now p x before w w'
  exact ⟨by decide +kernel, by decide +kernel, by decide +kernel, by decide +kernel, by decide +kernel,
    by decide +kernel⟩

end Controller

end LiveMigration
