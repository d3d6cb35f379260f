import LiveMigration.Proofs.Controller.Actions
import LiveMigration.Proofs.Migration.Outcome

namespace LiveMigration

open Journal

theorem Group.plain_of_slot {g : Group} (h : g.slot i = .error e) : e.Plain := by
  grind [slot]

namespace Tables

variable {t : Tables}

theorem plain_of_group (h : t.group vip = .error e) : e.Plain := by
  grind [group]

theorem plain_of_apply {op : Op} (h : t.apply op = .error e) : e.Plain := by
  cases op with
  | putEndpoint | deleteNat => cases h
  | createGroup => grind [apply, createGroup]
  | removeEndpoint => grind [apply, removeEndpoint]
  | putRule => grind [apply, putRule]
  | removeRule => grind [apply, removeRule]
  | putNat => grind [apply, putNat]
  | deleteGroup =>
    simp only [apply, deleteGroup, Bind.bind, Except.bind] at h
    grind [plain_of_group]
  | bind =>
    simp only [apply, Tables.bind, Bind.bind, Except.bind] at h
    grind [plain_of_group, Group.plain_of_slot]
  | unbind =>
    simp only [apply, unbind, Bind.bind, Except.bind] at h
    grind [plain_of_group, Group.plain_of_slot]
  | setActive =>
    simp only [apply, setActive, Bind.bind, Except.bind] at h
    grind [plain_of_group, Group.plain_of_slot]

end Tables

namespace Store

/-- The batch of a job that an action brings into effect. -/
def took? (job : JobId) (s : Store) : Action → Option Batch
  | .write holder b =>
    match s.applyAs holder b with
    | .ok (_, true) => if holder = some job then some b else none
    | _ => none
  | _ => none

def taken (job : JobId) (s : Store) : List Action → List Batch
  | [] => []
  | a :: as => (s.took? job a).toList ++ (s.act a).taken job as

variable {s u : Store} {l : Lease} {es : List Effect} {job : JobId}

theorem taken_append (s : Store) (as bs : List Action) :
    s.taken job (as ++ bs) = s.taken job as ++ (as.foldl act s).taken job bs := by
  induction as generalizing s with
  | nil => rfl
  | cons a as ih => simp [taken, ih]

theorem took?_of_byOthers {a : Action} (h : a.ByOthers job) : s.took? job a = none := by
  cases a with
  | write holder b =>
    simp only [took?]
    split
    · exact if_neg h
    · rfl
  | _ => rfl

theorem taken_of_byOthers {as : List Action} (h : ∀ a ∈ as, a.ByOthers job) : s.taken job as = [] := by
  induction as generalizing s with
  | nil => rfl
  | cons a as ih =>
    rw [List.forall_mem_cons] at h
    rw [taken, took?_of_byOthers h.1, ih h.2]
    rfl

theorem plain_of_checkLease {leases : Table Addr JobId} {holder : Option JobId} {as : List Addr}
    (h : checkLease leases holder as = .error e) : e.Plain := by
  induction as with
  | nil => cases h
  | cons a as ih =>
    simp only [checkLease] at h
    split at h
    · split at h
      · exact ih h
      · cases h
        exact Error.plain_conflict _
    · exact ih h

theorem plain_of_stage {leases : Table Addr JobId} {holder : Option JobId} {t : Tables} {ops : List Op}
    (h : stage leases holder t ops = .error e) : e.Plain := by
  induction ops generalizing t with
  | nil => cases h
  | cons op ops ih =>
    simp only [stage, bind, Except.bind] at h
    split at h
    · rename_i hl
      cases h
      exact plain_of_checkLease hl
    split at h
    · rename_i ha
      cases h
      exact Tables.plain_of_apply ha
    split at h
    · rename_i hs
      cases h
      exact ih hs
    · cases h

theorem plain_of_applyAs {holder : Option JobId} (h : s.applyAs holder b = .error e) : e.Plain := by
  simp only [applyAs, bind, Except.bind] at h
  split at h
  · rename_i hs
    cases h
    exact plain_of_stage hs
  · cases h

end Store

namespace Plan

variable {p : Plan} {s : Store} {holder : Option JobId}

theorem changed_of_retire (h : s.applyAs holder p.retireBatch = .ok (s', c)) : c = true := by
  obtain ⟨⟨t, c⟩, hs, h⟩ := Except.bind_eq_ok.mp h
  cases h
  obtain ⟨u, c₁, c₂, -, hc, -, rfl⟩ := Store.stage_cons_eq_ok hs
  cases hc
  rfl

end Plan

theorem Effect.idle_of_journal {es : List Effect} (ha : attempted (es.map .did) = [])
    (hp : published (es.map .did) = []) : ∀ e ∈ es, e.action? l = none := by
  intro e he
  have hm : Occurrence.did e ∈ es.map .did := List.mem_map_of_mem he
  cases e with
  | write b r =>
    have := mem_attempted.2 ⟨r, hm⟩
    rw [ha] at this
    cases this
  | publish j =>
    have := mem_published.2 hm
    rw [hp] at this
    cases this
  | call c => rfl
  | pause n => rfl

namespace Store.Performs

variable {s u : Store} {l : Lease} {es es' : List Effect}

theorem result (h : Performs l s es u) (hb : .write b r ∈ es) :
    ∃ s : Store, r = (s.applyAs (some l.job) b).map Prod.snd := by
  induction h with
  | nil => cases hb
  | idle he _ ih =>
    rcases List.mem_cons.1 hb with rfl | hb
    · cases he
    · exact ih hb
  | write _ ih =>
    rcases List.mem_cons.1 hb with hb | hb
    · cases hb
      exact ⟨_, rfl⟩
    · exact ih hb
  | publish _ ih =>
    rcases List.mem_cons.1 hb with hb | hb
    · cases hb
    · exact ih hb

theorem first (h : Performs l s (es ++ .write b r :: es') u) (he : ∀ e ∈ es, e.action? l = none) :
    r = (s.applyAs (some l.job) b).map Prod.snd := by
  induction es with
  | nil =>
    cases h with
    | idle he => cases he
    | write => rfl
  | cons e es ih =>
    rw [List.forall_mem_cons] at he
    cases h with
    | idle _ h => exact ih h he.2
    | write => cases he.1
    | publish => cases he.1

theorem eq_of_idle (h : Performs l s es u) (he : ∀ e ∈ es, e.action? l = none) : u = s := by
  rw [h.foldl, List.filterMap_eq_nil_iff.2 he]
  rfl

theorem candid (h : Performs l s es u) : Candid (es.map .did) := by
  intro b e hm
  obtain ⟨x, hm, hx⟩ := List.mem_map.1 hm
  cases hx
  obtain ⟨s, hs⟩ := h.result hm
  cases ha : s.applyAs (some l.job) b with
  | error e' =>
    rw [ha] at hs
    cases hs
    exact plain_of_applyAs ha
  | ok r =>
    rw [ha] at hs
    cases hs

theorem changed {p : Plan} {k : List Occurrence} {rest : Stage} (h : Performs l s es u)
    (hc : Course config p (.waiting rest) pr j (k ++ es.map .did)) (hk : Honest p (k ++ es.map .did))
    (hl : l.job = p.id) (hr : attempted k = [] → p.Ready s) (b : Batch) : .write b (.ok false) ∉ es := by
  intro hm
  obtain ⟨es₁, es₂, rfl⟩ := List.append_of_mem hm
  rw [List.map_append, List.map_cons, ← List.append_assoc] at hc hk
  rcases hc.first_of_write hk with rfl | ⟨rfl, ha, hp⟩
  · obtain ⟨s, hs⟩ := h.result hm
    cases ha : s.applyAs (some l.job) p.retireBatch with
    | error e =>
      rw [ha] at hs
      cases hs
    | ok r =>
      obtain ⟨s', c⟩ := r
      rw [ha, Plan.changed_of_retire ha] at hs
      cases hs
  · rw [attempted_append, List.append_eq_nil_iff] at ha
    rw [published_append, List.append_eq_nil_iff] at hp
    obtain ⟨s', hs⟩ := (hr ha.1).traffic_accepted config
    have hx := h.first (Effect.idle_of_journal ha.2 hp.2)
    rw [hl, hs] at hx
    cases hx

theorem taken (h : Performs l s es u) (hc : ∀ b, .write b (.ok false) ∉ es) :
    s.taken l.job (es.filterMap (Effect.action? l)) = written (es.map .did) := by
  induction h with
  | nil => rfl
  | @idle _ _ _ e he _ ih =>
    rw [List.filterMap_cons_none he, ih fun b hb => hc b (List.mem_cons_of_mem e hb)]
    cases e with
    | write => cases he
    | publish => cases he
    | _ => rfl
  | @write _ _ s b _ ih =>
    simp only [List.filterMap_cons, Effect.action?, Store.taken, List.map_cons, written_cons]
    rw [ih fun b hb => hc b (List.mem_cons_of_mem _ hb)]
    congr 2
    cases h : s.applyAs (some l.job) b with
    | error e => simp [took?, written?, Except.map, h]
    | ok r =>
      obtain ⟨s', c⟩ := r
      cases c with
      | true => simp [took?, written?, Except.map, h]
      | false => exact absurd (by simp [h, Except.map]) (hc b)
  | publish _ ih => exact ih fun b hb => hc b (List.mem_cons_of_mem _ hb)

end Store.Performs

theorem Controller.Turned.attempted_before {c : Controller} {id : JobId}
    (h : c.Turned i id j r before t) :
    attempted before = [] := by
  rw [List.eq_nil_iff_forall_not_mem]
  intro b hm
  obtain ⟨x, hm⟩ := mem_attempted.1 hm
  exact h.before_idle _ hm

namespace Watch

variable {w : Watch} {i : Input} {id : JobId}

structure Faithful (w : Watch) (id : JobId) : Prop where
  intact : w.controller.store.tables.Intact
  ready : ∀ r, w.controller.run? id = some r → attempted (w.journal id) = [] →
    r.plan.Ready w.controller.store
  honest : ∀ p, Honest p (w.journal id)
  changed : ∀ b, .did (.write b (.ok false)) ∉ w.journal id

theorem intact_step (h : w.controller.store.tables.Intact) :
    (w.step i).controller.store.tables.Intact := by
  rw [controller_step, w.controller.store_step]
  exact Store.intact_foldl h

theorem byOthers_of_spared {as : List Store.Action} (hi : ∀ a, i = .store a → a.ByOthers id)
    (ha : ∀ a ∈ as, i = .store a ∨ a.Foreign id) : ∀ a ∈ as, a.ByOthers id := by
  intro a hm
  rcases ha a hm with hi' | hf
  · exact hi a hi'
  · exact hf.byOthers

theorem Faithful.kept (h : w.Faithful id)
    (hr : (w.controller.step i).1.run? id = w.controller.run? id)
    (hl : (w.step i).journal id = w.journal id) (ha : ∀ a ∈ w.controller.actions i, a.ByOthers id) :
    (w.step i).Faithful id := by
  refine ⟨intact_step h.intact, fun r hr' hn => ?_, hl ▸ h.honest, hl ▸ h.changed⟩
  rw [controller_step, hr] at hr'
  rw [hl] at hn
  rw [controller_step, w.controller.store_step]
  apply (h.ready r hr' hn).foldl
  rw [Controller.plan_id_of_run? hr']
  exact ha

theorem faithful_turn (hw : w.Sound) (ht : w.controller.Turned i id j r before t) (h : w.Faithful id) :
    (w.step i).Faithful id := by
  have hperf := ht.yields.of_start.1
  obtain ⟨hlog, stage, pr, hc⟩ := hw.course_of_turned ht
  have honest : ∀ p, Honest p ((w.step i).journal id) := by
    intro p e hm
    simp only [hlog, List.mem_append, ht.before_idle, or_false] at hm
    rcases hm with hm | hm
    · exact h.honest p e hm
    · exact hperf.candid p.retireBatch e hm
  have hready : attempted (w.journal id ++ before) = [] → r.plan.Ready w.controller.store := by
    intro hn
    rw [attempted_append, List.append_eq_nil_iff] at hn
    exact h.ready r ht.run hn.1
  refine ⟨intact_step h.intact, fun r' hr' hn => ?_, honest, fun b hm => ?_⟩
  · have hrest : t.run.stage ≠ .finished := by
      intro hf
      cases hr'.symm.trans (ht.run_finished hf)
    cases hr'.symm.trans (ht.run_after hrest)
    have hsilent : published (t.effects.map .did) = [] := by
      rw [List.eq_nil_iff_forall_not_mem]
      intro k hk
      have hk := List.mem_append_right (w.journal id ++ before) (mem_published.1 hk)
      rw [← hlog] at hk
      cases hr'.symm.trans ((((hw.step i).stands id).published_iff ht.job_after).1 ⟨k, hk⟩)
    rw [hlog, attempted_append, List.append_eq_nil_iff] at hn
    rw [controller_step, ht.store, hperf.eq_of_idle (Effect.idle_of_journal hn.2 hsilent),
      ht.yields.plan]
    exact hready hn.1
  · have hid : r.lease.job = r.plan.id := by
      rw [hw.lease_job ht.run, Controller.plan_id_of_run? ht.run]
    have hh := honest r.plan
    rw [hlog] at hh
    simp only [hlog, List.mem_append, ht.before_idle, or_false] at hm
    rcases hm with hm | hm
    · exact h.changed b hm
    · refine hperf.changed hc hh hid hready b ?_
      simpa using hm

theorem faithful_step (hw : w.Sound) (hi : ∀ a, i = .store a → a.ByOthers id) (h : w.Faithful id) :
    (w.step i).Faithful id := by
  have hlog := w.journal_step i id
  cases hw.fate i id with
  | spared _ hr hnil ha =>
    rw [hnil, List.append_nil] at hlog
    exact h.kept hr hlog (byOthers_of_spared hi ha)
  | cancelled hi' _ _ _ hr hnil =>
    rw [hnil, Journal.of_nil, List.append_nil] at hlog
    refine h.kept hr hlog ?_
    rw [hi']
    exact List.forall_mem_nil _
  | accepted _ _ _ hr hnew _ _ hready =>
    rw [hnew] at hlog
    have hold : ∀ b r, .did (.write b r) ∈ (w.step i).journal id → .did (.write b r) ∈ w.journal id := by
      intro b r hm
      rw [hlog] at hm
      simpa using hm
    refine ⟨intact_step h.intact, fun r hr' _ => ?_, fun p e he => h.honest p e (hold _ _ he),
      fun b hm => h.changed b (hold _ _ hm)⟩
    cases hr.symm.trans hr'
    exact hready h.intact
  | turned ht => exact faithful_turn hw ht h

theorem taken_step (hw : w.Sound) (hi : ∀ a, i = .store a → a.ByOthers id)
    (h : (w.step i).Faithful id) : w.controller.store.taken id (w.controller.actions i) =
      written (Journal.of id (w.controller.step i).2) := by
  have hnew := w.journal_step i id
  cases hw.fate i id with
  | spared _ _ hnil ha =>
    rw [hnil, Store.taken_of_byOthers (byOthers_of_spared hi ha)]
    rfl
  | accepted _ _ _ _ hl _ _ _ ha =>
    rw [hl, Store.taken_of_byOthers ha]
    rfl
  | cancelled hi' _ _ _ _ hnil =>
    rw [hnil, hi']
    rfl
  | @turned j r before t ht =>
    have hchanged : ∀ b, .write b (.ok false) ∉ t.effects := by
      intro b hm
      apply h.changed b
      rw [hnew, ht.log]
      simp [hm]
    have htaken := ht.yields.of_start.1.taken hchanged
    rw [hw.lease_job ht.run] at htaken
    rw [ht.actions, ht.log, written_append, written_of_attempted ht.attempted_before, htaken]
    rfl

theorem written_foldl {inputs : List Input} (hw : w.Sound) (h : w.Faithful id)
    (hi : ∀ i ∈ inputs, ∀ a, i = .store a → a.ByOthers id) :
    (inputs.foldl step w).Faithful id ∧ written ((inputs.foldl step w).journal id) =
      written (w.journal id) ++ w.controller.store.taken id (w.controller.history inputs) := by
  induction inputs generalizing w with
  | nil => exact ⟨h, (List.append_nil _).symm⟩
  | cons i is ih =>
    rw [List.forall_mem_cons] at hi
    have hf := faithful_step hw hi.1 h
    obtain ⟨hlast, hw'⟩ := ih (hw.step i) hf hi.2
    refine ⟨hlast, ?_⟩
    rw [List.foldl_cons, hw', journal_step, written_append, Controller.history, Store.taken_append,
      taken_step hw hi.1 hf, ← w.controller.store_step, List.append_assoc]
    rfl

end Watch

namespace Controller

end Controller

end LiveMigration
