import LiveMigration.Proofs.Controller.Handover
import LiveMigration.Proofs.Migration.Frame
import LiveMigration.Proofs.Migration.Progress

/-!
# Actions of a controller

What the inputs of a controller do to its store, as actions of a store, and what becomes of one job at an
input. Later proofs go by cases on `Controller.Fate` and do not open the steps of a controller.
-/

namespace LiveMigration

open Journal

def Job.lease (j : Job) : Lease := ⟨j.source.addr, j.newIdentity.map Identity.addr, j.id⟩

namespace Store.Action

def Foreign (job : JobId) : Action → Prop
  | .write holder _ => holder ≠ some job
  | .lease _ _ owner => owner ≠ job
  | .drop l => l.job ≠ job
  | .relocate .. | .teardownAll => True
  | .shutdown => False

theorem Foreign.byOthers {a : Action} (h : a.Foreign job) : a.ByOthers job := by
  cases a with
  | write => exact h
  | drop => exact h
  | shutdown => exact h
  | relocate => trivial
  | lease => trivial
  | teardownAll => trivial

end Store.Action

theorem Effect.foreign_of_action? {e : Effect} (ha : e.action? l = some a) (hl : l.job ≠ job) :
    a.Foreign job := by
  cases e with
  | write b r =>
    cases ha
    intro h
    exact hl (Option.some.inj h)
  | publish j =>
    cases ha
    exact hl
  | call c => cases ha
  | pause n => cases ha

def Input.turn? (config : Config) : Input → Option (JobId × (Turn → Turn))
  | .start m id => some (id, Turn.start m)
  | .wake id => some (id, Turn.wake)
  | .answer m id call o => some (id, Turn.answer config m call o)
  | .submit .. | .cancel _ | .reattach .. | .cleanup | .store _ => none

namespace Controller

def actionsOf (c : Controller) (id : JobId) (es : List Effect) : List Store.Action :=
  (c.run? id).toList.flatMap fun r => es.filterMap (Effect.action? r.lease)

def actions (c : Controller) : Input → List Store.Action
  | .submit now id q =>
    if (c.job? id).isNone && (c.submit now id q).isOk then
      (c.store.tables.endpoints.get? q.source).toList.map fun e =>
        .lease e.addr (q.newIdentity.map Identity.addr) id
    else []
  | .cancel _ => []
  | .reattach addr egress mac host =>
    if (c.store.leases.get? addr).isNone then [.relocate addr egress mac host] else []
  | .cleanup => [.teardownAll]
  | .store a => [a]
  | .start m id => c.actionsOf id (c.start m id).2
  | .wake id => c.actionsOf id (c.wake id).2
  | .answer m id call o => c.actionsOf id (c.answer m id call o).2

/-- What inputs do to the store, one after the other. -/
def history (c : Controller) : List Input → List Store.Action
  | [] => []
  | i :: is => c.actions i ++ (c.step i).1.history is

variable {c : Controller} {id id' : JobId}

theorem id_of_job? (h : c.job? id = some j) : j.id = id := by
  simpa using List.find?_some h

theorem actionsOf_of_run? (h : c.run? id = some r) (es : List Effect) :
    c.actionsOf id es = es.filterMap (Effect.action? r.lease) := by
  simp [actionsOf, h]

theorem actionsOf_nil (c : Controller) (id : JobId) : c.actionsOf id [] = [] := by
  cases h : c.run? id with
  | none => simp [actionsOf, h]
  | some r => exact actionsOf_of_run? h []

theorem store_turn {f : Turn → Turn} (hf : ∀ t : Turn, t.Yields (f t)) :
    (c.turn id f).1.store = (c.actionsOf id (c.turn id f).2).foldl Store.act c.store := by
  cases hr : c.run? id with
  | none => simp [turn, hr, actionsOf_nil]
  | some r =>
    cases hj : c.job? id with
    | none => simp [turn, hr, hj, actionsOf_nil]
    | some j =>
      obtain ⟨es, he, hs, -⟩ := (hf ⟨c.store, j, r, []⟩).effects
      rw [actionsOf_of_run? hr, effects_turn hr hj rfl, he, List.nil_append, ← hs.foldl]
      simp [turn, hr, hj]

theorem store_step (c : Controller) (i : Input) :
    (c.step i).1.store = (c.actions i).foldl Store.act c.store := by
  cases i with
  | submit now id q =>
    simp only [step, actions]
    cases hj : c.job? id with
    | some j => rfl
    | none =>
      cases hq : c.submit now id q with
      | error e => rfl
      | ok c' =>
        obtain ⟨e, host, s, lease, p, he, -, -, hl, -, rfl⟩ := submit_eq_ok hq
        simp [he, Except.isOk, Except.toBool, Store.act, hl, Store.settle, accept]
  | cancel id =>
    simp only [step, actions]
    cases hq : c.cancel id with
    | error e => rfl
    | ok r =>
      obtain hr | ⟨j, -, -, -, hr⟩ := cancel_eq_ok hq
      · simp [settle, hr]
      · simp [settle, hr]
  | reattach addr egress mac host =>
    simp only [step, actions, reattach]
    cases hl : c.store.leases.get? addr with
    | some owner => rfl
    | none =>
      simp only [onStore, Option.isNone_none, if_true, List.foldl_cons, List.foldl_nil, Store.act]
      cases c.store.relocate addr egress mac host <;> rfl
  | cleanup =>
    simp only [step, actions, cleanup, onStore, List.foldl_cons, List.foldl_nil, Store.act]
    cases c.store.teardownAll <;> rfl
  | store a => rfl
  | start m id => exact store_turn fun _ => Turn.yields_start
  | wake id => exact store_turn fun _ => Turn.yields_wake
  | answer m id call o => exact store_turn fun _ => Turn.yields_answer

theorem store_watch (c : Controller) (inputs : List Input) :
    (c.watch inputs).controller.store = (c.history inputs).foldl Store.act c.store := by
  have key : ∀ w : Watch, (inputs.foldl Watch.step w).controller.store =
      (w.controller.history inputs).foldl Store.act w.controller.store := by
    induction inputs with
    | nil =>
      intro w
      rfl
    | cons i is ih =>
      intro w
      rw [List.foldl_cons, ih, history, List.foldl_append, ← store_step]
      rfl
  exact key ⟨c, []⟩

section

variable {l : List Occurrence}

theorem Stands.course_of_run? (h : c.Stands id l) (hr : c.run? id = some r)
    (hj : c.job? id = some j) : Course c.config r.plan (.waiting r.stage) r.progress j l := by
  cases h with
  | unknown h => cases hj.symm.trans h
  | ended h => cases hr.symm.trans h
  | underWay hr' hj' _ h =>
    cases hr.symm.trans hr'
    cases hj.symm.trans hj'
    exact h

theorem Stands.course_of_job? (h : c.Stands id l) (hj : c.job? id = some j) :
    ∃ p s pr, Course c.config p (.waiting s) pr j l := by
  cases h with
  | unknown h => cases hj.symm.trans h
  | ended _ hj' _ h | underWay _ hj' _ h =>
    cases hj.symm.trans hj'
    exact ⟨_, _, _, h⟩

theorem Stands.running_iff (h : c.Stands id l) (hj : c.job? id = some j) :
    j.status = .running ↔ ∃ r, c.run? id = some r := by
  cases h with
  | unknown h => cases hj.symm.trans h
  | underWay hr h hf hl =>
    cases hj.symm.trans h
    exact ⟨fun _ => ⟨_, hr⟩, fun _ => hl.running (by simpa using hf)⟩
  | ended hr h _ hl =>
    cases hj.symm.trans h
    exact ⟨fun hs => absurd hs (hl.ended rfl), fun ⟨r, h⟩ => nomatch hr.symm.trans h⟩

theorem Stands.published_iff (h : c.Stands id l) (hj : c.job? id = some j) :
    (∃ i, .did (.publish i) ∈ l) ↔ c.run? id = none := by
  simp only [← mem_published]
  cases h with
  | unknown h => cases hj.symm.trans h
  | @underWay r _ hr h hf hl =>
    have hp : published l = [] := by
      rw [hl.published_eq]
      cases hs : r.stage with
      | finished => exact absurd hs hf
      | _ => rfl
    simp [hp, hr]
  | ended hr h _ hl =>
    rw [hl.published_eq]
    simp [Point.published, hr]

end

structure Turned (c : Controller) (i : Input) (id : JobId) (j : Job) (r : Run)
    (before : List Occurrence) (t : Turn) : Prop where
  job : c.job? id = some j
  run : c.run? id = some r
  turn : ∃ f, i.turn? c.config = some (id, f) ∧ t = f ⟨c.store, j, r, []⟩
  job_after : (c.step i).1.job? id = some t.job
  run_finished : t.run.stage = .finished → (c.step i).1.run? id = none
  run_after : t.run.stage ≠ .finished → (c.step i).1.run? id = some t.run
  log : Journal.of id (c.step i).2 = before ++ t.effects.map .did
  before_idle : ∀ e, .did e ∉ before
  yields : Turn.Yields ⟨c.store, j, r, []⟩ t
  store : (c.step i).1.store = t.store
  actions : c.actions i = t.effects.filterMap (Effect.action? r.lease)

inductive Fate (c : Controller) (i : Input) (id : JobId) : Prop
  | spared : (c.step i).1.job? id = c.job? id → (c.step i).1.run? id = c.run? id →
      Journal.of id (c.step i).2 = [] → (∀ a ∈ c.actions i, i = .store a ∨ a.Foreign id) → Fate c i id
  | accepted : c.job? id = none → c.run? id = none → (c.step i).1.job? id = some j →
      (c.step i).1.run? id = some r → Journal.of id (c.step i).2 = [.accepted r.plan] →
      r.lease = j.lease → c.store.Granted r.lease (c.step i).1.store →
      (c.store.tables.Intact → r.plan.Ready (c.step i).1.store) →
      (∀ a ∈ c.actions i, a.ByOthers id) → Fate c i id
  | cancelled : i = .cancel id → c.job? id = some j → j.isCancellable = true →
      (c.step i).1.job? id = some { j with cancelRequested := true } →
      (c.step i).1.run? id = c.run? id → (c.step i).2 = [] → Fate c i id
  | turned : c.Turned i id j r before t → Fate c i id

def Keyed (c : Controller) : Prop :=
  ∀ id r, c.run? id = some r → ∃ j, c.job? id = some j ∧ r.lease = j.lease

section

variable {f : Turn → Turn} {log : List (JobId × Occurrence)} {i : Input}
  (hs : ∀ id, c.Stands id (Journal.of id log)) (hk : c.Keyed)

theorem fate_of_unchanged (hj : (c.step i).1.job? id = c.job? id)
    (hr : (c.step i).1.run? id = c.run? id) (hl : (c.step i).2 = [])
    (ha : ∀ a ∈ c.actions i, i = .store a ∨ a.Foreign id) : c.Fate i id :=
  .spared hj hr (by rw [hl, Journal.of_nil]) ha

include hs hk in
theorem fate_turn {before : List Occurrence} (hi : c.step i = noting id' before (c.turn id' f))
    (hturn : i.turn? c.config = some (id', f))
    (ha : c.actions i = c.actionsOf id' (c.turn id' f).2) (hf : ∀ t : Turn, t.Yields (f t))
    (hb : c.run? id' = none → before = [])
    (hb' : ∀ e, .did e ∉ before) (id : JobId) : c.Fate i id := by
  cases hr : c.run? id' with
  | none =>
    have hn : c.step i = (c, []) := by
      rw [hi, turn_of_absent hr, hb hr]
      rfl
    apply fate_of_unchanged
    · rw [hn]
    · rw [hn]
    · rw [hn]
    · intro a hm
      rw [ha, turn_of_absent hr, actionsOf_nil] at hm
      cases hm
  | some r =>
    obtain ⟨j, hj, hl⟩ := hk id' r hr
    have hrun := ((hs id').running_iff hj).2 ⟨r, hr⟩
    have hy := hf ⟨c.store, j, r, []⟩
    have hid : (f ⟨c.store, j, r, []⟩).job.id = id' := hy.job.id.trans (id_of_job? hj)
    have hp : (f ⟨c.store, j, r, []⟩).run.plan.id = id' := by
      rw [hy.plan]
      exact plan_id_of_run? hr
    by_cases h : id = id'
    · subst h
      have hjob := @job?_turn _ _ id _ _ _ _ hr hj hrun rfl hid
      rw [if_pos rfl] at hjob
      have hlog : Journal.of id (c.step i).2 =
          before ++ (f ⟨c.store, j, r, []⟩).effects.map .did := by
        rw [hi, noting, Journal.of_self, effects_turn hr hj rfl]
      refine .turned ⟨hj, hr, ⟨f, hturn, rfl⟩, ?_, ?_, ?_, hlog, hb', hy, ?_, ?_⟩
      · rw [hi]
        exact hjob
      · intro hfin
        rw [hi]
        exact (run?_turn_of_finished hr hj rfl hfin).trans (if_pos rfl)
      · intro hfin
        rw [hi]
        exact (run?_turn hr hj rfl hp hfin).trans (if_pos rfl)
      · rw [hi]
        simp only [noting, turn, hr, hj]
      · rw [ha, actionsOf_of_run? hr, effects_turn hr hj rfl]
    · apply Fate.spared
      · rw [hi]
        exact (job?_turn hr hj hrun rfl hid).trans (if_neg h)
      · rw [hi]
        exact run?_turn_of_ne hr hj rfl hp h
      · rw [hi]
        exact Journal.of_other (Ne.symm h) _
      · intro a hm
        rw [ha, actionsOf_of_run? hr] at hm
        obtain ⟨e, -, he⟩ := List.mem_filterMap.1 hm
        refine .inr (Effect.foreign_of_action? he ?_)
        rw [hl]
        exact fun h' => h ((id_of_job? hj).symm.trans h').symm

theorem fate_accept (hi : c.step i = (c.accept s j p lease, [(id', .accepted p)]))
    (ha : ∀ a ∈ c.actions i, ∃ e b, a = .lease e b id') (hj : c.job? id' = none)
    (hr : c.run? id' = none) (hp : p.id = id') (hid : j.id = id')
    (hg : c.store.Granted lease s) (hl : lease = j.lease) (hready : c.store.tables.Intact → p.Ready s)
    (id : JobId) : c.Fate i id := by
  have hjob : (c.step i).1.job? id = if id = j.id then some j else c.job? id := by
    rw [hi, ← job?_accept rfl]
  have hrun : (c.step i).1.run? id = if id = id' then some (.new p lease) else c.run? id := by
    rw [hi, ← run?_accept hr hp]
  rw [hid] at hjob
  by_cases h : id = id'
  · subst h
    rw [if_pos rfl] at hjob hrun
    refine .accepted hj hr hjob hrun ?_ hl ?_ ?_ ?_
    · rw [hi]
      exact Journal.of_self [.accepted p]
    · rw [hi]
      exact hg
    · rw [hi]
      exact hready
    · intro a hm
      obtain ⟨e, b, rfl⟩ := ha a hm
      trivial
  · rw [if_neg h] at hjob hrun
    refine .spared hjob hrun ?_ ?_
    · rw [hi]
      exact Journal.of_other (Ne.symm h) [.accepted p]
    · intro a hm
      obtain ⟨e, b, rfl⟩ := ha a hm
      exact .inr (Ne.symm h)

include hs in
theorem fate_submit (now : Timestamp) (id' : JobId) (q : MigrationRequest) (id : JobId) :
    c.Fate (.submit now id' q) id := by
  cases hj : c.job? id' with
  | some j =>
    have hn : c.step (.submit now id' q) = (c, []) := by simp [step, hj]
    apply fate_of_unchanged
    · rw [hn]
    · rw [hn]
    · rw [hn]
    · simp [actions, hj]
  | none =>
    cases hq : c.submit now id' q with
    | error e =>
      have hn : c.step (.submit now id' q) = (c, []) := by simp [step, hj, hq]
      apply fate_of_unchanged
      · rw [hn]
      · rw [hn]
      · rw [hn]
      · simp [actions, hj, hq, Except.isOk, Except.toBool]
    | ok c' =>
      have hr : c.run? id' = none := by
        cases hs id' with
        | unknown _ h => exact h
        | underWay _ h => cases hj.symm.trans h
        | ended _ h => cases hj.symm.trans h
      obtain ⟨e, host, s, lease, p, he, -, hc, hl, hp, rfl⟩ := submit_eq_ok hq
      obtain ⟨rfl, hg⟩ := Store.granted_of_lease hl
      have hid : p.id = id' := by rw [hp]
      refine fate_accept (j := .new id' e q.targetHost q.newIdentity
        c.config.migration.teardownPolicy now) ?_ ?_ hj hr hid rfl hg rfl
        (fun hi => ready_of_lease hi he hc hl hp) id
      · simp [step, hj, hq, run?_accept hr hid, Run.new]
      · intro a ha
        simp only [actions, hj, hq, he, Except.isOk, Except.toBool] at ha
        exact ⟨_, _, List.mem_singleton.1 ha⟩

theorem fate_cancel (id' id : JobId) : c.Fate (.cancel id') id := by
  cases hq : c.cancel id' with
  | error e =>
    have hn : c.step (.cancel id') = (c, []) := by simp [step, hq, settle]
    apply fate_of_unchanged
    · rw [hn]
    · rw [hn]
    · rw [hn]
    · simp [actions]
  | ok r =>
    obtain hr | ⟨j, hj, ht, hc, hr⟩ := cancel_eq_ok hq
    · have hn : c.step (.cancel id') = (c, []) := by simp [step, hq, settle, hr]
      apply fate_of_unchanged
      · rw [hn]
      · rw [hn]
      · rw [hn]
      · simp [actions]
    · have hjob : (c.step (.cancel id')).1.job? id =
          if id = id' then some { j with cancelRequested := true } else c.job? id := by
        simp only [step, hq, settle, hr]
        exact Registry.get?_update_of_running hj ht fun _ h => h
      have hrun : (c.step (.cancel id')).1.run? id = c.run? id := by
        simp only [step, hq, settle, hr]
        rfl
      by_cases h : id = id'
      · subst h
        rw [if_pos rfl] at hjob
        exact .cancelled rfl hj hc hjob hrun rfl
      · rw [if_neg h] at hjob
        exact .spared hjob hrun rfl (List.forall_mem_nil _)

theorem fate_of_settle (h : ∃ s, c.step i = ({ c with store := s }, []))
    (ha : ∀ a ∈ c.actions i, i = .store a ∨ a.Foreign id) : c.Fate i id := by
  obtain ⟨s, hn⟩ := h
  apply fate_of_unchanged
  · rw [hn]
    rfl
  · rw [hn]
    rfl
  · rw [hn]
  · exact ha

include hs hk in
theorem fate_step (i : Input) (id : JobId) : c.Fate i id := by
  cases i with
  | submit now id' q => exact fate_submit hs now id' q id
  | cancel id' => exact fate_cancel id' id
  | reattach addr egress mac host =>
    apply fate_of_settle
    · obtain ⟨s, h⟩ := c.settle_reattach addr egress mac host
      exact ⟨s, congrArg (·, []) h⟩
    · intro a ha
      simp only [actions] at ha
      split at ha
      · cases List.mem_singleton.1 ha
        exact .inr trivial
      · cases ha
  | cleanup =>
    apply fate_of_settle
    · obtain ⟨s, h⟩ := c.settle_onStore Store.teardownAll
      exact ⟨s, congrArg (·, []) h⟩
    · intro a ha
      cases List.mem_singleton.1 ha
      exact .inr trivial
  | store a =>
    apply fate_of_settle
    · exact ⟨_, rfl⟩
    · intro b hb
      cases List.mem_singleton.1 hb
      exact .inl rfl
  | start m id' => exact fate_turn hs hk rfl rfl rfl (fun _ => Turn.yields_start) (fun _ => rfl) (by simp) id
  | wake id' => exact fate_turn hs hk rfl rfl rfl (fun _ => Turn.yields_wake) (fun _ => rfl) (by simp) id
  | answer m id' call o =>
    refine fate_turn hs hk rfl rfl rfl (fun _ => Turn.yields_answer) ?_ ?_ id
    · intro hr
      simp [expects, hr]
    · split
      · simp
      · simp

include hs hk in
theorem keyed_step (i : Input) : (c.step i).1.Keyed := by
  intro id r hr
  cases fate_step hs hk i id with
  | spared hj hr' =>
    rw [hr'] at hr
    rw [hj]
    exact hk id r hr
  | accepted _ _ hj hr' _ hl =>
    cases hr.symm.trans hr'
    exact ⟨_, hj, hl⟩
  | cancelled _ hj _ hj' hr' =>
    rw [hr'] at hr
    obtain ⟨j, h, hl⟩ := hk id r hr
    cases hj.symm.trans h
    exact ⟨_, hj', hl⟩
  | @turned _ _ _ t ht =>
    by_cases hf : t.run.stage = .finished
    · cases hr.symm.trans (ht.run_finished hf)
    · cases hr.symm.trans (ht.run_after hf)
      obtain ⟨j, h, hl⟩ := hk id _ ht.run
      cases ht.job.symm.trans h
      refine ⟨_, ht.job_after, ht.yields.lease.trans (hl.trans ?_)⟩
      simp only [Job.lease, ht.yields.job.id, ht.yields.job.source, ht.yields.job.newIdentity]

end

end Controller

namespace Watch

structure Sound (w : Watch) : Prop where
  stands : ∀ id, w.controller.Stands id (w.journal id)
  keyed : w.controller.Keyed

variable {w : Watch} {P : Watch → Prop} {q : Input → Prop}

theorem controller_step (w : Watch) (i : Input) :
    (w.step i).controller = (w.controller.step i).1 := rfl

theorem journal_step (w : Watch) (i : Input) (id : JobId) :
    (w.step i).journal id = w.journal id ++ Journal.of id (w.controller.step i).2 :=
  Journal.of_append

theorem Sound.step (h : w.Sound) (i : Input) : (w.step i).Sound :=
  ⟨Controller.stands_step h.stands i, Controller.keyed_step h.stands h.keyed i⟩

theorem Sound.fate (h : w.Sound) (i : Input) (id : JobId) : w.controller.Fate i id :=
  Controller.fate_step h.stands h.keyed i id

theorem Sound.lease_job {id : JobId} (h : w.Sound) (hr : w.controller.run? id = some r) : r.lease.job = id := by
  obtain ⟨j, hj, hl⟩ := h.keyed id r hr
  rw [hl]
  exact Controller.id_of_job? hj

theorem Sound.course_of_turned {id : JobId} (h : w.Sound) (ht : w.controller.Turned i id j r before t) :
    (w.step i).journal id = w.journal id ++ before ++ t.effects.map .did ∧
      ∃ stage pr, Course w.controller.config r.plan (.waiting stage) pr t.job
        (w.journal id ++ before ++ t.effects.map .did) := by
  have hlog := w.journal_step i id
  rw [ht.log, ← List.append_assoc] at hlog
  obtain ⟨p, stage, pr, hc⟩ := ((h.step i).stands id).course_of_job? ht.job_after
  have hconfig : (w.step i).controller.config = w.controller.config := w.controller.config_step i
  rw [hconfig, hlog] at hc
  have hp : p = r.plan := by
    rw [List.append_assoc] at hc
    exact hc.plan_eq ((h.stands id).course_of_run? ht.run ht.job).head?_eq
  exact ⟨hlog, stage, pr, hp ▸ hc⟩

theorem Sound.foldl (h : w.Sound) (inputs : List Input) : (inputs.foldl Watch.step w).Sound := by
  induction inputs generalizing w with
  | nil => exact h
  | cons i is ih => exact ih (h.step i)

theorem sound_idle (config : Config) (s : Store) : Sound ⟨.idle config s, []⟩ where
  stands _ := .unknown rfl rfl rfl
  keyed := by
    intro id r h
    cases h

theorem sound_watch (config : Config) (s : Store) (inputs : List Input) :
    ((Controller.idle config s).watch inputs).Sound :=
  (sound_idle config s).foldl inputs

theorem foldl_induction (step : ∀ w i, w.Sound → q i → P w → P (w.step i)) {inputs : List Input}
    (hi : ∀ i ∈ inputs, q i) (hs : w.Sound) (h : P w) : P (inputs.foldl Watch.step w) := by
  induction inputs generalizing w with
  | nil => exact h
  | cons i is ih =>
    rw [List.forall_mem_cons] at hi
    exact ih hi.2 (hs.step i) (step w i hs hi.1 h)

end Watch

end LiveMigration
