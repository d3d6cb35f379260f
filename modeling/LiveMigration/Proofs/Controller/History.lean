import LiveMigration.Controller.Basic
import LiveMigration.Proofs.Forwarding.History
import LiveMigration.Proofs.Migration.Turn

/-!
# Histories of a controller

All that can happen to a controller, one input after the other, and the journals of its migrations. Each
journal follows a course.
-/

namespace LiveMigration

inductive Input
  | submit (now : Timestamp) (id : JobId) (r : MigrationRequest)
  | cancel (id : JobId)
  | reattach (addr : Addr) (egress : EgressPort) (mac : Option Mac) (host : Option HostName)
  | cleanup
  | store (a : Store.Action)
  | start (m : Moment) (id : JobId)
  | wake (id : JobId)
  | answer (m : Moment) (id : JobId) (c : Call) (o : Outcome c.Reply)

namespace Controller

def idle (config : Config) (s : Store) : Controller := ⟨config, s, .empty, []⟩

def expects (c : Controller) (id : JobId) (call : Call) (o : Outcome call.Reply) : Bool :=
  (c.run? id).any fun r => call ∈ r.awaited c.config && (call.result? c.config.migration o).isSome

def settle (c : Controller) : Except Error (Controller × α) → Controller
  | .ok (c, _) => c
  | .error _ => c

def noting (id : JobId) (before : List Occurrence) (r : Controller × List Effect) :
    Controller × List (JobId × Occurrence) :=
  (r.1, (before ++ r.2.map Occurrence.did).map (id, ·))

/-- Take an input and note what is seen of it. No two jobs get the same identifier. -/
def step (c : Controller) : Input → Controller × List (JobId × Occurrence)
  | .submit now id r =>
    if (c.job? id).isSome then (c, [])
    else
      match c.submit now id r with
      | .ok c => (c, (c.run? id).toList.map fun run => (id, .accepted run.plan))
      | .error _ => (c, [])
  | .cancel id => (c.settle (c.cancel id), [])
  | .reattach addr egress mac host => (c.settle (c.reattach addr egress mac host), [])
  | .cleanup => (c.settle c.cleanup, [])
  | .store a => ({ c with store := c.store.act a }, [])
  | .start m id => noting id [] (c.start m id)
  | .wake id => noting id [] (c.wake id)
  | .answer m id call o =>
    noting id (if c.expects id call o then [.answered call o] else []) (c.answer m id call o)

end Controller

/-- A controller with all that was noted of its migrations. -/
structure Watch where
  controller : Controller
  log : List (JobId × Occurrence)

namespace Watch

def step (w : Watch) (i : Input) : Watch :=
  ⟨(w.controller.step i).1, w.log ++ (w.controller.step i).2⟩

end Watch

def Journal.of? (id : JobId) (e : JobId × Occurrence) : Option Occurrence :=
  if e.1 = id then some e.2 else none

def Journal.of (id : JobId) (log : List (JobId × Occurrence)) : List Occurrence := log.filterMap (of? id)

def Watch.journal (w : Watch) (id : JobId) : List Occurrence := Journal.of id w.log

def Controller.watch (c : Controller) (inputs : List Input) : Watch := inputs.foldl Watch.step ⟨c, []⟩

theorem Controller.watch_append (c : Controller) (inputs more : List Input) :
    c.watch (inputs ++ more) = more.foldl Watch.step (c.watch inputs) := List.foldl_append

theorem Controller.watch_append_cons (c : Controller) (inputs : List Input) (i : Input) (more : List Input) :
    c.watch (inputs ++ i :: more) = more.foldl Watch.step ((c.watch inputs).step i) := List.foldl_append

namespace Journal

variable {id id' : JobId} {k l : List (JobId × Occurrence)}

@[simp] theorem of_nil : of id [] = [] := rfl

@[simp] theorem of_append : of id (k ++ l) = of id k ++ of id l := List.filterMap_append

@[simp] theorem of_cons (e : JobId × Occurrence) :
    of id (e :: l) = (of? id e).toList ++ of id l := by
  cases h : of? id e <;> simp [of, h]

@[simp] theorem of_self (l : List Occurrence) : of id (l.map (id, ·)) = l := by
  induction l with
  | nil => rfl
  | cons e l ih => simp [of?, ih]

theorem mem_of {e : Occurrence} : e ∈ of id l ↔ (id, e) ∈ l := by
  simp only [of, List.mem_filterMap, of?]
  constructor
  · rintro ⟨⟨id', e'⟩, hm, h⟩
    split at h
    · next hid =>
      cases hid
      cases h
      exact hm
    · cases h
  · exact fun h => ⟨_, h, if_pos rfl⟩

theorem of_other (h : id ≠ id') (l : List Occurrence) : of id' (l.map (id, ·)) = [] := by
  induction l with
  | nil => rfl
  | cons e l ih => simp [of?, h, ih]

end Journal

theorem Registry.get?_update_of_running {r : Registry} {id id' : JobId} {f : Job → Job}
    (hj : r.get? id = some j)
    (ht : j.isTerminal = false) (hf : ∀ j, j.id = id → (f j).id = id) :
    (r.update id f).get? id' = if id' = id then some (f j) else r.get? id' := by
  rw [Registry.get?_update _ _ _ hf]
  split
  · rename_i h
    subst h
    have : j.id = id' := by simpa using List.find?_some hj
    simp [hj, this, ht]
  · rename_i h
    cases hk : r.get? id' with
    | none => rfl
    | some k =>
      have : k.id = id' := by simpa using List.find?_some hk
      simp [this, h]

namespace Controller

variable {c c' : Controller} {id id' : JobId}

theorem plan_id_of_run? (h : c.run? id = some r) : r.plan.id = id := by
  simpa using List.find?_some h

theorem expects_of_present {o : Outcome call.Reply} (h : c.run? id = some r) :
    c.expects id call o ↔
      call ∈ r.awaited c.config ∧ ∃ x, call.result? c.config.migration o = some x := by
  simp [expects, h, Option.isSome_iff_exists]

def accept (c : Controller) (s : Store) (j : Job) (p : Plan) (lease : Lease) : Controller :=
  { c with store := s, registry := c.registry.insert j, runs := c.runs ++ [.new p lease] }

theorem submit_eq_ok (h : c.submit now id r = .ok c') :
    ∃ e host s lease p, c.store.tables.endpoints.get? r.source = some e ∧
      c.config.inventory.get r.targetHost = .ok host ∧ c.checkRequest e r = .ok () ∧
      c.store.lease e.addr (r.newIdentity.map Identity.addr) id = .ok (s, lease) ∧
      p = {
        id, source := e, mode := .ofIdentity r.newIdentity
        policy := c.config.migration.teardownPolicy.resolve (.ofIdentity r.newIdentity)
        target := e.migrated r.targetHost host.egress r.newIdentity
        member := c.store.tables.memberOf? r.source } ∧
      c' = c.accept s (.new id e r.targetHost r.newIdentity c.config.migration.teardownPolicy now) p
        lease := by
  simp only [submit] at h
  split at h
  · cases h
  · rename_i e he
    split at h
    · cases h
    · rename_i host hh
      obtain ⟨_, hc, h⟩ := Except.bind_eq_ok.1 h
      obtain ⟨⟨s, lease⟩, hl, h⟩ := Except.bind_eq_ok.1 h
      cases h
      exact ⟨e, host, s, lease, _, he, hh, hc, hl, rfl, rfl⟩

theorem submit_of_accepted {i : Input} (h : (id, .accepted p) ∈ (c.step i).2) :
    ∃ now q c' run, i = .submit now id q ∧ c.job? id = none ∧ c.submit now id q = .ok c' ∧
      c'.run? id = some run ∧ run.plan = p := by
  cases i with
  | submit now id' q =>
    simp only [step] at h
    split at h
    · cases h
    · next hj =>
      split at h
      · next c' hq =>
        obtain ⟨run, hr, he⟩ := List.mem_map.1 h
        cases he
        exact ⟨now, q, c', run, rfl, by simpa using hj, hq, Option.mem_toList.1 hr, rfl⟩
      · cases h
  | cancel | reattach | cleanup | store => cases h
  | start m id' | wake id' => simp [step, noting] at h
  | answer m id' call o =>
    simp only [step, noting] at h
    split at h
    · simp at h
    · simp at h

theorem run?_accept (hr : c.run? id = none) (hp : p.id = id) :
    (c.accept s j p lease).run? id' = if id' = id then some (.new p lease) else c.run? id' := by
  simp only [accept, run?, List.find?_append]
  split
  · rename_i h
    subst h
    rw [show c.runs.find? (·.plan.id = id') = none from hr]
    simp [Run.new, hp]
  · rename_i h
    have : p.id ≠ id' := by rw [hp]; exact Ne.symm h
    simp [Run.new, this]

theorem job?_accept (hj : j.id = id) :
    (c.accept s j p lease).job? id' = if id' = id then some j else c.job? id' := by
  simp only [job?, accept, Registry.get?_insert, hj, eq_comm (b := id')]

theorem target_ne_source {e : Endpoint} {q : MigrationRequest} (h : c.checkRequest e q = .ok ()) :
    e ≠ e.migrated q.targetHost egress q.newIdentity := by
  intro he
  cases hq : q.newIdentity with
  | none =>
    have hh : e.host = q.targetHost := by
      simpa [hq, Endpoint.migrated, Endpoint.relocated] using congrArg Endpoint.host he
    simp [checkRequest, hq, hh] at h
  | some new =>
    have ha : e.addr = new.addr := by
      simpa [hq, Endpoint.migrated, Endpoint.addr] using congrArg Endpoint.addr he
    simp [checkRequest, hq, ha] at h

theorem cancel_eq_ok (h : c.cancel id = .ok r) : r.1 = c ∨
    ∃ j, c.job? id = some j ∧ j.isTerminal = false ∧ j.isCancellable = true ∧
      r.1 = { c with registry := c.registry.update id fun j => { j with cancelRequested := true } } := by
  simp only [cancel] at h
  split at h
  · cases h
  rename_i j hj
  split at h
  · cases h
    exact .inl rfl
  split at h
  · cases h
  rename_i ht
  split at h
  · rename_i hc
    cases h
    exact .inr ⟨j, hj, eq_false_of_ne_true ht, hc, rfl⟩
  · cases h

theorem settle_onStore (c : Controller) (f : Store → Except Error (Store × α)) :
    ∃ s, c.settle (c.onStore f) = { c with store := s } := by
  simp only [onStore]
  cases f c.store with
  | error e => exact ⟨c.store, rfl⟩
  | ok r => exact ⟨r.1, rfl⟩

theorem settle_reattach (c : Controller) (addr : Addr) (egress : EgressPort) (mac : Option Mac)
    (host : Option HostName) :
    ∃ s, c.settle (c.reattach addr egress mac host) = { c with store := s } := by
  simp only [reattach]
  split
  · exact ⟨c.store, rfl⟩
  · exact c.settle_onStore _

theorem turn_of_absent (h : c.run? id = none) : c.turn id f = (c, []) := by
  simp only [turn, h]

theorem config_turn (c : Controller) (id : JobId) (f : Turn → Turn) :
    (c.turn id f).1.config = c.config := by
  simp only [turn]
  split <;> rfl

section

variable {r : Run} {j : Job} {f : Turn → Turn} {t : Turn}

theorem effects_turn (hr : c.run? id = some r) (hj : c.job? id = some j)
    (ht : f ⟨c.store, j, r, []⟩ = t) : (c.turn id f).2 = t.effects := by
  simp only [turn, hr, hj, ht]

theorem job?_turn (hr : c.run? id = some r) (hj : c.job? id = some j) (hs : j.status = .running)
    (ht : f ⟨c.store, j, r, []⟩ = t) (hid : t.job.id = id) :
    (c.turn id f).1.job? id' = if id' = id then some t.job else c.job? id' := by
  have hu : (c.turn id f).1.job? id' = (c.registry.update id fun _ => t.job).get? id' := by
    simp only [turn, hr, hj, ht]
    rfl
  rw [hu]
  exact Registry.get?_update_of_running hj (by simp [Job.isTerminal, hs]) fun _ _ => hid

theorem run?_turn (hr : c.run? id = some r) (hj : c.job? id = some j)
    (ht : f ⟨c.store, j, r, []⟩ = t) (hp : t.run.plan.id = id) (hf : t.run.stage ≠ .finished) :
    (c.turn id f).1.run? id' = if id' = id then some t.run else c.run? id' := by
  have hu : (c.turn id f).1.runs = c.runs.map fun r => if r.plan.id = id then t.run else r := by
    simp only [turn, hr, hj, ht]
  have hk : ∀ r : Run, (if r.plan.id = id then t.run else r).plan.id = r.plan.id := by
    intro r
    split
    · rename_i h
      rw [hp, h]
    · rfl
  simp only [run?, hu, List.find?_map, Function.comp_def, hk]
  split
  · rename_i h
    subst h
    rw [show c.runs.find? (·.plan.id = id') = some r from hr]
    simp [plan_id_of_run? hr]
  · rename_i h
    cases hs : c.runs.find? (·.plan.id = id') with
    | none => rfl
    | some s => simp [plan_id_of_run? hs, h]

theorem run?_turn_of_finished (hr : c.run? id = some r) (hj : c.job? id = some j)
    (ht : f ⟨c.store, j, r, []⟩ = t) (hf : t.run.stage = .finished) :
    (c.turn id f).1.run? id' = if id' = id then none else c.run? id' := by
  have hu : (c.turn id f).1.runs = c.runs.filter (·.plan.id ≠ id) := by
    simp only [turn, hr, hj, ht, hf]
  simp only [run?, hu, List.find?_filter]
  split
  · rename_i h
    simp [h]
  · rename_i h
    congr 1
    funext r
    by_cases hr : r.plan.id = id'
    · simp [hr, h]
    · simp [hr]

theorem run?_turn_of_ne (hr : c.run? id = some r) (hj : c.job? id = some j)
    (ht : f ⟨c.store, j, r, []⟩ = t) (hp : t.run.plan.id = id) (h : id' ≠ id) :
    (c.turn id f).1.run? id' = c.run? id' := by
  by_cases hf : t.run.stage = .finished
  · rw [run?_turn_of_finished hr hj ht hf, if_neg h]
  · rw [run?_turn hr hj ht hp hf, if_neg h]

end

inductive Stands (c : Controller) (id : JobId) (l : List Occurrence) : Prop
  | unknown : c.job? id = none → c.run? id = none → l = [] → c.Stands id l
  | underWay : c.run? id = some r → c.job? id = some j → r.stage ≠ .finished →
      Course c.config r.plan (.waiting r.stage) r.progress j l → c.Stands id l
  | ended : c.run? id = none → c.job? id = some j → p.id = id →
      Course c.config p (.waiting .finished) pr j l → c.Stands id l

theorem Stands.congr (h : c.Stands id l) (hc : c'.config = c.config) (hj : c'.job? id = c.job? id)
    (hr : c'.run? id = c.run? id) : c'.Stands id l := by
  cases h with
  | unknown h k hl => exact .unknown (hj.trans h) (hr.trans k) hl
  | underWay h k hf hl => exact .underWay (hr.trans h) (hj.trans k) hf (hc ▸ hl)
  | ended h k hp hl => exact .ended (hr.trans h) (hj.trans k) hp (hc ▸ hl)

section

variable {f : Turn → Turn} {log : List (JobId × Occurrence)}
  (hs : ∀ id, c.Stands id (Journal.of id log))

include hs

theorem stands_of_unchanged (hc : c'.config = c.config) (hj : ∀ id, c'.job? id = c.job? id)
    (hr : ∀ id, c'.run? id = c.run? id) (id : JobId) : c'.Stands id (Journal.of id (log ++ [])) := by
  rw [List.append_nil]
  exact (hs id).congr hc (hj id) (hr id)

theorem stands_turn {before : List Occurrence} (hb : c.run? id = none → before = [])
    (hf : ∀ r j, c.run? id = some r → c.job? id = some j →
      Course c.config r.plan (.waiting r.stage) r.progress j (Journal.of id log) →
      (f ⟨c.store, j, r, []⟩).Rests c.config r.plan (Journal.of id log ++ before)) (id' : JobId) :
    (noting id before (c.turn id f)).1.Stands id'
      (Journal.of id' (log ++ (noting id before (c.turn id f)).2)) := by
  have absent : c.run? id = none → (noting id before (c.turn id f)).1.Stands id'
      (Journal.of id' (log ++ (noting id before (c.turn id f)).2)) := by
    intro hr
    simp only [noting, turn_of_absent hr, hb hr]
    exact stands_of_unchanged hs rfl (fun _ => rfl) (fun _ => rfl) id'
  cases hs id with
  | unknown _ hr => exact absent hr
  | ended hr => exact absent hr
  | @underWay r j hr hj hn hc =>
    obtain ⟨hp, ht⟩ := hf r j hr hj hc
    have hid := plan_id_of_run? hr
    generalize hg : f ⟨c.store, j, r, []⟩ = t at hp ht
    rw [← hp] at hid
    have hjob := @job?_turn _ _ id' _ _ _ _ hr hj (hc.running (by simpa using hn)) hg
      (by rw [ht.job_id, ← hp, hid])
    simp only [noting, effects_turn hr hj hg, Journal.of_append]
    by_cases h : id' = id
    · subst h
      rw [if_pos rfl] at hjob
      rw [Journal.of_self, ← List.append_assoc]
      rw [← c.config_turn id' f, ← hp] at ht
      by_cases hfin : t.run.stage = .finished
      · rw [hfin] at ht
        exact .ended (by rw [run?_turn_of_finished hr hj hg hfin, if_pos rfl]) hjob hid ht
      · exact .underWay (by rw [run?_turn hr hj hg hid hfin, if_pos rfl]) hjob hfin ht
    · rw [if_neg h] at hjob
      rw [Journal.of_other (Ne.symm h), List.append_nil]
      exact (hs id').congr (c.config_turn id f) hjob (run?_turn_of_ne hr hj hg hid h)

theorem stands_accept {p : Plan} {j : Job} (hr : c.run? id = none) (hl : Journal.of id log = [])
    (hp : p.id = id) (hj : j.id = id) (ho : p.Opens j) (id' : JobId) :
    (c.accept s j p lease).Stands id' (Journal.of id' (log ++ [(id, .accepted p)])) := by
  have hrun : (c.accept s j p lease).run? id' = _ := run?_accept hr hp
  have hjob : (c.accept s j p lease).job? id' = _ := job?_accept hj
  rw [Journal.of_append]
  by_cases h : id' = id
  · subst h
    rw [if_pos rfl] at hrun hjob
    refine .underWay hrun hjob (by simp [Run.new]) ?_
    rw [hl]
    simpa [Journal.of?, Run.new] using Course.accepted ho
  · rw [if_neg h] at hrun hjob
    have hn : Journal.of id' [(id, .accepted p)] = [] := Journal.of_other (Ne.symm h) [.accepted p]
    rw [hn, List.append_nil]
    exact (hs id').congr rfl hjob hrun

theorem stands_submit (id' : JobId) : (c.step (.submit now id q)).1.Stands id'
    (Journal.of id' (log ++ (c.step (.submit now id q)).2)) := by
  have unchanged := stands_of_unchanged hs rfl (fun _ => rfl) (fun _ => rfl) id'
  simp only [step]
  split
  · exact unchanged
  rename_i hj
  rw [Bool.not_eq_true, Option.isSome_eq_false_iff, Option.isNone_iff_eq_none] at hj
  cases hq : c.submit now id q with
  | error e => exact unchanged
  | ok c' =>
    obtain ⟨hr, hl⟩ : c.run? id = none ∧ Journal.of id log = [] := by
      cases hs id with
      | unknown _ hr hl => exact ⟨hr, hl⟩
      | underWay _ hk => simp [hj] at hk
      | ended _ hk => simp [hj] at hk
    obtain ⟨e, host, s, lease, p, -, -, hc, -, hp, rfl⟩ := submit_eq_ok hq
    simp only [run?_accept (p := p) hr (by rw [hp]), if_pos, Option.toList_some, List.map_cons,
      List.map_nil]
    refine stands_accept hs hr hl (by rw [hp]) rfl ?_ id'
    subst hp
    exact ⟨⟨_, _, _, _, rfl⟩, rfl, rfl, target_ne_source hc⟩

theorem stands_cancel (id' : JobId) : (c.step (.cancel id)).1.Stands id'
    (Journal.of id' (log ++ (c.step (.cancel id)).2)) := by
  simp only [step]
  cases hq : c.cancel id with
  | error e => exact stands_of_unchanged hs rfl (fun _ => rfl) (fun _ => rfl) id'
  | ok r =>
    obtain hr | ⟨j, hj, ht, hc, hr⟩ := cancel_eq_ok hq
    · simp only [settle, hr]
      exact stands_of_unchanged hs rfl (fun _ => rfl) (fun _ => rfl) id'
    · have hjob : (c.registry.update id fun j => { j with cancelRequested := true }).get? id' = _ :=
        Registry.get?_update_of_running hj ht fun _ h => h
      simp only [settle, hr]
      rw [List.append_nil]
      by_cases h : id' = id
      · subst h
        rw [if_pos rfl] at hjob
        cases hs id' with
        | unknown hk => cases hj.symm.trans hk
        | underWay hk hi hf hl =>
          cases hj.symm.trans hi
          exact .underWay hk hjob hf (hl.cancel hc)
        | ended hk hi hp hl =>
          cases hj.symm.trans hi
          exact .ended hk hjob hp (hl.cancel hc)
      · rw [if_neg h] at hjob
        exact (hs id').congr rfl hjob rfl

theorem stands_of_settle (h : ∃ s, c' = { c with store := s }) (id : JobId) :
    c'.Stands id (Journal.of id (log ++ [])) := by
  obtain ⟨s, rfl⟩ := h
  apply stands_of_unchanged hs
  · rfl
  · exact fun _ => rfl
  · exact fun _ => rfl

theorem stands_step (i : Input) (id' : JobId) :
    (c.step i).1.Stands id' (Journal.of id' (log ++ (c.step i).2)) := by
  cases i with
  | submit now id q => exact stands_submit hs id'
  | cancel id => exact stands_cancel hs id'
  | reattach addr egress mac host =>
    exact stands_of_settle hs (c.settle_reattach addr egress mac host) id'
  | cleanup => exact stands_of_settle hs (c.settle_onStore _) id'
  | store a => exact stands_of_settle hs ⟨_, rfl⟩ id'
  | start m id =>
    refine stands_turn hs (fun _ => rfl) (fun r j _ _ hc => ?_) id'
    rw [List.append_nil]
    exact Turn.rests_start rfl rfl hc
  | wake id =>
    refine stands_turn hs (fun _ => rfl) (fun r j _ _ hc => ?_) id'
    rw [List.append_nil]
    exact Turn.rests_wake rfl rfl hc
  | answer m id call o =>
    refine stands_turn hs (fun hr => ?_) (fun r j hr _ hc => ?_) id'
    · simp [expects, hr]
    · split
      · rename_i he
        obtain ⟨hm, r, ho⟩ := (expects_of_present hr).1 he
        exact Turn.rests_answer rfl rfl hc hm ho
      · rename_i he
        rw [List.append_nil, Turn.answer_of_unexpected (mt (expects_of_present hr).2 he)]
        exact Turn.at_of_course rfl rfl hc

end

theorem config_step (c : Controller) (i : Input) : (c.step i).1.config = c.config := by
  cases i with
  | submit now id q =>
    simp only [step]
    split
    · rfl
    · cases hq : c.submit now id q with
      | error e => rfl
      | ok c' =>
        obtain ⟨e, host, s, lease, p, -, -, -, -, -, rfl⟩ := submit_eq_ok hq
        rfl
  | cancel id =>
    simp only [step]
    cases hq : c.cancel id with
    | error e => rfl
    | ok r =>
      obtain hr | ⟨j, -, -, -, hr⟩ := cancel_eq_ok hq
      · simp only [settle, hr]
      · simp only [settle, hr]
  | reattach addr egress mac host =>
    obtain ⟨s, hs⟩ := c.settle_reattach addr egress mac host
    simp only [step, hs]
  | cleanup =>
    obtain ⟨s, hs⟩ := c.settle_onStore Store.teardownAll
    simp only [step, cleanup, hs]
  | store a => rfl
  | start m id => exact config_turn ..
  | wake id => exact config_turn ..
  | answer m id call o => exact config_turn ..

end Controller

namespace Watch

variable {w : Watch}

theorem config_foldl (inputs : List Input) :
    (inputs.foldl step w).controller.config = w.controller.config := by
  induction inputs generalizing w with
  | nil => rfl
  | cons i is ih => exact ih.trans (w.controller.config_step i)

theorem stands_foldl (h : ∀ id, w.controller.Stands id (w.journal id)) (inputs : List Input)
    (id : JobId) :
    (inputs.foldl step w).controller.Stands id ((inputs.foldl step w).journal id) := by
  induction inputs generalizing w with
  | nil => exact h id
  | cons i is ih => exact ih (Controller.stands_step h i)

end Watch

theorem Controller.course_watch (config : Config) (s : Store) (inputs : List Input) (id : JobId) :
    ((idle config s).watch inputs).journal id = [] ∨
      ∃ p stage pr j, p.id = id ∧ ((idle config s).watch inputs).controller.job? id = some j ∧
        Course config p (.waiting stage) pr j (((idle config s).watch inputs).journal id) := by
  have hc : ((idle config s).watch inputs).controller.config = config := Watch.config_foldl inputs
  have hs : ((idle config s).watch inputs).controller.Stands id
      (((idle config s).watch inputs).journal id) :=
    Watch.stands_foldl (fun _ => .unknown rfl rfl rfl) inputs id
  cases hs with
  | unknown _ _ hl => exact .inl hl
  | underWay hr hj _ hl => exact .inr ⟨_, _, _, _, plan_id_of_run? hr, hj, hc ▸ hl⟩
  | ended _ hj hp hl => exact .inr ⟨_, _, _, _, hp, hj, hc ▸ hl⟩

def Config.plain (hosts : List Host) (nodes : List Node) : Config where
  listenAddr := .v4 ⟨1⟩ 80
  vip := ⟨1⟩
  servicePort := 80
  slots := none
  suppressNat := true
  hosts := hosts
  nodes := nodes
  peers := []
  migration := .default
  telemetry := .default
  logDir := ""

def Plan.delivered (p : Plan) (now : Moment) (x : Snapshot) : List Input := [
  .start now p.id,
  .answer now p.id (.quiesce p.source) (.ok ()),
  .answer now p.id (.probe p.source) (.ok 0),
  .answer now p.id (.capture p.source p.snapshotId) (.ok x),
  .answer now p.id (.prepare p.target.host none) (.ok ()),
  .answer now p.id (.transfer x p.target.host) (.ok x),
  .answer now p.id (.measure x) (.ok x.size)]

def Plan.reattached (p : Plan) (now : Moment) (x : Snapshot) : List Input := [
  .answer now p.id (.restore x p.target p.restoreOptions) (.ok ()),
  .answer now p.id (.reattach p.target []) (.ok ())]

end LiveMigration
