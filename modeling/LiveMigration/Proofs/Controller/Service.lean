import LiveMigration.Proofs.Controller.Actions
import LiveMigration.Proofs.Forwarding.Service

namespace LiveMigration

open Journal

namespace Plan

variable {config : Config} {p : Plan}

theorem paired_traffic : Op.Paired [] (p.traffic config).ops := by
  refine .pair rfl ?_
  cases p.mode with
  | sameIdentity => exact .of_neutral (by simp [Op.Neutral])
  | memberRebind =>
    cases p.member with
    | none => exact .nil
    | some slot => exact .bind List.mem_cons_self .nil

theorem paired_retireBatch : Op.Paired [] p.retireBatch.ops := .of_neutral (by simp [retireBatch, Op.Neutral])

end Plan

theorem Course.batch_of_attempted (h : Course config p P pr j l) (hb : b ∈ attempted l) :
    b = p.traffic config ∨ b = p.retireBatch := by
  induction h with
  | accepted => simp [attempt?] at hb
  | forwardRefused _ _ _ _ ih | forwarded _ _ _ _ ih =>
    simp only [attempted_append, List.mem_append] at hb
    rcases hb with hb | hb
    · exact ih hb
    · exact .inl (by simpa [attempt?] using hb)
  | retireRefused _ _ _ ih | retired _ _ _ ih =>
    simp only [attempted_append, List.mem_append] at hb
    rcases hb with hb | hb
    · exact ih hb
    · exact .inr (by simpa [attempt?] using hb)
  | _ => simp_all [attempt?]

namespace Controller

variable {c : Controller} {id : JobId}

theorem exists_effect_of_actionsOf {es : List Effect} (h : a ∈ c.actionsOf id es) :
    ∃ (r : Run) (e : Effect), e ∈ es ∧ e.action? r.lease = some a := by
  obtain ⟨r, -, h⟩ := List.mem_flatMap.1 h
  obtain ⟨e, he, ha⟩ := List.mem_filterMap.1 h
  exact ⟨r, e, he, ha⟩

end Controller

namespace Watch

variable {w : Watch} {i : Input}

inductive Causes (w : Watch) (i : Input) : Store.Action → Prop
  | asked : i = .store a → Causes w i a
  | moved : i = .reattach addr egress mac host → Causes w i (.relocate addr egress mac host)
  | cleared : Causes w i .teardownAll
  | leased : Causes w i (.lease endpoint replacement job)
  | dropped : Causes w i (.drop l)
  | forwarded {id : JobId} : ((w.step i).journal id).head? = some (.accepted p) →
      Causes w i (.write holder (p.traffic w.controller.config))
  | retired : Causes w i (.write holder (Plan.retireBatch p))

theorem causes_of_turn {id : JobId} {before : List Occurrence} {r : Controller × List Effect}
    (hw : (w.step i).Sound) (hi : w.controller.step i = Controller.noting id before r)
    (ha : a ∈ w.controller.actionsOf id r.2) : w.Causes i a := by
  obtain ⟨run, e, he, ha⟩ := Controller.exists_effect_of_actionsOf ha
  have hlog : .did e ∈ (w.step i).journal id := by
    rw [journal_step, hi, Controller.noting, Journal.of_self]
    exact List.mem_append_right _ (List.mem_append_right _ (List.mem_map_of_mem he))
  cases e with
  | write b res =>
    cases ha
    obtain ⟨p, stage, pr, j, hc⟩ : ∃ p stage pr j, Course (w.step i).controller.config p (.waiting stage) pr j
        ((w.step i).journal id) := by
      cases hw.stands id with
      | unknown _ _ hl =>
        rw [hl] at hlog
        cases hlog
      | underWay _ _ _ hl | ended _ _ _ hl => exact ⟨_, _, _, _, hl⟩
    rw [controller_step, w.controller.config_step] at hc
    rcases hc.batch_of_attempted (mem_attempted.2 ⟨res, hlog⟩) with rfl | rfl
    · exact .forwarded hc.head?_eq
    · exact .retired
  | publish =>
    cases ha
    exact .dropped
  | call | pause => cases ha

theorem causes_of_mem (hw : w.Sound) (ha : a ∈ w.controller.actions i) : w.Causes i a := by
  cases i with
  | submit now id q =>
    simp only [Controller.actions] at ha
    split at ha
    · obtain ⟨e, -, rfl⟩ := List.mem_map.1 ha
      exact .leased
    · cases ha
  | cancel => cases ha
  | reattach =>
    simp only [Controller.actions] at ha
    split at ha
    · cases List.mem_singleton.1 ha
      exact .moved rfl
    · cases ha
  | cleanup =>
    cases List.mem_singleton.1 ha
    exact .cleared
  | store a =>
    cases List.mem_singleton.1 ha
    exact .asked rfl
  | start m id => exact causes_of_turn (hw.step (.start m id)) rfl ha
  | wake id => exact causes_of_turn (hw.step (.wake id)) rfl ha
  | answer m id call o => exact causes_of_turn (hw.step (.answer m id call o)) rfl ha

theorem orderly_actions (hw : w.Sound) (hi : ∀ a, i = .store a → a.Orderly) :
    ∀ a ∈ w.controller.actions i, a.Orderly := by
  intro a ha
  cases causes_of_mem hw ha with
  | asked h => exact hi a h
  | moved | cleared | leased | dropped => trivial
  | forwarded => exact Plan.paired_traffic
  | retired => exact Plan.paired_retireBatch

theorem inService_step (hw : w.Sound) (hi : ∀ a, i = .store a → a.Orderly)
    (h : w.controller.store.tables.Intact ∧ w.controller.store.tables.InService) :
    (w.step i).controller.store.tables.Intact ∧ (w.step i).controller.store.tables.InService := by
  rw [controller_step, w.controller.store_step]
  exact Store.foldl_induction (P := fun s => s.tables.Intact ∧ s.tables.InService)
    (fun s a ha h => ⟨Store.intact_act h.1 a, h.2.act h.1 ha⟩) (orderly_actions hw hi) h

end Watch

namespace Controller

/-- A controller over the store that its configuration asks for: whatever it is asked to do, and whatever
becomes of its migrations, each member can be reached by a rule that agrees with its endpoint. So a group
serves every flow to its address as long as one of its members is active, and by an active one. -/
theorem service_maintained {config : Config} {c : Controller} {inputs : List Input} (hc : ofConfig config = .ok c)
    (hi : ∀ a, .store a ∈ inputs → a.Orderly) :
    let t := (c.watch inputs).controller.store.tables
    t.InService ∧ ∀ vip g flow, t.groups.get? vip = some g → flow.dstAddr = vip → t.Serves vip g flow := by
  intro t
  obtain ⟨s, hs, hc⟩ := Except.bind_eq_ok.1 hc
  cases hc
  have hstart : s.tables.Intact ∧ s.tables.InService := by
    refine ⟨?_, Tables.inService_of_provision hs⟩
    cases hb : config.provisionBatch with
    | error e => simp [Config.provision, hb] at hs
    | ok b => exact Tables.Intact.empty.leads (Store.leads_provision hb hs)
  have hend : t.Intact ∧ t.InService := by
    refine Watch.foldl_induction (q := fun i => ∀ a, i = .store a → a.Orderly)
      (P := fun w => w.controller.store.tables.Intact ∧ w.controller.store.tables.InService)
      (fun _ _ => Watch.inService_step) ?_ (Watch.sound_idle config s) hstart
    rintro i hm a rfl
    exact hi a hm
  exact ⟨hend.2, fun vip g flow hg hf => hend.2.serves hend.1 hg hf⟩

theorem service_maintained_through_replacement :
    let new : Identity := ⟨⟨11⟩, ⟨.replicate 6 2⟩⟩
    let config := Config.plain [⟨"a", "a", 1, "eth0", "/var"⟩, ⟨"b", "b", 2, "eth0", "/var"⟩]
      [⟨⟨10⟩, ⟨.replicate 6 1⟩, "a", "web", none, true⟩, ⟨⟨12⟩, ⟨.replicate 6 3⟩, "b", "web", none, true⟩]
    let c := idle config (config.provision.toOption.getD .empty)
    let now : Moment := ⟨0, 0, 0⟩
    let e : Endpoint := ⟨⟨⟨10⟩, ⟨.replicate 6 1⟩⟩, "a", 1, "web"⟩
    let p : Plan :=
      ⟨.ofNat 7, e, e.migrated "b" 2 (some new), .memberRebind, .afterForwarding, some (⟨1⟩, 0)⟩
    let x : Snapshot := ⟨"x", ⟨10⟩, "a", "/var/x", 5, now.wall⟩
    let inputs := .submit now.wall p.id ⟨⟨10⟩, "b", some new⟩ :: p.delivered now x ++
      .store (.write none ⟨[.setActive ⟨1⟩ 1 false]⟩) :: .reattach ⟨10⟩ 4 none (some "b") ::
      p.reattached now x ++ [.answer now p.id (.announce p.target) (.ok ())]
    let t := (c.watch inputs).controller.store.tables
    let flow := FiveTuple.tcp ⟨5⟩ 2 ⟨1⟩ 80
    ofConfig config = .ok c ∧ (∀ a, .store a ∈ inputs → a.Orderly) ∧
      ∃ g, t.groups.get? ⟨1⟩ = some g ∧ t.InService ∧ t.Serves ⟨1⟩ g flow ∧
        t.resolve? flow = some ⟨some ⟨1⟩, some 0, ⟨11⟩, 2, some new.mac⟩ := by
  intro new config c now e p x inputs t flow
  have hc : ofConfig config = .ok c := by rfl
  have hi : ∀ a, .store a ∈ inputs → a.Orderly := by
    intro a ha
    have hall : a = .write none ⟨[.setActive ⟨1⟩ 1 false]⟩ := by
      simpa [inputs, Plan.delivered, Plan.reattached] using ha
    rw [hall]
    exact .neutral trivial .nil
  obtain ⟨hservice, hflows⟩ := service_maintained hc hi
  have hgroup : (t.groups.get? ⟨1⟩).isSome = true := by decide +kernel
  obtain ⟨g, hg⟩ := Option.isSome_iff_exists.1 hgroup
  exact ⟨hc, hi, g, hg, hservice, hflows ⟨1⟩ g flow hg rfl, by decide +kernel⟩

end Controller

end LiveMigration
