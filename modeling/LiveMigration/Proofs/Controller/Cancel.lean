import LiveMigration.Proofs.Controller.Conclusion

namespace LiveMigration

open Journal

namespace Journal

/-- What becomes of a migration that was cancelled after `l`, as far as `l ++ m`. -/
structure Retreats (config : Config) (p : Plan) (awaited : List Call) (l m : List Occurrence) (j : Job) :
    Prop where
  no_restore : ∀ d e o, .restore d e o ∉ calls m
  no_removal : .teardown p.source ∉ calls m
  no_write : attempted m = []
  under_way : ∀ c o, .answered c o ∈ m → p.isVital c = true → c ∈ awaited
  unsuccessful : j.status ≠ .succeeded
  failed : j.isTerminal = true → Broken config p (l ++ m) → j.status = .failed
  cancelled : j.isTerminal = true → ¬ Broken config p (l ++ m) → j.status = .cancelled

/-- Whether a restore or the removal of an endpoint has begun. -/
def Committed (e : Endpoint) (l : List Occurrence) : Prop :=
  (∃ d e o, .restore d e o ∈ calls l) ∨ .teardown e ∈ calls l

end Journal

theorem Plan.late_of_vital {p : Plan} (hv : p.isVital c = true) (ho : p.opens c = false) :
    p.isLate (.did (.call c)) = true := by
  cases c with
  | announce => rfl
  | detach e => exact hv
  | teardown e => exact hv
  | _ => simp_all [isVital, opens]

namespace Course

variable {config : Config} {p : Plan} {l m : List Occurrence}

theorem not_isCancellable (h : Course config p P pr j l) (hl : Committed p.source l) :
    j.isCancellable = false := by
  have hlate : l.any p.isLate = true := by
    rw [List.any_eq_true]
    rcases hl with ⟨d, e, o, hc⟩ | hc
    · exact ⟨_, mem_calls.1 hc, rfl⟩
    · exact ⟨_, mem_calls.1 hc, by simp [Plan.isLate, h.moves]⟩
  cases hs : j.isTerminal with
  | true => simp [Job.isCancellable, hs]
  | false =>
    have hp := h.phase_isCommitted (by simpa [Job.isTerminal] using hs) (h.committed_of_late (.inr hlate))
    simp [Job.isCancellable, hp]

/-- As long as no phase is entered, a cancelled migration only waits for what was under way before. -/
theorem retreats (h : Course config p P pr j l) (h' : Course config p P' pr' j' (l ++ m))
    (hj : j'.cancelRequested = true) (hm : ∀ c ∈ calls m, p.opens c = false) :
    Retreats config p (P.awaited config p) l m j' := by
  have hcall : ∀ c ∈ calls m, p.isLate (.did (.call c)) = false := fun c hc =>
    h'.not_late_of_cancelRequested hj (List.mem_append_right l (mem_calls.1 hc))
  have hwrite := h'.attempted_of_cancelRequested hj
  have hsucceeded : j'.status ≠ .succeeded := by
    intro hs
    cases (h'.uncommitted_of_cancelRequested hj).symm.trans (h'.committed_of_succeeded hs)
  have hbroken : j'.isTerminal = true → (Broken config p (l ++ m) ↔ j'.status = .failed) := by
    intro ht
    have hb := h'.broken_iff hwrite
    rw [h'.finished_of_terminal ht] at hb
    exact hb
  refine ⟨?_, ?_, ?_, ?_, hsucceeded, fun ht => (hbroken ht).1, ?_⟩
  · intro d e o hc
    cases hcall _ hc
  · intro hc
    have := hcall _ hc
    simp [Plan.isLate, h'.moves] at this
  · rw [attempted_append, List.append_eq_nil_iff] at hwrite
    exact hwrite.2
  · intro c o ho hv
    -- An answer is to a call that was under way, as no such call was made since.
    have hn : c ∉ calls m := by
      intro hc
      cases (Plan.late_of_vital hv (hm c hc)).symm.trans (hcall c hc)
    have hl := h.count_calls_eq c
    have hlm := h'.count_calls_eq c
    have ha := List.count_pos_iff.2 (mem_answers ho)
    rw [calls_append, answers_append, List.count_append, List.count_append,
      List.count_eq_zero.2 hn] at hlm
    exact List.count_pos_iff.1 (by omega)
  · intro ht hb
    rw [hbroken ht] at hb
    cases hs : j'.status with
    | cancelled => rfl
    | failed => exact absurd hs hb
    | succeeded => exact absurd hs hsucceeded
    | running => simp [Job.isTerminal, hs] at ht

end Course

namespace Controller

variable {c : Controller} {id : JobId}

theorem isOk_cancel (hj : c.job? id = some j) (hs : j.status = .running) :
    (c.cancel id).isOk = j.isCancellable := by
  simp only [cancel, hj, hs, reduceCtorEq, if_false]
  rw [if_neg (by simp [Job.isTerminal, hs])]
  cases hc : j.isCancellable with
  | true => simp [Except.isOk, Except.toBool]
  | false => simp [Except.isOk, Except.toBool]

theorem step_cancel_of_error (h : c.cancel id = .error e) : c.step (.cancel id) = (c, []) := by
  simp only [step, h, settle]

theorem job?_cancel (hj : c.job? id = some j) (hc : j.isCancellable = true) :
    (c.step (.cancel id)).1.job? id = some { j with cancelRequested := true } := by
  have ht : j.isTerminal = false := by
    simp only [Job.isCancellable, Bool.and_eq_true, Bool.not_eq_true'] at hc
    exact hc.1.1
  have hs : j.status ≠ .cancelled := by
    intro hs
    simp [Job.isTerminal, hs] at ht
  have hu : (c.registry.update id fun j => { j with cancelRequested := true }).get? id = _ :=
    Registry.get?_update_of_running hj ht fun _ h => h
  rw [if_pos rfl] at hu
  simp only [step, cancel, hj, hs, ht, hc, if_false, if_true, Bool.false_eq_true, settle]
  exact hu

end Controller

namespace Watch

variable {config : Config} {w : Watch} {id : JobId} {p : Plan} {l : List Occurrence}

def Stops (w : Watch) (id : JobId) (p : Plan) (l : List Occurrence) : Prop :=
  ∃ m j, w.journal id = l ++ m ∧ w.controller.job? id = some j ∧ j.cancelRequested = true ∧
    ∀ c ∈ calls m, p.opens c = false

theorem stops_step {i : Input} (hw : w.Sound) (hl : l.head? = some (.accepted p))
    (h : w.Stops id p l) : (w.step i).Stops id p l := by
  obtain ⟨m, j, hlog, hj, hc, hm⟩ := h
  cases hw.fate i id with
  | spared hj' _ hnil =>
    refine ⟨m, j, ?_, hj'.trans hj, hc, hm⟩
    rw [journal_step, hnil, List.append_nil, hlog]
  | accepted hn => cases hj.symm.trans hn
  | cancelled _ hi _ hj' _ hnil =>
    refine ⟨m, _, ?_, hj', rfl, hm⟩
    rw [journal_step, hnil, Journal.of_nil, List.append_nil, hlog]
  | @turned _ r before t ht =>
    cases hj.symm.trans ht.job
    have hcourse := (hw.stands id).course_of_run? ht.run hj
    rw [hlog] at hcourse
    have hp := hcourse.plan_eq hl
    refine ⟨m ++ (before ++ t.effects.map .did), t.job, ?_, ht.job_after,
      ht.yields.job.cancelRequested.trans hc, ?_⟩
    · rw [journal_step, ht.log, hlog, List.append_assoc]
    · intro c hm'
      rw [mem_calls, List.mem_append, List.mem_append] at hm'
      rcases hm' with hm' | hm' | hm'
      · exact hm c (mem_calls.2 hm')
      · exact absurd hm' (ht.before_idle _)
      · obtain ⟨e, he, heq⟩ := List.mem_map.1 hm'
        cases heq
        exact hp ▸ ht.yields.of_start.2 hc c he

theorem stops_of_cancel (hw : w.Sound) (hl : (w.journal id).head? = some (.accepted p))
    (hj : w.controller.job? id = some j) (hc : j.isCancellable = true) (after : List Input) :
    (after.foldl step (w.step (.cancel id))).Stops id p (w.journal id) := by
  have hstop : (w.step (.cancel id)).Stops id p (w.journal id) :=
    ⟨[], _, w.journal_step (.cancel id) id, Controller.job?_cancel hj hc, rfl, List.forall_mem_nil _⟩
  exact foldl_induction (q := fun _ => True) (fun _ _ hw _ => stops_step hw hl) (fun _ _ => trivial)
    (hw.step _) hstop

theorem Stops.retreats (h : w.Stops id p l) (hw : w.Sound)
    (hl : Course w.controller.config p P pr i l) :
    ∃ m j, w.journal id = l ++ m ∧ w.controller.job? id = some j ∧
      Retreats w.controller.config p (P.awaited w.controller.config p) l m j := by
  obtain ⟨m, j, hlog, hj, hflag, hm⟩ := h
  obtain ⟨p', stage, pr', hc⟩ := (hw.stands id).course_of_job? hj
  rw [hlog] at hc
  rw [hc.plan_eq hl.head?_eq] at hc
  exact ⟨m, j, hlog, hj, hl.retreats hc hflag hm⟩

theorem cancel_refused (hw : w.Sound) (hj : w.controller.job? id = some j) (hs : j.status = .running)
    (hl : Committed j.source (w.journal id)) : ∃ e, w.controller.cancel id = .error e := by
  obtain ⟨p, stage, pr, h⟩ := (hw.stands id).course_of_job? hj
  rw [h.job_source] at hl
  have hok := Controller.isOk_cancel hj hs
  rw [h.not_isCancellable hl] at hok
  cases hc : w.controller.cancel id with
  | error e => exact ⟨e, rfl⟩
  | ok a =>
    rw [hc] at hok
    cases hok

end Watch

namespace Controller

/-- A job whose cancellation is accepted while it runs starts no replica, does not remove its source and
writes nothing from then on, and it ends as cancelled unless a call failed that was under way or had ended
by then. However its calls are answered, it can be brought to its end. Once it has begun to start a replica or to
remove the source, its cancellation is refused; what is refused changes nothing. -/
theorem cancellation_safe (config : Config) (s : Store) (before : List Input) (id : JobId) :
    let w := (idle config s).watch before
    (∀ e, w.controller.cancel id = .error e → (w.controller.step (.cancel id)).1 = w.controller) ∧
    ∀ j, w.controller.job? id = some j → j.status = .running →
      (Committed j.source (w.journal id) → ∃ e, w.controller.cancel id = .error e) ∧
      ∀ answer, w.controller.cancel id = .ok answer → ∃ r, w.controller.run? id = some r ∧ ∀ after,
        let run := fun inputs => (idle config s).watch (before ++ .cancel id :: inputs)
        (∃ m j', (run after).journal id = w.journal id ++ m ∧ (run after).controller.job? id = some j' ∧
          Retreats config r.plan (r.awaited config) (w.journal id) m j') ∧
        ∀ reply : (c : Call) → Outcome c.Reply,
          (∀ c : Call, (c.result? config.migration (reply c)).isSome = true) →
          ∃ more j', (∀ i ∈ more, i.Answers id reply) ∧
            (run (after ++ more)).controller.job? id = some j' ∧ j'.isTerminal = true := by
  intro w
  have hw : w.Sound := Watch.sound_watch config s before
  have hconfig : ∀ inputs, ((idle config s).watch inputs).controller.config = config :=
    Watch.config_foldl
  refine ⟨fun e he => by rw [step_cancel_of_error he], fun j hj hs => ⟨Watch.cancel_refused hw hj hs, ?_⟩⟩
  intro answer ha
  have hc : j.isCancellable = true := by
    rw [← isOk_cancel hj hs, ha]
    rfl
  obtain ⟨r, hr⟩ := ((hw.stands id).running_iff hj).1 hs
  have h := (hw.stands id).course_of_run? hr hj
  refine ⟨r, hr, fun after => ?_⟩
  intro run
  have hrun : ∀ inputs, run inputs = inputs.foldl Watch.step (w.step (.cancel id)) := fun _ => watch_append_cons ..
  have hsound : ∀ inputs, (run inputs).Sound := fun _ => Watch.sound_watch ..
  -- This is for all inputs from here on, since those that bring the job to its end come after the others.
  have hretreat : ∀ inputs, ∃ m j', (run inputs).journal id = w.journal id ++ m ∧
      (run inputs).controller.job? id = some j' ∧
      Retreats config r.plan (r.awaited config) (w.journal id) m j' := by
    intro inputs
    have hstop : (run inputs).Stops id r.plan (w.journal id) :=
      hrun inputs ▸ Watch.stops_of_cancel hw h.head?_eq hj hc inputs
    have hcourse : Course (run inputs).controller.config r.plan (.waiting r.stage) r.progress j (w.journal id) := by
      rw [hconfig, ← hconfig before]
      exact h
    have hretreats := hstop.retreats (hsound inputs) hcourse
    rw [hconfig] at hretreats
    exact hretreats
  refine ⟨hretreat after, fun reply hreply => ?_⟩
  obtain ⟨more, hmore, hnone⟩ := Watch.exists_answered_end id hreply (hsound after) (hconfig _)
  have happend : more.foldl Watch.step (run after) = run (after ++ more) := by
    rw [hrun, hrun, List.foldl_append]
  rw [happend] at hnone
  obtain ⟨m, j', -, hj', -⟩ := hretreat (after ++ more)
  refine ⟨more, j', hmore, hj', ?_⟩
  have hended : ¬ j'.status = .running := mt (((hsound _).stands id).running_iff hj').1 (by simp [hnone])
  simpa [Job.isTerminal] using hended

theorem cancellation_safe_during_transfer :
    let e : Endpoint := ⟨⟨⟨10⟩, ⟨.replicate 6 1⟩⟩, "a", 1, "web"⟩
    let s := Store.empty.act (.write none ⟨[.putEndpoint e]⟩)
    let config := Config.plain [⟨"a", "a", 1, "eth0", "/var"⟩, ⟨"b", "b", 2, "eth0", "/var"⟩] []
    let now : Moment := ⟨0, 0, 0⟩
    let id := JobId.ofNat 7
    let x : Snapshot := ⟨"x", ⟨10⟩, "a", "/var/x", 5, now.wall⟩
    let before : List Input := [.submit now.wall id ⟨⟨10⟩, "b", none⟩, .start now id,
      .answer now id (.quiesce e) (.ok ()), .answer now id (.probe e) (.ok 0),
      .answer now id (.capture e ("ferry-" ++ id.text)) (.ok x), .answer now id (.prepare "b" none) (.ok ())]
    let after := fun o : Outcome Snapshot => [Input.answer now id (.transfer x "b") o,
      .answer now id (.resume e) (.ok ()), .answer now id (.discard x) (.ok ())]
    let w := (idle config s).watch before
    let ends := fun o status => ∃ j, ((idle config s).watch (before ++ .cancel id :: after o)).controller.job? id =
      some j ∧ j.isTerminal = true ∧ j.status = status
    (∃ j answer, w.controller.job? id = some j ∧ j.status = .running ∧ w.controller.cancel id = .ok answer) ∧
      ends (.ok x) .cancelled ∧ ends .expired .failed := by
  intro e s config now id x before after w ends
  obtain ⟨j, hj⟩ : ∃ j, w.controller.job? id = some j := Option.isSome_iff_exists.1 (by decide)
  have hs : j.status = .running := by
    have hstatus : (w.controller.job? id).map (·.status) = some .running := by decide
    rw [hj] at hstatus
    exact Option.some.inj hstatus
  obtain ⟨answer, ha⟩ : ∃ answer, w.controller.cancel id = .ok answer := by
    have hok : (w.controller.cancel id).isOk = true := by decide
    cases hc : w.controller.cancel id with
    | ok answer => exact ⟨answer, rfl⟩
    | error e =>
      rw [hc] at hok
      cases hok
  obtain ⟨r, hr, hafter⟩ := ((cancellation_safe config s before id).2 j hj hs).2 answer ha
  have hplan : r.plan = ⟨id, e, e.migrated "b" 2 none, .sameIdentity, .beforeRestore, none⟩ := by
    have hplan : (w.controller.run? id).map (·.plan) =
        some ⟨id, e, e.migrated "b" 2 none, .sameIdentity, .beforeRestore, none⟩ := by decide
    rw [show w.controller.run? id = some r from hr] at hplan
    exact Option.some.inj hplan
  have hended (o : Outcome Snapshot) {j' : Job} (ho : o = .ok x ∨ o = .expired)
      (hj' : ((idle config s).watch (before ++ .cancel id :: after o)).controller.job? id = some j') :
      j'.isTerminal = true := by
    have hall : (((idle config s).watch (before ++ .cancel id :: after o)).controller.job? id).all (·.isTerminal) := by
      rcases ho with rfl | rfl <;> decide
    rw [hj'] at hall
    exact hall
  refine ⟨⟨j, answer, hj, hs, ha⟩, ?_, ?_⟩
  · obtain ⟨m, j', hlog, hj', h⟩ := (hafter (after (.ok x))).1
    have ht := hended (.ok x) (.inl rfl) hj'
    have hstatus := h.cancelled ht
    rw [hplan, ← hlog] at hstatus
    exact ⟨j', hj', ht, hstatus (by decide)⟩
  · obtain ⟨m, j', hlog, hj', h⟩ := (hafter (after .expired)).1
    have ht := hended .expired (.inr rfl) hj'
    have hstatus := h.failed ht
    rw [hplan, ← hlog] at hstatus
    exact ⟨j', hj', ht, hstatus (by decide)⟩

end Controller

end LiveMigration
