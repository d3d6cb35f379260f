import LiveMigration.Proofs.Controller.Actions

namespace LiveMigration

open Journal

namespace Job

/-- The fields of a job that say how it stands agree with each other. -/
structure Coherent (j : Job) : Prop where
  running : j.status = .running ↔ j.phase ≠ .done ∧ j.phase ≠ .failed ∧ j.phase ≠ .cancelled
  succeeded : j.status = .succeeded ↔ j.phase = .done
  failed : j.status = .failed ↔ j.phase = .failed
  cancelled : j.status = .cancelled ↔ j.phase = .cancelled
  finishedAt : j.finishedAt.isSome ↔ j.status ≠ .running
  diagnostic : j.diagnostic.isSome ↔ j.status = .failed ∨ j.status = .cancelled

structure Live (j : Job) : Prop where
  status : j.status = .running
  phase : j.phase.isTerminal = false
  finishedAt : j.finishedAt = none
  diagnostic : j.diagnostic = none

variable {j : Job}

theorem Live.coherent (h : j.Live) : j.Coherent := by
  have hp : ∀ q : Phase, q.isTerminal = true → j.phase ≠ q := by
    rintro q hq rfl
    cases h.phase.symm.trans hq
  constructor
  · simp [h.status, hp .done rfl, hp .failed rfl, hp .cancelled rfl]
  · simp [h.status, hp .done rfl]
  · simp [h.status, hp .failed rfl]
  · simp [h.status, hp .cancelled rfl]
  · simp [h.status, h.finishedAt]
  · simp [h.status, h.diagnostic]

theorem Live.enter (h : j.Live) (hq : q.isTerminal = false) : (j.enter q now).Live :=
  ⟨h.status, hq, h.finishedAt, h.diagnostic⟩

theorem Live.enters {qs : List Phase} (h : j.Live) (hq : ∀ q ∈ qs, q.isTerminal = false) :
    (qs.foldl (fun j q => j.enter q now) j).Live := by
  induction qs generalizing j with
  | nil => exact h
  | cons q qs ih =>
    rw [List.forall_mem_cons] at hq
    exact ih (h.enter hq.1) hq.2

theorem Live.leave (h : j.Live) : (j.leave q now).Live := ⟨h.status, h.phase, h.finishedAt, h.diagnostic⟩

theorem Live.conclude (h : j.Live) (f : Option Error) : (j.conclude f gone now wall).Coherent := by
  cases f with
  | none => constructor <;> simp [Job.conclude, closeOpen, h.diagnostic]
  | some e =>
    simp only [Job.conclude]
    split
    · constructor <;> simp
    · constructor <;> simp

end Job

theorem Stage.phases_live (s : Stage) : ∀ q ∈ s.phases, q.isTerminal = false := by
  cases s <;> simp [phases, Phase.isTerminal]

namespace Course

variable {config : Config} {p : Plan} {l : List Occurrence}

theorem live (h : Course config p P pr j l) (hP : P ≠ .waiting .finished) : j.Live := by
  induction h with
  | accepted ho =>
    obtain ⟨_, _, _, _, rfl⟩ := ho.job_new
    exact ⟨rfl, rfl, rfl, rfl⟩
  | cancel _ _ ih =>
    have h := ih hP
    exact ⟨h.status, h.phase, h.finishedAt, h.diagnostic⟩
  | @entered s _ _ _ _ _ _ ih => exact (ih (by simp)).enters s.phases_live
  | @refused s _ _ _ _ _ _ _ _ hq _ _ ih =>
    refine ih ?_
    rintro ⟨⟩
    cases hq
  | drained _ _ _ _ ih =>
    have h := ih (by simp)
    exact Job.Live.leave ⟨h.status, h.phase, h.finishedAt, h.diagnostic⟩
  | gathered _ ih =>
    have h := ih (by simp)
    exact ⟨h.status, h.phase, h.finishedAt, h.diagnostic⟩
  | quiesced _ _ _ ih | captured _ _ _ _ _ ih | prepared _ _ _ _ _ ih | transferred _ _ _ ih
  | measured _ _ ih | detached _ _ ih | restored _ _ ih | announced _ _ ih => exact (ih (by simp)).leave
  | forwardRefused _ _ _ _ ih => exact (ih (by simp)).enter rfl
  | forwarded _ _ _ _ ih => exact ((ih (by simp)).enter rfl).leave
  | closed => exact absurd rfl hP
  | _ => simp_all

theorem coherent (h : Course config p P pr j l) : j.Coherent := by
  by_cases hP : P = .waiting .finished
  · obtain ⟨f, i, before, now, wall, hc, rfl, -⟩ := h.closed_of_finished hP
    exact (hc.live (by simp)).conclude f
  · exact (h.live hP).coherent

end Course

namespace Registry

def Distinct (r : Registry) : Prop := (r.jobs.map (·.id)).Nodup

variable {r : Registry} {id : JobId}

theorem Distinct.insert (h : r.Distinct) (j : Job) : (r.insert j).Distinct := by
  simp only [Distinct, Registry.insert, List.map_append, List.map_cons, List.map_nil]
  refine List.nodup_append.2 ⟨(List.filter_sublist.map _).nodup h, List.pairwise_singleton .., ?_⟩
  simp only [List.mem_map, List.mem_filter]
  rintro _ ⟨i, ⟨-, hi⟩, rfl⟩ _ hj rfl
  simp_all

theorem Distinct.update (h : r.Distinct) {f : Job → Job} (hf : ∀ j, j.id = id → (f j).id = id) :
    (r.update id f).Distinct := by
  have hids : (r.update id f).jobs.map (·.id) = r.jobs.map (·.id) := by
    simp only [Registry.update, List.map_map]
    refine List.map_congr_left fun j _ => ?_
    simp only [Function.comp_apply]
    split
    · next hj =>
      have hj : j.id = id := by simp_all
      rw [hf j hj, hj]
    · rfl
  rw [Distinct, hids]
  exact h

theorem Distinct.filter_eq (h : r.Distinct) (id : JobId) :
    r.jobs.filter (·.id = id) = (r.get? id).toList := by
  obtain ⟨jobs⟩ := r
  simp only [Distinct, get?] at h ⊢
  induction jobs with
  | nil => rfl
  | cons j l ih =>
    rw [List.map_cons, List.nodup_cons] at h
    by_cases hj : j.id = id
    · have hl : l.filter (·.id = id) = [] := by
        simp only [List.filter_eq_nil_iff, decide_eq_true_eq]
        rintro i hi rfl
        exact h.1 (hj ▸ List.mem_map_of_mem hi)
      simp [hj, hl]
    · simpa [hj] using ih h.2

theorem Distinct.get?_of_mem (h : r.Distinct) (hj : j ∈ r.jobs) : r.get? j.id = some j := by
  have hm : j ∈ r.jobs.filter (·.id = j.id) := by simpa using hj
  rw [h.filter_eq] at hm
  exact Option.mem_toList.1 hm

theorem Distinct.list_filter (h : r.Distinct) (hj : r.get? id = some j) :
    r.list.filter (·.id = id) = [j] := by
  have hp : (r.list.filter (·.id = id)).Perm (r.jobs.filter (·.id = id)) :=
    (List.mergeSort_perm ..).filter _
  rw [h.filter_eq, hj] at hp
  exact List.perm_singleton.1 hp

end Registry

namespace Controller

variable {c : Controller} {id : JobId}

theorem distinct_turn {f : Turn → Turn} (hf : ∀ t : Turn, t.Yields (f t)) (h : c.registry.Distinct) :
    (c.turn id f).1.registry.Distinct := by
  simp only [turn]
  split
  · next hr hj =>
    refine h.update fun _ _ => ?_
    exact (hf _).job.id.trans (id_of_job? hj)
  · exact h

theorem mem_jobs_of_job? (h : c.job? id = some j) : j ∈ c.jobs :=
  (List.mergeSort_perm ..).mem_iff.2 (List.mem_of_find?_eq_some h)

theorem distinct_step (h : c.registry.Distinct) (i : Input) : (c.step i).1.registry.Distinct := by
  cases i with
  | submit now id q =>
    simp only [step]
    split
    · exact h
    · split
      · next c' hq =>
        obtain ⟨_, _, _, _, _, _, _, _, _, _, rfl⟩ := submit_eq_ok hq
        exact h.insert _
      · exact h
  | cancel id =>
    simp only [step]
    cases hq : c.cancel id with
    | error e => exact h
    | ok r =>
      obtain hr | ⟨j, -, -, -, hr⟩ := cancel_eq_ok hq
      · rw [settle, hr]
        exact h
      · rw [settle, hr]
        exact h.update fun _ hj => hj
  | reattach addr egress mac host =>
    obtain ⟨s, hs⟩ := c.settle_reattach addr egress mac host
    rw [step, hs]
    exact h
  | cleanup =>
    obtain ⟨s, hs⟩ := c.settle_onStore Store.teardownAll
    rw [step, cleanup, hs]
    exact h
  | store a => exact h
  | start m id => exact distinct_turn (fun _ => Turn.yields_start) h
  | wake id => exact distinct_turn (fun _ => Turn.yields_wake) h
  | answer m id call o => exact distinct_turn (fun _ => Turn.yields_answer) h

end Controller

namespace Watch

variable {w : Watch} {id : JobId}

theorem distinct_foldl (hw : w.Sound) (h : w.controller.registry.Distinct) (inputs : List Input) :
    (inputs.foldl step w).controller.registry.Distinct :=
  foldl_induction (q := fun _ => True) (fun _ i _ _ h => Controller.distinct_step h i) (fun _ _ => trivial) hw h

theorem Sound.job?_step_of_terminal (hw : w.Sound) (hj : w.controller.job? id = some j)
    (ht : j.isTerminal = true) (i : Input) : (w.step i).controller.job? id = some j := by
  have hidle : j.status ≠ .running := by simpa [Job.isTerminal] using ht
  rw [controller_step]
  cases hw.fate i id with
  | spared hsame => rw [hsame, hj]
  | accepted hn => cases hn.symm.trans hj
  | cancelled _ hj' hc =>
    cases hj.symm.trans hj'
    simp [Job.isCancellable, ht] at hc
  | turned ht' =>
    cases hj.symm.trans ht'.job
    exact absurd (((hw.stands id).running_iff hj).2 ⟨_, ht'.run⟩) hidle

theorem Sound.job?_foldl_of_terminal (hw : w.Sound) (hj : w.controller.job? id = some j)
    (ht : j.isTerminal = true) (inputs : List Input) :
    (inputs.foldl Watch.step w).controller.job? id = some j :=
  foldl_induction (q := fun _ => True) (P := fun w => w.controller.job? id = some j)
    (fun _ i hw _ hj => hw.job?_step_of_terminal hj ht i) (fun _ _ => trivial) hw hj

theorem Sound.coherent (hw : w.Sound) (hj : w.controller.job? id = some j) : j.Coherent := by
  obtain ⟨p, s, pr, h⟩ := (hw.stands id).course_of_job? hj
  exact h.coherent

end Watch

namespace Controller

/-- However a history goes, the fields of every job in the registry agree with each other, and one that has
ended is found there unchanged, once, after whatever happens later. -/
theorem jobs_coherent_then_frozen (config : Config) (s : Store) (inputs : List Input) :
    ∀ j ∈ ((idle config s).watch inputs).controller.jobs, j.Coherent ∧
      (j.isTerminal = true → ∀ later, let c := ((idle config s).watch (inputs ++ later)).controller
        c.job? j.id = some j ∧ c.jobs.filter (·.id = j.id) = [j]) := by
  have hw : ((idle config s).watch inputs).Sound := Watch.sound_watch config s inputs
  have hd : ∀ is, ((idle config s).watch is).controller.registry.Distinct :=
    Watch.distinct_foldl (Watch.sound_idle config s) List.nodup_nil
  intro j hj
  have hj : ((idle config s).watch inputs).controller.job? j.id = some j :=
    (hd inputs).get?_of_mem ((List.mergeSort_perm ..).mem_iff.1 hj)
  refine ⟨hw.coherent hj, fun ht later => ?_⟩
  have hlater : ((idle config s).watch (inputs ++ later)).controller.job? j.id = some j := by
    rw [watch_append]
    exact hw.job?_foldl_of_terminal hj ht later
  exact ⟨hlater, (hd _).list_filter hlater⟩

theorem cancelled_job_coherent_then_frozen :
    let e : Endpoint := ⟨⟨⟨10⟩, ⟨.replicate 6 1⟩⟩, "a", 1, "web"⟩
    let s := Store.empty.act (.write none ⟨[.putEndpoint e]⟩)
    let config := Config.plain [⟨"a", "a", 1, "eth0", "/var"⟩, ⟨"b", "b", 2, "eth0", "/var"⟩] []
    let now : Moment := ⟨0, 0, 0⟩
    let id : JobId := .ofNat 7
    let inputs : List Input := [.submit now.wall id ⟨⟨10⟩, "b", none⟩, .cancel id, .start now id]
    ∃ j ∈ ((idle config s).watch inputs).controller.jobs, j.status = .cancelled ∧ j.Coherent ∧
      ((idle config s).watch (inputs ++ [.cancel id, .start now id])).controller.job? id = some j := by
  intro e s config now id inputs
  have hj : (((idle config s).watch inputs).controller.job? id).any (·.status = .cancelled) = true := by
    decide
  obtain ⟨j, hj, hs⟩ := (Option.any_eq_true ..).1 hj
  have hs : j.status = .cancelled := of_decide_eq_true hs
  have h := jobs_coherent_then_frozen config s inputs j (mem_jobs_of_job? hj)
  have ht : j.isTerminal = true := by rw [Job.isTerminal, hs]; rfl
  have hlater := (h.2 ht [.cancel id, .start now id]).1
  have hid : j.id = id := id_of_job? hj
  rw [hid] at hlater
  exact ⟨j, mem_jobs_of_job? hj, hs, h.1, hlater⟩

end Controller

end LiveMigration
