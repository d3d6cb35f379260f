import LiveMigration.Proofs.Controller.Actions
import LiveMigration.Proofs.Migration.Timeline

namespace LiveMigration

open Journal PhaseRecord

namespace Clock

def SteadySince (start : Nat) (ms : List Moment) : Prop :=
  ms.Pairwise fun a b => a.since start ≤ b.since start

/-- The time since any of the instants does not go back. -/
def Steady : List Moment → Prop
  | [] => True
  | m :: ms => SteadySince m.micros ms ∧ Steady ms

variable {m : Moment} {ms : List Moment}

theorem steady_of_le (h : ms.Pairwise fun a b => a.micros ≤ b.micros)
    (hlt : ∀ m ∈ ms, m.micros < UInt64.size) : Steady ms := by
  induction ms with
  | nil => trivial
  | cons a ms ih =>
    rw [List.pairwise_cons] at h
    rw [List.forall_mem_cons] at hlt
    refine ⟨h.2.imp_of_mem fun {b c} hb hc hle => ?_, ih h.2 hlt.2⟩
    have hb := hlt.2 b hb
    have hc := hlt.2 c hc
    rw [UInt64.le_iff_toNat_le, Moment.since, Moment.since, UInt64.toNat_ofNat_of_lt' (by omega),
      UInt64.toNat_ofNat_of_lt' (by omega)]
    omega

end Clock

def Input.moment? (id : JobId) : Input → Option Moment
  | .start m id' | .answer m id' _ _ => if id' = id then some m else none
  | .submit .. | .cancel _ | .reattach .. | .cleanup | .store _ | .wake _ => none

namespace Turn

inductive Passes (m? : Option Moment) (t : Turn) : Turn → Prop
  | idle : t'.job = t.job → t'.run.start = t.run.start →
      (t'.run.stage ≠ .submitted → t.run.stage ≠ .submitted) → Passes m? t t'
  | begun : m? = some m → t.run.stage = .submitted → t.job.records = [] → t'.Timed m.micros m →
      Passes m? t t'
  | resumed : m? = some m → t.run.stage ≠ .submitted →
      ((∀ r ∈ t.job.records, r.Past (m.since t.run.start)) → t.job.records.Pairwise Precedes →
        t'.Timed t.run.start m) → Passes m? t t'

variable {config : Config} {m : Moment} {t : Turn}

theorem passes_start (h : t.run.stage = .submitted → t.job.records = []) : t.Passes (some m) (t.start m) := by
  simp only [start]
  split
  · next hs =>
    refine .begun rfl hs (h hs) ((stable_timed ..).begin ⟨rfl, ?_⟩)
    rw [h hs]
    exact ⟨List.forall_mem_nil _, .nil⟩
  · exact .idle rfl rfl id

theorem passes_wake : t.Passes none t.wake := by
  simp only [wake]
  split
  · next hs => exact .idle rfl rfl fun _ => by simp [hs]
  · exact .idle rfl rfl id

theorem passes_answer {o : Outcome call.Reply} : t.Passes (some m) (t.answer config m call o) := by
  by_cases hs : t.run.stage = .submitted
  · have hn : t.answer config m call o = t := by
      simp [answer, Run.awaited, Stage.awaited, hs]
    rw [hn]
    exact .idle rfl rfl id
  · exact .resumed rfl hs fun hp ho => (stable_timed ..).answer ⟨rfl, .of_precedes hp ho⟩

end Turn

namespace Watch

variable {w w' : Watch} {i : Input} {id : JobId} {ms : List Moment}

structure OnTime (w : Watch) (id : JobId) (ms : List Moment) : Prop where
  inOrder : ∀ j, w.controller.job? id = some j → j.records.Pairwise Precedes
  closed : ∀ j, w.controller.job? id = some j → ∀ x ∈ j.records, ∀ e, x.ended = some e → x.started ≤ e
  steady : ∀ r, w.controller.run? id = some r → r.stage ≠ .submitted → Clock.SteadySince r.start ms
  ahead : ∀ j r, w.controller.job? id = some j → w.controller.run? id = some r → r.stage ≠ .submitted →
    ∀ m ∈ ms, ∀ x ∈ j.records, x.Past (m.since r.start)

theorem OnTime.later (h : w.OnTime id (ns ++ ms)) : w.OnTime id ms :=
  ⟨h.inOrder, h.closed, fun r hr hs => (List.pairwise_append.1 (h.steady r hr hs)).2.1,
    fun j r hj hr hs m hm => h.ahead j r hj hr hs m (List.mem_append_right _ hm)⟩

theorem OnTime.congr (h : w.OnTime id ms)
    (hj : ∀ j', w'.controller.job? id = some j' →
      ∃ j, w.controller.job? id = some j ∧ j'.records = j.records)
    (hr : ∀ r', w'.controller.run? id = some r' → r'.stage ≠ .submitted →
      ∃ r, w.controller.run? id = some r ∧ r.stage ≠ .submitted ∧ r'.start = r.start) :
    w'.OnTime id ms where
  inOrder j' hj' := by
    obtain ⟨j, hj, he⟩ := hj j' hj'
    exact he ▸ h.inOrder j hj
  closed j' hj' := by
    obtain ⟨j, hj, he⟩ := hj j' hj'
    exact he ▸ h.closed j hj
  steady r' hr' hs' := by
    obtain ⟨r, hr, hs, he⟩ := hr r' hr' hs'
    exact he ▸ h.steady r hr hs
  ahead j' r' hj' hr' hs' := by
    obtain ⟨j, hj, hrecords⟩ := hj j' hj'
    obtain ⟨r, hr, hs, hstart⟩ := hr r' hr' hs'
    rw [hrecords, hstart]
    exact h.ahead j r hj hr hs

theorem records_of_submitted (hw : w.Sound) (hj : w.controller.job? id = some j)
    (hr : w.controller.run? id = some r) (hs : r.stage = .submitted) : j.records = [] := by
  have hc := (hw.stands id).course_of_run? hr hj
  rw [hs] at hc
  exact List.map_eq_nil_iff.1 (List.eq_nil_of_length_eq_zero (hc.paced.length 0 rfl))

theorem passes_of_turned (hw : w.Sound) (ht : w.controller.Turned i id j r before t) :
    Turn.Passes (i.moment? id) ⟨w.controller.store, j, r, []⟩ t := by
  obtain ⟨f, hf, rfl⟩ := ht.turn
  cases i with
  | start m id' =>
    cases hf
    rw [Input.moment?, if_pos rfl]
    exact Turn.passes_start fun hs => records_of_submitted hw ht.job ht.run hs
  | wake id' =>
    cases hf
    exact Turn.passes_wake
  | answer m id' call o =>
    cases hf
    rw [Input.moment?, if_pos rfl]
    exact Turn.passes_answer
  | submit | cancel | reattach | cleanup | store => cases hf

theorem onTime_of_timed (hw : w.Sound) (ht : w.controller.Turned i id j r before t) (h : t.Timed start m)
    (hs : Clock.SteadySince start (m :: ms)) : (w.step i).OnTime id ms := by
  have hjob : ∀ j', (w.step i).controller.job? id = some j' → j' = t.job := fun j' hj' =>
    Option.some.inj (hj'.symm.trans ht.job_after)
  have hrun : ∀ r', (w.step i).controller.run? id = some r' → r'.start = start := by
    intro r' hr'
    by_cases hf : t.run.stage = .finished
    · cases hr'.symm.trans (ht.run_finished hf)
    · cases hr'.symm.trans (ht.run_after hf)
      exact h.1
  constructor
  case inOrder =>
    intro j' hj'
    obtain ⟨-, stage, pr, hc⟩ := hw.course_of_turned ht
    rw [hjob j' hj']
    exact h.2.precedes hc.apart
  case closed =>
    intro j' hj' x hx e he
    rw [hjob j' hj'] at hx
    exact ((h.2.past x hx).ended e he).1
  case steady =>
    intro r' hr' _
    rw [hrun r' hr']
    exact (List.pairwise_cons.1 hs).2
  case ahead =>
    intro j' r' hj' hr' _ n hn x hx
    rw [hjob j' hj'] at hx
    rw [hrun r' hr']
    exact (h.2.past x hx).mono (List.rel_of_pairwise_cons hs hn)

theorem new_of_accepted (hr : w.controller.run? id = none)
    (hl : Journal.of id (w.controller.step i).2 = [.accepted p]) :
    (∀ j, (w.step i).controller.job? id = some j → j.records = []) ∧
      ∀ r, (w.step i).controller.run? id = some r → r.stage = .submitted := by
  obtain ⟨now, q, c', run, rfl, hj, hq, -⟩ :=
    Controller.submit_of_accepted (Journal.mem_of.1 (hl ▸ List.mem_cons_self))
  obtain ⟨e, host, s, lease, p, -, -, -, -, hp, rfl⟩ := Controller.submit_eq_ok hq
  have hid : p.id = id := by rw [hp]
  have hstep : (w.step (.submit now id q)).controller = w.controller.accept s
      (.new id e q.targetHost q.newIdentity w.controller.config.migration.teardownPolicy now) p lease := by
    simp [step, Controller.step, hj, hq]
  rw [hstep]
  constructor
  · intro j hj'
    rw [Controller.job?_accept rfl] at hj'
    cases (if_pos rfl).symm.trans hj'
    rfl
  · intro r hr'
    rw [Controller.run?_accept hr hid] at hr'
    cases (if_pos rfl).symm.trans hr'
    rfl

theorem onTime_step (hw : w.Sound) (hclock : Clock.Steady ((i.moment? id).toList ++ ms))
    (h : w.OnTime id ((i.moment? id).toList ++ ms)) : (w.step i).OnTime id ms := by
  cases hw.fate i id with
  | spared hj hr =>
    refine h.later.congr (fun j' hj' => ⟨j', ?_, rfl⟩) fun r' hr' hs' => ⟨r', ?_, hs', rfl⟩
    · rw [← hj]
      exact hj'
    · rw [← hr]
      exact hr'
  | cancelled _ hj _ hj' hr =>
    refine h.later.congr (fun k hk => ⟨_, hj, ?_⟩) fun r' hr' hs' => ⟨r', ?_, hs', rfl⟩
    · cases hk.symm.trans hj'
      rfl
    · rw [← hr]
      exact hr'
  | accepted _ hr _ _ hl =>
    obtain ⟨hrecords, hstage⟩ := new_of_accepted hr hl
    constructor
    case inOrder =>
      intro j hj
      rw [hrecords j hj]
      exact .nil
    case closed =>
      intro j hj
      rw [hrecords j hj]
      exact nofun
    case steady => exact fun r hr hs => absurd (hstage r hr) hs
    case ahead => exact fun _ r _ hr hs => absurd (hstage r hr) hs
  | @turned j r before t ht =>
    cases passes_of_turned hw ht with
    | idle hjob hstart hstage =>
      refine h.later.congr (fun j' hj' => ⟨j, ht.job, ?_⟩) fun r' hr' hs' => ?_
      · cases hj'.symm.trans ht.job_after
        exact congrArg (·.records) hjob
      · by_cases hf : t.run.stage = .finished
        · cases hr'.symm.trans (ht.run_finished hf)
        · cases hr'.symm.trans (ht.run_after hf)
          exact ⟨r, ht.run, hstage hs', hstart⟩
    | @begun _ m hm hs hr ht' =>
      rw [hm] at hclock
      refine onTime_of_timed hw ht ht' (List.pairwise_cons.2 ⟨fun n _ => ?_, hclock.1⟩)
      rw [Moment.since, Nat.sub_self]
      exact UInt64.zero_le
    | @resumed m _ hm hs ht' =>
      rw [hm] at h
      have hpast := h.ahead j r ht.job ht.run hs m List.mem_cons_self
      exact onTime_of_timed hw ht (ht' hpast (h.inOrder j ht.job)) (h.steady r ht.run hs)

theorem onTime_of_unknown (hj : w.controller.job? id = none) (hr : w.controller.run? id = none) :
    w.OnTime id ms := by
  constructor
  case inOrder | closed =>
    intro j h
    cases hj.symm.trans h
  case steady =>
    intro r h
    cases hr.symm.trans h
  case ahead =>
    intro j r h
    cases hj.symm.trans h

theorem onTime_foldl {inputs : List Input} (hw : w.Sound)
    (hclock : Clock.Steady (inputs.filterMap (Input.moment? id)))
    (h : w.OnTime id (inputs.filterMap (Input.moment? id))) : (inputs.foldl step w).OnTime id [] := by
  induction inputs generalizing w with
  | nil => exact h
  | cons i is ih =>
    rw [filterMap_cons_eq] at hclock h
    refine ih (hw.step i) ?_ (onTime_step hw hclock h)
    cases hm : i.moment? id with
    | none =>
      rw [hm] at hclock
      exact hclock
    | some m =>
      rw [hm] at hclock
      exact hclock.2

end Watch

end LiveMigration
