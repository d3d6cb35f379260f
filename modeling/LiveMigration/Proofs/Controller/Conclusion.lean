import LiveMigration.Proofs.Controller.Actions
import LiveMigration.Proofs.Migration.Completion

namespace LiveMigration

open Journal

namespace Input

def Drives (id : JobId) : Input → Prop
  | .start _ id' | .wake id' | .answer _ id' .. => id' = id
  | _ => False

/-- It lets one migration go on, whose calls have these outcomes. -/
def Answers (id : JobId) (reply : (c : Call) → Outcome c.Reply) : Input → Prop
  | .start _ id' | .wake id' => id' = id
  | .answer _ id' c o => id' = id ∧ o = reply c
  | _ => False

end Input

namespace Watch

variable {w : Watch} {i : Input} {id : JobId} {r : Run}

def Nearer (w : Watch) (id : JobId) (r : Run) (i : Input) : Prop :=
  ∀ r', (w.step i).controller.run? id = some r' → r'.distance < r.distance

section

variable (hw : w.Sound) (hr : w.controller.run? id = some r)

include hr in
theorem noted_turn {f : Turn → Turn} (before : List Occurrence) (hj : w.controller.job? id = some j)
    (hi : w.controller.step i = Controller.noting id before (w.controller.turn id f))
    (hf : ∀ t : Turn, t.Yields (f t)) : let u := f ⟨w.controller.store, j, r, []⟩
    (w.step i).journal id = w.journal id ++ before ++ u.effects.map .did ∧
      ∀ r', (w.step i).controller.run? id = some r' → r' = u.run := by
  intro u
  refine ⟨?_, fun r' hr' => ?_⟩
  · rw [journal_step, hi, Controller.noting, Journal.of_self, Controller.effects_turn hr hj rfl, List.append_assoc]
  · have hp : u.run.plan.id = id := by
      rw [(hf _).plan]
      exact Controller.plan_id_of_run? hr
    rw [controller_step, hi, Controller.noting] at hr'
    by_cases hfin : u.run.stage = .finished
    · rw [Controller.run?_turn_of_finished hr hj rfl hfin, if_pos rfl] at hr'
      cases hr'
    · rw [Controller.run?_turn hr hj rfl hp hfin, if_pos rfl] at hr'
      exact (Option.some.inj hr').symm

include hw hr

theorem exists_nearer_or_awaited :
    (∃ (i : Input) (es : List Effect), (i = .start default id ∨ i = .wake id) ∧
      (w.step i).journal id = w.journal id ++ es.map .did ∧ w.Nearer id r i) ∨
    ∃ c, c ∈ r.awaited w.controller.config := by
  obtain ⟨j, hj, -⟩ := hw.keyed id r hr
  have hc := (hw.stands id).course_of_run? hr hj
  have hrest : r.stage ≠ .finished := by
    intro hf
    rw [hf] at hc
    exact hc.ended rfl (((hw.stands id).running_iff hj).2 ⟨r, hr⟩)
  rcases hc.awaits rfl hrest with hs | ⟨d, hs⟩ | ⟨c, hs⟩
  · obtain ⟨hlog, hrun⟩ := noted_turn hr [] hj (i := .start default id) rfl fun _ => Turn.yields_start
    rw [List.append_nil] at hlog
    refine .inl ⟨_, _, .inl rfl, hlog, fun r' hr' => ?_⟩
    rw [hrun r' hr']
    exact Turn.distance_start hs
  · obtain ⟨hlog, hrun⟩ := noted_turn hr [] hj (i := .wake id) rfl fun _ => Turn.yields_wake
    rw [List.append_nil] at hlog
    refine .inl ⟨_, _, .inr rfl, hlog, fun r' hr' => ?_⟩
    rw [hrun r' hr']
    exact Turn.distance_wake hs
  · exact .inr ⟨c, hs⟩

theorem exists_nearer_answer {o : Outcome c.Reply} (hc : c ∈ r.awaited w.controller.config)
    (ho : c.result? w.controller.config.migration o = some x) : ∃ (m : Moment) (es : List Effect),
    (w.step (.answer m id c o)).journal id = w.journal id ++ [.answered c o] ++ es.map .did ∧
      w.Nearer id r (.answer m id c o) := by
  obtain ⟨j, hj, -⟩ := hw.keyed id r hr
  obtain ⟨m, hm⟩ := Turn.exists_nearer (t := ⟨w.controller.store, j, r, []⟩) (r := x) hc
  have hexpects : w.controller.expects id c o = true := (Controller.expects_of_present hr).2 ⟨hc, _, ho⟩
  obtain ⟨hlog, hrun⟩ := noted_turn hr [.answered c o] hj (i := .answer m id c o)
    (by rw [Controller.step, hexpects, if_pos rfl]; rfl) fun _ => Turn.yields_answer
  refine ⟨m, _, hlog, fun r' hr' => ?_⟩
  have hreceived : Turn.answer w.controller.config m c o ⟨w.controller.store, j, r, []⟩ =
      Turn.receive w.controller.config m c x ⟨w.controller.store, j, r, []⟩ := by
    simp only [Turn.answer, ho]
    exact if_pos hc
  rw [hrun r' hr', hreceived]
  exact hm

end

theorem exists_end (id : JobId) {D : Input → Prop} {P : Watch → Prop}
    (step : ∀ w r, w.Sound → P w → w.controller.run? id = some r → ∃ i, D i ∧ P (w.step i) ∧ w.Nearer id r i)
    (hw : w.Sound) (h : P w) : ∃ more : List Input, (∀ i ∈ more, D i) ∧ P (more.foldl Watch.step w) ∧
      (more.foldl Watch.step w).controller.run? id = none := by
  cases hr : w.controller.run? id with
  | none => exact ⟨[], List.forall_mem_nil _, h, hr⟩
  | some r =>
    induction hd : r.distance using Nat.strongRecOn generalizing w r with
    | ind n ih =>
      obtain ⟨i, hi, h', hnearer⟩ := step w r hw h hr
      cases hr' : (w.step i).controller.run? id with
      | none => exact ⟨[i], by simpa using hi, h', hr'⟩
      | some r' =>
        obtain ⟨more, hm, hmore⟩ := ih r'.distance (hd ▸ hnearer r' hr') (hw.step i) h' r' hr' rfl
        exact ⟨i :: more, List.forall_mem_cons.2 ⟨hi, hm⟩, hmore⟩

theorem exists_smooth_end (hw : w.Sound) (hl : Smooth (w.journal id)) : ∃ more : List Input,
    (∀ i ∈ more, i.Drives id) ∧ Smooth ((more.foldl step w).journal id) ∧
      (more.foldl step w).controller.run? id = none := by
  refine exists_end id (P := fun w => Smooth (w.journal id)) (fun w r hw hl hr => ?_) hw hl
  rcases exists_nearer_or_awaited hw hr with ⟨i, es, hi, hlog, hnearer⟩ | ⟨c, hc⟩
  · refine ⟨i, ?_, hlog ▸ hl.did es, hnearer⟩
    rcases hi with rfl | rfl
    · rfl
    · rfl
  · obtain ⟨j, hj, -⟩ := hw.keyed id r hr
    obtain ⟨a, ha⟩ := ((hw.stands id).course_of_run? hr hj).exists_reply hl.whole hc
    obtain ⟨m, es, hlog, hnearer⟩ := exists_nearer_answer hw hr hc (o := .ok a) rfl
    exact ⟨.answer m id c (.ok a), rfl, hlog ▸ (hl.answered ha).did es, hnearer⟩

/-- Whatever the outcomes of its calls are, a migration can go on to its end. -/
theorem exists_answered_end (id : JobId) {config : Config} {reply : (c : Call) → Outcome c.Reply}
    (hreply : ∀ c : Call, (c.result? config.migration (reply c)).isSome = true) (hw : w.Sound)
    (hc : w.controller.config = config) : ∃ more : List Input, (∀ i ∈ more, i.Answers id reply) ∧
      (more.foldl step w).controller.run? id = none := by
  have hend := exists_end (w := w) id (D := (·.Answers id reply))
    (P := fun w => w.controller.config = config) (fun w r hw hconfig hr => ?_) hw hc
  · obtain ⟨more, hmore, -, hnone⟩ := hend
    exact ⟨more, hmore, hnone⟩
  · have hstep (i : Input) : (w.step i).controller.config = config := (w.controller.config_step i).trans hconfig
    rcases exists_nearer_or_awaited hw hr with ⟨i, es, hi, -, hnearer⟩ | ⟨c, hc⟩
    · refine ⟨i, ?_, hstep i, hnearer⟩
      rcases hi with rfl | rfl
      · rfl
      · rfl
    · obtain ⟨x, hx⟩ := Option.isSome_iff_exists.1 (hreply c)
      obtain ⟨m, -, -, hnearer⟩ := exists_nearer_answer hw hr hc (hconfig ▸ hx)
      exact ⟨.answer m id c (reply c), ⟨rfl, rfl⟩, hstep _, hnearer⟩

end Watch

end LiveMigration
