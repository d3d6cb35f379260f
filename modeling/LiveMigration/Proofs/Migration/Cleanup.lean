import LiveMigration.Proofs.Controller.History
import LiveMigration.Proofs.Migration.Progress

namespace LiveMigration

open Journal

namespace Journal

variable (config : Config) (p : Plan) (j : Job) (l : List Occurrence)

/-- The source holds back, and nothing is to take its place. -/
def Stranded : Prop :=
  .answered (.quiesce p.source) (.ok ()) ∈ l ∧ j.status ≠ .succeeded ∧
    j.record? .sourceTeardown = none ∧ p.traffic config ∉ written l

/-- At the end of a job, all that was to be undone has been undone once, and nothing else. -/
structure CleanedUp : Prop where
  resumed : Stranded config p j l → (calls l).count (.resume p.source) = 1
  not_resumed : ¬ Stranded config p j l → .resume p.source ∉ calls l
  only_source_resumed : ∀ e, .resume e ∈ calls l → e = p.source
  removed_before_resume : ∀ before e after, calls l = before ++ .resume e :: after →
    .teardown p.target ∉ after ∧ .detach p.target ∉ after
  not_removed : p.traffic config ∈ written l → .teardown p.target ∉ calls l ∧ .detach p.target ∉ calls l
  discarded : ∀ s, (calls l).count (.discard s) = if s ∈ copies l then 1 else 0

end Journal

namespace Plan

variable (p : Plan)

def undoes : Call → Bool
  | .resume _ | .discard _ => true
  | .teardown e | .detach e => e = p.target
  | _ => false

def removals (pr : Progress) : List Call :=
  if pr.restored then [.teardown p.target, .detach p.target] else []

def resumption (pr : Progress) : List Call :=
  if pr.quiesced && !pr.sourceRemoved then [.resume p.source] else []

def undoing (pr : Progress) (failed : Bool) : List Call :=
  if failed && !pr.forwarded then p.removals pr ++ p.resumption pr else []

end Plan

def Progress.discards (pr : Progress) : List Call := pr.snapshots.map .discard

def Point.undone (p : Plan) (pr : Progress) (j : Job) : Point → List Call
  | .waiting (.removingTarget _) => [.teardown p.target]
  | .waiting (.detachingTarget _) | .unwinding _ => p.removals pr
  | .waiting (.resuming _) => p.removals pr ++ p.resumption pr
  | .tidying f => p.undoing pr f.isSome
  | .waiting (.discarding f _) | .closing f => p.undoing pr f.isSome ++ pr.discards
  | .waiting .finished => p.undoing pr (j.status ≠ .succeeded) ++ pr.discards
  | _ => []

def Point.Unwinds (pr : Progress) : Point → Prop
  | .waiting (.removingTarget _) | .waiting (.detachingTarget _) =>
    pr.forwarded = false ∧ pr.restored = true
  | .unwinding _ => pr.forwarded = false
  | .waiting (.resuming _) => pr.forwarded = false ∧ (pr.quiesced && !pr.sourceRemoved) = true
  | _ => True

variable {config : Config} {p : Plan} {l : List Occurrence}

theorem Job.failed_conclude (j : Job) :
    decide ((j.conclude f gone now wall).status = .succeeded) = f.isNone := by
  cases f with
  | none => rfl
  | some e =>
    apply decide_eq_false
    simp only [conclude]
    split
    · intro h
      cases h
    · intro h
      cases h

namespace Course

theorem unwinds (h : Course config p P pr j l) : P.Unwinds pr := by
  induction h with
  | cancel _ _ ih => exact ih
  | entered _ hc =>
    cases hc.stage_entered rfl with
    | _ => trivial
  | removing _ hf hr => exact ⟨hf, hr⟩
  | targetRemoved _ _ ih => exact ih
  | targetDetached _ _ ih => exact ih.1
  | unrestored _ hf => exact hf
  | resuming _ hr ih => exact ⟨ih, hr⟩
  | @detached next =>
    cases next with
    | _ => trivial
  | measured | announced | forwarded =>
    split
    · trivial
    · trivial
  | _ => trivial

theorem undone (h : Course config p P pr j l) : (calls l).filter p.undoes = P.undone p pr j := by
  induction h with
  | accepted => rfl
  | cancel _ _ ih | started _ ih | cancelled _ _ ih | halfway _ _ ih | captureFailed _ ih
  | prepareFailed _ ih | gathered _ ih | forwardCancelled _ _ ih | kept _ _ ih => exact ih
  | entered _ hc _ ih =>
    rw [calls_append, calls_calling, List.filter_append, ih]
    cases hc.stage_entered rfl with
    | removingSource => simp [Point.undone, Stage.awaited, Plan.undoes, hc.moves]
    | _ => rfl
  | @refused s _ _ _ _ _ _ _ _ hq _ _ ih =>
    rw [calls_append, List.filter_append, ih]
    cases s with
    | removingTarget | detachingTarget | resuming | discarding | finished => cases hq
    | _ => rfl
  | tornDown hc ih => simp [ih, Point.undone, Plan.undoes, hc.moves, call?]
  | measured _ _ ih | announced _ _ ih | forwarded _ _ _ _ ih =>
    split
    · simp [ih, Point.undone, call?]
    · simp [ih, Point.undone, call?]
  | @detached next _ _ _ _ _ ih =>
    cases next with
    | _ => simp [ih, Point.undone, Sequel.point, call?]
  | retired _ _ _ ih => simp [ih, Point.undone, Plan.undoing, call?]
  | moved _ hf ih => simp [ih, Point.undone, Plan.undoing, hf]
  | removing _ _ _ ih => simp [ih, Point.undone, Plan.undoes, call?]
  | unrestored _ _ hr ih => simp [ih, Point.undone, Plan.removals, hr]
  | targetRemoved _ hc ih => simp [ih, Point.undone, Plan.undoes, Plan.removals, hc.unwinds.2, call?]
  | resuming _ hr ih => simp [ih, Point.undone, Plan.undoes, Plan.resumption, hr, call?]
  | unresumed hc hr ih =>
    have hf : _ = _ := hc.unwinds
    simp [ih, Point.undone, Plan.undoing, Plan.resumption, hf, hr]
  | resumed _ hc ih =>
    have hf := hc.unwinds.1
    simp [ih, Point.undone, Plan.undoing, hf, call?]
  | @discarding _ pr _ _ _ _ ih =>
    have hd : pr.discards.filter p.undoes = pr.discards := by
      simp [Progress.discards, Plan.undoes, List.filter_eq_self]
    rw [calls_append, calls_calling, List.filter_append, ih]
    exact congrArg (_ ++ ·) hd
  | tidied _ hs ih => simp [ih, Point.undone, Progress.discards, hs]
  | @closed f _ j _ now wall _ ih =>
    simp [ih, Point.undone, j.failed_conclude, call?]
  | _ => simp_all [Point.undone, Plan.undoes, call?]

end Course

namespace Plan

variable {pr : Progress}

theorem mem_undoing {c : Call} : c ∈ p.undoing pr failed ↔ failed = true ∧ pr.forwarded = false ∧
    (pr.restored = true ∧ (c = .teardown p.target ∨ c = .detach p.target) ∨
      (pr.quiesced = true ∧ pr.sourceRemoved = false) ∧ c = .resume p.source) := by
  simp [undoing, removals, resumption, and_assoc]

theorem count_resume (h : pr.quiesced = true ∧ pr.sourceRemoved = false ∧ pr.forwarded = false) :
    (p.undoing pr true ++ pr.discards).count (.resume p.source) = 1 := by
  have hr : (p.removals pr).count (.resume p.source) = 0 := by
    simp only [removals]
    split
    · rfl
    · rfl
  have hd : pr.discards.count (.resume p.source) = 0 := by
    simp [Progress.discards, List.count_eq_zero]
  simp [undoing, resumption, h, hr, hd]

def MayFollow (p : Plan) (c d : Call) : Prop :=
  ∀ e, c = .resume e → d ≠ .teardown p.target ∧ d ≠ .detach p.target

theorem pairwise_undoing (p : Plan) (pr : Progress) (failed : Bool) :
    (p.undoing pr failed ++ pr.discards).Pairwise p.MayFollow := by
  have hd : pr.discards.Pairwise p.MayFollow := by
    simp [Progress.discards, MayFollow, List.pairwise_map, List.pairwise_of_forall]
  have hu : (p.undoing pr failed).Pairwise p.MayFollow := by
    simp only [undoing, removals, resumption]
    split
    · split
      · split
        · simp [MayFollow]
        · simp [MayFollow]
      · split
        · simp
        · simp
    · exact .nil
  refine List.pairwise_append.2 ⟨hu, hd, ?_⟩
  intro c _ d hd e _
  obtain ⟨s, _, rfl⟩ := List.mem_map.1 hd
  exact ⟨nofun, nofun⟩

end Plan

theorem Progress.nodup_discards {pr : Progress} (h : pr.snapshots.Nodup) : pr.discards.Nodup :=
  List.pairwise_map.2 (h.imp fun hne he => hne (Call.discard.inj he))

namespace Course

theorem stranded_iff (h : Course config p P pr j l) :
    Stranded config p j l ↔ pr.quiesced = true ∧ j.status ≠ .succeeded ∧ pr.sourceRemoved = false ∧
      pr.forwarded = false := by
  simp only [Stranded, ← h.quiesced_iff, ← h.forwarded_iff, Job.record?_eq_none, ← h.sourceRemoved_iff,
    Bool.not_eq_true]

section

variable (h : Course config p (.waiting .finished) pr j l)

include h

theorem undone_finished :
    (calls l).filter p.undoes = p.undoing pr (j.status ≠ .succeeded) ++ pr.discards := h.undone

theorem mem_calls_iff (hc : p.undoes c = true) :
    c ∈ calls l ↔ c ∈ p.undoing pr (j.status ≠ .succeeded) ∨ c ∈ pr.discards := by
  rw [← List.mem_append, ← h.undone_finished, List.mem_filter]
  simp [hc]

theorem count_calls (hc : p.undoes c = true) :
    (calls l).count c = (p.undoing pr (j.status ≠ .succeeded) ++ pr.discards).count c := by
  rw [← h.undone_finished, List.count_filter hc]

theorem resume_mem_iff :
    .resume e ∈ calls l ↔ e = p.source ∧ Stranded config p j l := by
  rw [h.mem_calls_iff rfl, Plan.mem_undoing, h.stranded_iff]
  simp [Progress.discards, and_assoc, and_left_comm, and_comm]

theorem cleanedUp : CleanedUp config p j l where
  resumed := by
    intro hs
    rw [h.stranded_iff] at hs
    rw [h.count_calls rfl, decide_eq_true hs.2.1, Plan.count_resume ⟨hs.1, hs.2.2⟩]
  not_resumed hs hr := hs (h.resume_mem_iff.1 hr).2
  only_source_resumed _ he := (h.resume_mem_iff.1 he).1
  removed_before_resume := by
    intro before e after hc
    have hp := Plan.pairwise_undoing p pr (j.status ≠ .succeeded)
    rw [← h.undone_finished, hc, List.filter_append, List.filter_cons_of_pos rfl] at hp
    have hr := (List.pairwise_cons.1 (List.pairwise_append.1 hp).2.1).1
    constructor
    · intro hm
      exact (hr _ (List.mem_filter.2 ⟨hm, by simp [Plan.undoes]⟩) e rfl).1 rfl
    · intro hm
      exact (hr _ (List.mem_filter.2 ⟨hm, by simp [Plan.undoes]⟩) e rfl).2 rfl
  not_removed := by
    intro hw
    have hf := h.forwarded_iff.2 hw
    rw [h.mem_calls_iff (by simp [Plan.undoes]), h.mem_calls_iff (by simp [Plan.undoes])]
    simp [Plan.mem_undoing, hf, Progress.discards]
  discarded := by
    intro s
    have hd := (Progress.nodup_discards h.holds).count (a := .discard s)
    have hu : Call.discard s ∉ p.undoing pr (j.status ≠ .succeeded) := by
      simp [Plan.mem_undoing]
    rw [h.count_calls rfl, List.count_append, List.count_eq_zero.2 hu, hd, h.copies_eq]
    simp [Progress.discards, Point.pending]

end

end Course

def Stage.cleansUp : Stage → Bool
  | .removingTarget _ | .detachingTarget _ | .resuming _ | .discarding .. => true
  | _ => false

def Call.mend : (c : Call) → Outcome c.Reply → Outcome c.Reply
  | .teardown _, .failed _ | .detach _, .failed _ | .resume _, .failed _ | .discard _, .failed _ =>
    .ok ()
  | _, o => o

namespace Controller

def mend (c : Controller) : Input → Input
  | .answer m id call o =>
    .answer m id call (if (c.run? id).any (·.stage.cleansUp) then call.mend o else o)
  | i => i

/-- The same inputs, but no call that cleans up fails. -/
def mended (c : Controller) : List Input → List Input
  | [] => []
  | i :: is => c.mend i :: (c.step i).1.mended is

end Controller

namespace Turn

variable {m : Moment} {t : Turn}

theorem receive_eq_of_cleansUp {r r' : Except Error c.Reply} (hs : t.run.stage.cleansUp = true)
    (hc : c ∈ t.run.awaited config) : t.receive config m c r = t.receive config m c r' := by
  obtain ⟨store, job, ⟨plan, lease, start, stage, pr⟩, effects⟩ := t
  cases stage with
  | removingTarget e | detachingTarget e | resuming e =>
    cases List.mem_singleton.1 hc
    rfl
  | discarding f left =>
    obtain ⟨s, _, rfl⟩ := List.mem_map.1 hc
    rfl
  | _ => cases hs

theorem answer_mend {o : Outcome c.Reply} (hs : t.run.stage.cleansUp = true) :
    t.answer config m c (c.mend o) = t.answer config m c o := by
  simp only [answer]
  split
  · rename_i hc
    cases o with
    | ok a => cases c <;> rfl
    | expired => cases c <;> rfl
    | failed e =>
      obtain ⟨r, hr⟩ : ∃ r, c.result? config.migration (c.mend (.failed e)) = some r := by
        cases c <;> exact ⟨_, rfl⟩
      rw [hr]
      exact receive_eq_of_cleansUp hs hc
  · rfl

end Turn

namespace Controller

variable {id id' : JobId}

theorem turn_congr {c : Controller} {f g : Turn → Turn}
    (h : ∀ r j, c.run? id = some r → f ⟨c.store, j, r, []⟩ = g ⟨c.store, j, r, []⟩) :
    c.turn id f = c.turn id g := by
  cases hr : c.run? id with
  | none => rw [turn_of_absent hr, turn_of_absent hr]
  | some r =>
    cases hj : c.job? id with
    | none => simp only [turn, hr, hj]
    | some j => simp only [turn, hr, hj, h r j hr]

theorem deeds_noting {before : List Occurrence} (hb : deeds before = []) (r : Controller × List Effect) :
    deeds (Journal.of id' (noting id before r).2) = if id = id' then r.2 else [] := by
  simp only [noting]
  split
  · rename_i h
    subst h
    rw [Journal.of_self, deeds_append, hb, deeds_map_did, List.nil_append]
  · rename_i h
    rw [Journal.of_other h]
    rfl

theorem step_mend (c : Controller) (i : Input) : (c.step (c.mend i)).1 = (c.step i).1 ∧
    ∀ id, deeds (Journal.of id (c.step (c.mend i)).2) = deeds (Journal.of id (c.step i).2) := by
  cases i with
  | answer m id call o =>
    have silent : ∀ o, deeds (if c.expects id call o then [.answered call o] else []) = [] := by
      intro o
      split
      · rfl
      · rfl
    have same : ∀ o', c.answer m id call o' = c.answer m id call o →
        (c.step (.answer m id call o')).1 = (c.step (.answer m id call o)).1 ∧
        ∀ id', deeds (Journal.of id' (c.step (.answer m id call o')).2) =
          deeds (Journal.of id' (c.step (.answer m id call o)).2) := by
      intro o' ho
      constructor
      · simp only [step, noting, ho]
      · intro id'
        simp only [step, deeds_noting (silent _), ho]
    apply same
    split
    · rename_i hs
      apply turn_congr
      intro r j hr
      rw [hr] at hs
      exact Turn.answer_mend hs
    · rfl
  | _ => exact ⟨rfl, fun _ => rfl⟩

end Controller

namespace Watch

variable {w w' : Watch}

theorem foldl_mended (hc : w'.controller = w.controller)
    (hl : ∀ id, deeds (w'.journal id) = deeds (w.journal id)) (inputs : List Input) :
    ((w.controller.mended inputs).foldl step w').controller = (inputs.foldl step w).controller ∧
      ∀ id, deeds (((w.controller.mended inputs).foldl step w').journal id) =
        deeds ((inputs.foldl step w).journal id) := by
  induction inputs generalizing w w' with
  | nil => exact ⟨hc, hl⟩
  | cons i is ih =>
    obtain ⟨h₁, h₂⟩ := w.controller.step_mend i
    refine @ih (w.step i) (w'.step (w.controller.mend i)) ?_ ?_
    · simp only [step, hc]
      exact h₁
    · intro id
      simp only [step, Watch.journal, Journal.of_append, deeds_append, hc, h₂]
      exact congrArg (· ++ _) (hl id)

end Watch

/-- However a history goes, a migration that has come to its end has cleaned up, and all goes as it
does if no call that cleans up fails. -/
theorem migration_cleaned_up (config : Config) (s : Store) (inputs : List Input) :
    let c := Controller.idle config s
    (∀ id, let l := (c.watch inputs).journal id
      published l = [] ∨ ∃ p j, p.id = id ∧ l.head? = some (.accepted p) ∧ published l = [j] ∧
        (c.watch inputs).controller.job? id = some j ∧ CleanedUp config p j l) ∧
    (c.watch (c.mended inputs)).controller = (c.watch inputs).controller ∧
    ∀ id, deeds ((c.watch (c.mended inputs)).journal id) = deeds ((c.watch inputs).journal id) := by
  intro c
  refine ⟨fun id => ?_, Watch.foldl_mended rfl (fun _ => rfl) inputs⟩
  rcases Controller.course_watch config s inputs id with h | ⟨p, stage, pr, j, hp, hj, h⟩
  · simp only [c, h]
    exact .inl rfl
  · cases stage with
    | finished => exact .inr ⟨p, j, hp, h.head?_eq, h.published_eq, hj, h.cleanedUp⟩
    | _ => exact .inl h.published_eq

theorem migration_cleaned_up_though_unresumed :
    let e : Endpoint := ⟨⟨⟨10⟩, ⟨.replicate 6 1⟩⟩, "a", 1, "web"⟩
    let s := Store.empty.act (.write none ⟨[.putEndpoint e]⟩)
    let config := Config.plain [⟨"a", "a", 1, "eth0", "/var"⟩, ⟨"b", "b", 2, "eth0", "/var"⟩] []
    let now : Moment := ⟨0, 0, 0⟩
    let id := JobId.ofNat 7
    let x : Snapshot := ⟨"x", ⟨10⟩, "a", "/var/x", 5, now.wall⟩
    let archive := "ferry-" ++ id.text
    let c := Controller.idle config s
    let inputs : List Input := [.submit now.wall id ⟨⟨10⟩, "b", none⟩, .start now id,
      .answer now id (.quiesce e) (.ok ()), .answer now id (.probe e) (.ok 0),
      .answer now id (.capture e archive) (.ok x), .answer now id (.prepare "b" none) .expired,
      .answer now id (.resume e) (.failed (.timeout 1)), .answer now id (.discard x) (.failed (.timeout 1))]
    let l := (c.watch inputs).journal id
    calls l = [.quiesce e, .probe e, .capture e archive, .prepare "b" none, .resume e, .discard x] ∧
      (∃ p j, published l = [j] ∧ j.status = .failed ∧ CleanedUp config p j l) ∧
      (c.watch (c.mended inputs)).controller = (c.watch inputs).controller := by
  intro e s config now id x archive c inputs l
  obtain ⟨hjobs, hmended, -⟩ := migration_cleaned_up config s inputs
  have hstatus : (published l).map (·.status) = [.failed] := by decide
  refine ⟨by decide, ?_, hmended⟩
  rcases hjobs id with h | ⟨p, j, -, -, hj, -, hclean⟩
  · rw [show published l = [] from h] at hstatus
    cases hstatus
  · rw [show published l = [j] from hj] at hstatus
    exact ⟨p, j, hj, (List.cons.inj hstatus).1, hclean⟩

end LiveMigration
