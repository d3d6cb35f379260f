import LiveMigration.Proofs.Controller.Writes
import LiveMigration.Proofs.Migration.Copies

namespace LiveMigration

open Journal

def Error.diagnosis (e : Error) (q : Phase) (sourceRemoved : Bool) : Diagnostic where
  phase := q
  kind := e.kind
  message := e.message
  agentLog := e.agentLog?
  remediation := e.kind.remediation?
  sourceRemoved

namespace Error

variable {e : Error}

theorem root_of_phase? (h : e.phase? = none) : e.root = e := by
  cases e with
  | inPhase => cases h
  | _ => rfl

theorem root_annotated (qs : List Phase) (e : Error) : (qs.foldr inPhase e).root = e.root := by
  induction qs with
  | nil => rfl
  | cons q qs ih => exact ih

theorem within_annotated (q : Phase) (qs : List Phase) (e : Error) :
    qs.foldl (fun e q => e.within q) (e.within q) = e.within q := by
  induction qs with
  | nil => rfl
  | cons q' qs ih => rw [List.foldl_cons, within_within, ih]

theorem ofError_annotated (h : e.phase? = none) (qs : List Phase) (current : Phase) (gone : Bool) :
    Diagnostic.ofError (qs.foldr inPhase e) current gone = e.diagnosis (qs.head?.getD current) gone := by
  have hr : (qs.foldr inPhase e).root = e := (root_annotated qs e).trans (root_of_phase? h)
  have hp : (qs.foldr inPhase e).phase?.getD current = qs.head?.getD current := by
    cases qs with
    | nil => rw [List.foldr_nil, h]; rfl
    | cons q qs => rfl
  simp only [Diagnostic.ofError, diagnosis, hp, kind, agentLog?, hr, root_of_phase? h]

theorem ofError_within (h : e.phase? = none) (q current : Phase) (gone : Bool) :
    Diagnostic.ofError (e.within q) current gone = e.diagnosis q gone := by
  have hw : e.within q = [q].foldr inPhase e := by
    cases e with
    | inPhase => cases h
    | _ => rfl
  rw [hw, ofError_annotated h]
  rfl

end Error

def Plan.phaseOf? (p : Plan) : Call → Option Phase
  | .quiesce _ => some .quiescing
  | .capture .. => some .checkpointing
  | .prepare .. => some .targetPreparing
  | .transfer .. => some .transferring
  | .measure _ => some .verifying
  | .restore .. => some .restoring
  | .reattach .. | .announce _ => some .reattachingNetwork
  | .teardown e | .detach e => if e = p.target then none else some .sourceTeardown
  | .probe _ | .resume _ | .discard _ => none

namespace Journal

def faults (q : Phase) : Option (Except Error α) → List (Phase × Error)
  | some (.error e) => [(q, e)]
  | _ => []

def failure? (config : Config) (p : Plan) : Occurrence → Option (Phase × Error)
  | .answered c o =>
    match p.phaseOf? c, c.result? config.migration o with
    | some q, some (.error e) => some (q, e)
    | _, _ => none
  | .did (.write b (.error e)) =>
    some (if b = p.retireBatch then .sourceTeardown else .forwardingUpdate, e)
  | _ => none

variable (config : Config) (p : Plan) (l m : List Occurrence)

def failures : List (Phase × Error) := l.filterMap (failure? config p)

def mismatches : List (Phase × Error) :=
  (exported l).flatMap fun x => ((measured l).filter (· ≠ x.size)).map fun n =>
    (.verifying, .sizeMismatch x.size n)

def foremost (l : List (Phase × Error)) : List (Phase × Error) :=
  if l.any (·.1 = .checkpointing) then l.filter (·.1 = .checkpointing) else l

/-- What a migration failed of. -/
def causes : List (Phase × Error) := foremost (failures config p l ++ mismatches l)

/-- Where and of what a job ended without success. -/
inductive EndedOf (j : Job) : Phase → Error → Prop
  | failed : j.status = .failed → causes config p l = [(q, e)] → EndedOf j q e
  | cancelled : j.status = .cancelled → causes config p l = [] → q = j.opened.getLast?.getD .idle →
      EndedOf j q .cancelled

variable {config p l m}

theorem Candid.of_append (h : Candid (l ++ m)) : Candid l :=
  fun b e he => h b e (List.mem_append_left m he)

@[simp] theorem failures_append : failures config p (l ++ m) = failures config p l ++ failures config p m :=
  List.filterMap_append

@[simp] theorem failures_cons (e : Occurrence) :
    failures config p (e :: l) = (failure? config p e).toList ++ failures config p l :=
  filterMap_cons_eq l (failure? config p) e

@[simp] theorem failures_nil : failures config p [] = [] := rfl

@[simp] theorem failures_calling (cs : List Call) : failures config p (calling cs) = [] :=
  filterMap_calling (fun _ => rfl) cs

theorem failures_quiet (h : failures config p l = []) (hm : failures config p m = []) :
    failures config p (l ++ m) = [] := by
  rw [failures_append, h, hm, List.append_nil]

theorem failures_ok (c : Call) (a : c.Reply) (hm : failures config p m = []) :
    failures config p (.answered c (.ok a) :: m) = [] := by
  have ha : failure? config p (.answered c (.ok a)) = none := by
    simp only [failure?, Call.result?]
    split
    · next h => cases h
    · rfl
  rw [failures_cons, ha, hm]
  rfl

theorem failures_result {o : Outcome c.Reply} (hq : p.phaseOf? c = some q)
    (h : c.result? config.migration o = some r) :
    failures config p [.answered c o] = faults q (some r) := by
  rw [failures_cons]
  cases r with
  | ok a => simp [failure?, hq, h, faults]
  | error e => simp [failure?, hq, h, faults]

theorem plain_of_failures (hl : Candid l) (h : (q, e) ∈ failures config p l) : e.Plain := by
  obtain ⟨x, hx, he⟩ := List.mem_filterMap.1 h
  cases x with
  | accepted => cases he
  | answered c o =>
    simp only [failure?] at he
    split at he
    · next hr =>
      cases he
      exact Call.plain_of_result? hr
    · cases he
  | did e =>
    cases e with
    | write b r =>
      cases r with
      | error e =>
        cases he
        exact hl _ _ hx
      | ok => cases he
    | _ => cases he

theorem mismatches_of_whole (h : Whole l) : mismatches l = [] := by
  simp only [mismatches, List.flatMap_eq_nil_iff, List.map_eq_nil_iff, List.filter_eq_nil_iff]
  intro x hx n hn
  simpa using h x hx n hn

theorem foremost_eq {e : Error} {fs gs : List (Phase × Error)} (h : fs.Perm ((.checkpointing, e) :: gs))
    (hg : ∀ x ∈ gs, x.1 ≠ .checkpointing) : foremost fs = [(.checkpointing, e)] := by
  have hany : fs.any (·.1 = .checkpointing) = true :=
    List.any_eq_true.2 ⟨_, h.mem_iff.2 List.mem_cons_self, by simp⟩
  have hnone : gs.filter (·.1 = .checkpointing) = [] := List.filter_eq_nil_iff.2 (by simpa using hg)
  have hp := h.filter (·.1 = .checkpointing)
  rw [List.filter_cons_of_pos (by simp), hnone] at hp
  rw [foremost, if_pos hany]
  exact List.perm_singleton.1 hp

theorem foremost_singleton (x : Phase × Error) : foremost [x] = [x] := by
  simp only [foremost]
  split
  · next h =>
    have hx : x.1 = .checkpointing := by simpa using h
    simp [hx]
  · rfl

theorem causes_append (hf : failures config p m = []) (hx : exported m = []) (hn : measured m = []) :
    causes config p (l ++ m) = causes config p l := by
  simp [causes, hf, mismatches, hx, hn]

end Journal

variable {config : Config} {p : Plan} {l m : List Occurrence}

theorem Stage.phaseOf?_of_phase? {s : Stage} (hp : p.source ≠ p.target) (hq : s.phase? = some q)
    (hc : c ∈ s.awaited config p) : p.phaseOf? c = some q := by
  cases s with
  | submitted | probing | pausing | capturing | removingTarget | detachingTarget | resuming | discarding
  | finished => cases hq
  | _ =>
    cases List.mem_singleton.1 hc
    cases hq
    simp [Plan.phaseOf?, hp]

theorem Stage.Sized.whole {s : Stage} (h : s.Sized l) (hs : s.Entered ∨ s.phase?.isSome = true) :
    Whole l := by
  cases s with
  | submitted | quiescing | probing | pausing | capturing | transferring | verifying =>
    exact whole_of_measured h.2
  | removingTarget | detachingTarget | resuming | discarding | finished =>
    rcases hs with hs | hs
    · cases hs
    · cases hs
  | _ => exact h

namespace Point

variable (config p)

structure Traced (opened : List Phase) (l : List Occurrence) (e : Error) (q : Phase) (e' : Error) : Prop where
  within : e = e'.within q
  plain : e'.phase? = none
  cause : e'.root ≠ .cancelled ∧ causes config p l = [(q, e')] ∨
    e' = .cancelled ∧ causes config p l = [] ∧ q = opened.getLast?.getD .idle

def Traces (opened : List Phase) (l : List Occurrence) : Point → Prop
  | .waiting (.capturing a b) | .gathering a b =>
    (failures config p l).Perm (faults .checkpointing a ++ faults .targetPreparing b)
  | .waiting (.removingTarget e) | .waiting (.detachingTarget e) | .waiting (.resuming e)
  | .waiting (.discarding (some e) _) | .failing e | .unwinding e | .tidying (some e)
  | .closing (some e) => ∃ q e', Traced config p opened l e q e'
  | .waiting .finished => True
  | _ => failures config p l = []

variable {config p} {opened : List Phase}

theorem Traced.append (h : Traced config p opened l e q e') (hf : failures config p m = [])
    (hx : exported m = []) (hn : measured m = []) : Traced config p opened (l ++ m) e q e' := by
  refine ⟨h.within, h.plain, ?_⟩
  rw [causes_append hf hx hn]
  exact h.cause

theorem traced_cause (h : e.Plain) (hc : causes config p l = [(q, e)]) :
    ∃ q' e', Traced config p opened l (e.within q) q' e' :=
  ⟨q, e, rfl, h.phase, .inl ⟨h.root, hc⟩⟩

theorem traced_failure (h : e.Plain) (hw : Whole l) (hf : failures config p l = [(q, e)]) :
    ∃ q' e', Traced config p opened l (e.within q) q' e' :=
  traced_cause h (by rw [causes, hf, mismatches_of_whole hw, List.append_nil, foremost_singleton])

theorem traced_cancelled (hf : failures config p l = []) (hw : Whole l)
    (hq : q = opened.getLast?.getD .idle) :
    ∃ q' e', Traced config p opened l (Error.cancelled.within q) q' e' :=
  ⟨q, .cancelled, rfl, rfl, .inr ⟨rfl, by rw [causes, hf, mismatches_of_whole hw]; rfl, hq⟩⟩

theorem traces_entered {s : Stage} (hs : s.Entered) (hf : failures config p l = []) (cs : List Call) :
    Traces config p opened (l ++ calling cs) (.waiting s) := by
  cases hs with
  | capturing => simp [Traces, faults, hf]
  | _ => simp [Traces, hf]

theorem failures_of_traces {s : Stage} (h : Traces config p opened l (.waiting s)) (hq : s.phase?.isSome = true) :
    failures config p l = [] := by
  cases s with
  | submitted | probing | pausing | capturing | removingTarget | detachingTarget | resuming | discarding
  | finished => cases hq
  | _ => exact h

theorem traced_answered {o : Outcome c.Reply} (hf : failures config p l = []) (hw : Whole l)
    (hq : p.phaseOf? c = some q) (hr : c.result? config.migration o = some (.error e)) :
    ∃ q' e', Traced config p opened (l ++ [.answered c o]) (e.within q) q' e' := by
  refine traced_failure (Call.plain_of_result? hr) (hw.append ?_ ?_) ?_
  · simp [exported?_of_error hr]
  · simp [measured?_of_error hr]
  · rw [failures_append, hf, failures_result hq hr]
    rfl

theorem traced_mismatch (hx : exported l = [x]) (hm : measured l = []) (hf : failures config p l = [])
    (hn : n ≠ x.size) (d : Snapshot) : ∃ q' e', Traced config p opened (l ++ [.answered (.measure d) (.ok n)])
      ((Error.sizeMismatch x.size n).within .verifying) q' e' := by
  refine traced_cause ⟨nofun, rfl⟩ ?_
  simp [causes, hf, failure?, Call.result?, mismatches, hx, hm, exported?, measured?, hn, foremost]

theorem traced_capture {r : Except Error Unit} (hl : Candid l) (hm : measured l = [])
    (h : Traces config p opened l (.gathering (some (.error e)) (some r))) :
    ∃ q' e', Traced config p opened l (e.within .checkpointing) q' e' := by
  have he : e.Plain := plain_of_failures hl (h.mem_iff.2 List.mem_cons_self)
  have hc : foremost (failures config p l) = [(.checkpointing, e)] := by
    refine foremost_eq h fun x hx => ?_
    cases r with
    | error e' =>
      cases List.mem_singleton.1 hx
      nofun
    | ok a => cases hx
  refine traced_cause he ?_
  rw [causes, mismatches_of_whole (whole_of_measured hm), List.append_nil, hc]

/-- From the point on at which it cleans up, nothing is added to what a migration failed of. -/
theorem Traces.append (h : Traces config p opened l (.tidying f)) (hf : failures config p m = [])
    (hx : exported m = []) (hn : measured m = []) : Traces config p opened (l ++ m) (.tidying f) := by
  cases f with
  | none => exact failures_quiet h hf
  | some e =>
    obtain ⟨q, e', ht⟩ := h
    exact ⟨q, e', ht.append hf hx hn⟩

theorem traces_discarding_iff : Traces config p opened l (.waiting (.discarding f left)) ↔
    Traces config p opened l (.tidying f) := by
  cases f <;> rfl

theorem traces_closing_iff : Traces config p opened l (.closing f) ↔ Traces config p opened l (.tidying f) := by
  cases f <;> rfl

end Point

theorem Job.phase_enters (qs : List Phase) (j : Job) :
    (qs.foldl (fun j q => j.enter q now) j).phase = qs.getLast?.getD j.phase := by
  induction qs generalizing j with
  | nil => rfl
  | cons q qs ih => rw [List.foldl_cons, ih, List.getLast?_cons]; rfl

namespace Course

theorem phase_eq (h : Course config p P pr j l) (hP : P ≠ .waiting .finished) :
    j.phase = j.opened.getLast?.getD .idle := by
  induction h with
  | accepted ho =>
    obtain ⟨_, _, _, _, rfl⟩ := ho.job_new
    rfl
  | cancel _ _ ih => exact ih hP
  | @entered s _ _ _ _ _ _ ih =>
    rw [Job.phase_enters, Job.opened_enters, List.getLast?_append, ih (by simp)]
    cases s.phases.getLast? <;> rfl
  | refused _ hq _ _ ih =>
    refine ih ?_
    rintro ⟨⟩
    cases hq
  | forwardRefused =>
    rw [Job.opened_enter, List.getLast?_concat]
    rfl
  | forwarded =>
    rw [Job.opened_leave, Job.opened_enter, List.getLast?_concat]
    rfl
  | quiesced _ _ _ ih | captured _ _ _ _ _ ih | prepared _ _ _ _ _ ih | transferred _ _ _ ih
  | measured _ _ ih | detached _ _ ih | restored _ _ ih | announced _ _ ih | drained _ _ _ _ ih =>
    rw [Job.opened_leave]
    exact ih (by simp)
  | gathered _ ih => exact ih (by simp)
  | closed => exact absurd rfl hP
  | _ => simp_all

theorem traces (h : Course config p P pr j l) (hl : Candid l) : P.Traces config p j.opened l := by
  induction h with
  | accepted => rfl
  | cancel _ _ ih => exact ih hl
  | started _ ih | halfway _ _ ih | kept _ _ ih | moved _ _ ih | unrestored _ _ _ ih
  | unresumed _ _ ih => exact ih hl
  | entered _ h _ ih => exact Point.traces_entered (h.stage_entered rfl) (ih hl.of_append) _
  | cancelled h _ ih =>
    exact Point.traced_cancelled (ih hl) (h.sized.whole (.inl (h.stage_entered rfl))) (h.phase_eq (by simp))
  | forwardCancelled h _ ih => exact Point.traced_cancelled (ih hl) h.sized (h.phase_eq (by simp))
  | refused h hq hc hr ih =>
    have hsome := Option.isSome_iff_exists.2 ⟨_, hq⟩
    exact Point.traced_answered (Point.failures_of_traces (ih hl.of_append) hsome) (h.sized.whole (.inr hsome))
      (Stage.phaseOf?_of_phase? h.moves hq hc) hr
  -- A step that succeeds, or that nothing depends on, is no failure.
  | quiesced _ _ _ ih | probed _ _ _ _ ih | woken _ _ ih | transferred _ _ _ ih | restored _ _ ih
  | reattached _ ih | retired _ _ _ ih => exact failures_quiet (ih hl.of_append) rfl
  | drained _ _ _ _ ih =>
    rw [Job.opened_leave]
    exact failures_quiet (ih hl.of_append) rfl
  | tornDown _ ih => exact failures_quiet (ih hl.of_append) (failures_ok (.teardown p.source) () rfl)
  | @detached next _ _ _ _ _ ih =>
    have hf := failures_quiet (ih hl.of_append) (failures_ok (.detach p.source) () failures_nil)
    cases next with
    | _ => exact hf
  | measured _ _ ih | announced _ _ ih | forwarded _ _ _ _ ih =>
    have hf := fun m hm => failures_quiet (m := m) (ih hl.of_append) hm
    split
    · exact hf _ rfl
    · exact hf _ rfl
  -- The failures of the capture and of the preparation are kept until both have ended.
  | captured r _ o _ hr ih =>
    have ih := ih hl.of_append
    rw [Point.Traces, failures_append, failures_result rfl hr]
    exact List.perm_append_comm.trans (ih.append_left _)
  | prepared r _ o _ hr ih =>
    have ih := ih hl.of_append
    rw [Point.Traces, failures_append, failures_result rfl hr]
    simpa [faults] using ih.append_right (faults .targetPreparing (some r))
  | captureFailed h ih => exact Point.traced_capture hl h.sized.2 (ih hl)
  | prepareFailed h ih =>
    have hf := List.perm_singleton.1 (ih hl)
    have he := plain_of_failures hl (hf ▸ List.mem_singleton_self _)
    exact Point.traced_failure he (whole_of_measured h.sized.2) hf
  | gathered _ ih => exact List.perm_nil.1 (ih hl)
  | mismatched h hn ih => exact Point.traced_mismatch h.sized.1 h.sized.2 (ih hl.of_append) hn _
  | forwardRefused e _ h _ ih =>
    have hf : failures config p _ = [] := ih hl.of_append
    refine Point.traced_failure (hl _ _ List.mem_concat_self) (Whole.append h.sized rfl rfl) ?_
    simp [hf, failure?, Plan.traffic_ne_retireBatch]
  | retireRefused e h _ ih =>
    have hf : failures config p _ = [] := ih hl.of_append
    refine Point.traced_failure (hl _ _ List.mem_concat_self) (Whole.append h.sized rfl rfl) ?_
    simp [hf, failure?]
  | removing _ _ _ ih | resuming _ _ ih | resumed _ _ ih =>
    obtain ⟨q, e', ht⟩ := ih hl.of_append
    exact ⟨q, e', ht.append rfl rfl rfl⟩
  | targetRemoved _ _ ih | targetDetached _ _ ih =>
    obtain ⟨q, e', ht⟩ := ih hl.of_append
    exact ⟨q, e', ht.append (by simp [failure?, Plan.phaseOf?]) rfl rfl⟩
  | discarding _ _ ih =>
    exact Point.traces_discarding_iff.2
      ((ih hl.of_append).append (failures_calling _) (exported_calling _) (measured_calling _))
  | discarded _ _ _ _ ih =>
    exact Point.traces_discarding_iff.2 ((Point.traces_discarding_iff.1 (ih hl.of_append)).append rfl rfl rfl)
  | discardedLast _ _ _ _ ih =>
    exact Point.traces_closing_iff.2 ((Point.traces_discarding_iff.1 (ih hl.of_append)).append rfl rfl rfl)
  | tidied _ _ ih => exact Point.traces_closing_iff.2 (ih hl)
  | closed => trivial

theorem diagnosed (h : Course config p (.waiting s) pr j l) (hl : Candid l) (ht : j.isTerminal = true)
    (hs : j.status ≠ .succeeded) : ∃ q e, EndedOf config p l j q e ∧ e.phase? = none ∧
      j.diagnostic = some (e.diagnosis q (decide (.sourceTeardown ∈ j.opened))) := by
  obtain ⟨f, i, before, now, wall, hc, rfl, rfl⟩ := h.closed_of_finished (h.finished_of_terminal ht)
  cases f with
  | none => exact absurd rfl hs
  | some e₀ =>
    obtain ⟨q, e, hq⟩ := hc.traces hl.of_append
    have hgone : pr.sourceRemoved = decide (.sourceTeardown ∈ i.opened) := by
      rw [Bool.eq_iff_iff, hc.sourceRemoved_iff, decide_eq_true_iff]
    refine ⟨q, e, ?_, hq.plain, ?_⟩
    · have hcauses : causes config p (before ++ [.did (.publish (i.conclude (some e₀) pr.sourceRemoved now
          wall))]) = causes config p before := causes_append rfl rfl rfl
      rcases hq.cause with ⟨hr, hcause⟩ | ⟨rfl, hcause, hlast⟩
      · refine .failed ?_ (hcauses.trans hcause)
        rw [i.status_conclude, hq.within, Error.root_within, if_neg hr]
      · refine .cancelled ?_ (hcauses.trans hcause) (by rw [Job.opened_conclude, hlast])
        rw [i.status_conclude, hq.within]
        rfl
    · rw [Job.opened_conclude, ← hgone, ← Error.ofError_within hq.plain q i.phase, ← hq.within]
      simp only [Job.conclude]
      split
      · rfl
      · rfl

end Course

namespace Watch

variable {w : Watch} {id : JobId}

theorem candid_step (hw : w.Sound) (h : Candid (w.journal id)) (i : Input) :
    Candid ((w.step i).journal id) := by
  rw [journal_step]
  cases hw.fate i id with
  | spared _ _ hnil => simpa [hnil] using h
  | accepted _ _ _ _ hl => simpa [hl, Candid] using h
  | cancelled _ _ _ _ _ hnil => simpa [hnil] using h
  | @turned j r before t ht =>
    intro b e hm
    simp only [ht.log, List.mem_append, ht.before_idle, false_or] at hm
    rcases hm with hm | hm
    · exact h b e hm
    · exact ht.yields.of_start.1.candid b e hm

theorem candid_foldl (hw : w.Sound) (h : Candid (w.journal id)) (inputs : List Input) :
    Candid ((inputs.foldl step w).journal id) :=
  foldl_induction (q := fun _ => True) (P := fun w => Candid (w.journal id))
    (fun _ i hw _ h => candid_step hw h i) (fun _ _ => trivial) hw h

end Watch

/-- However a history goes, the diagnostic of a job that did not succeed tells where and of what it ended. It
tells the same however often the error is put into phases, and whatever becomes of the calls that clean up. -/
theorem diagnostic_tells_cause (config : Config) (s : Store) (inputs : List Input) (id : JobId) (j : Job)
    (hj : ((Controller.idle config s).watch inputs).controller.job? id = some j)
    (ht : j.isTerminal = true) (hs : j.status ≠ .succeeded) :
    let c := Controller.idle config s
    let l := (c.watch inputs).journal id
    let gone := decide (.sourceTeardown ∈ j.opened)
    ∃ p q e, l.head? = some (.accepted p) ∧ EndedOf config p l j q e ∧
      j.diagnostic = some (e.diagnosis q gone) ∧
      (∀ (qs : List Phase) current,
        Diagnostic.ofError (qs.foldl (fun e q => e.within q) (e.within q)) current gone = e.diagnosis q gone) ∧
      (∀ (qs : List Phase) current, Diagnostic.ofError (qs.foldr .inPhase e) current gone =
        e.diagnosis (qs.head?.getD current) gone) ∧
      (c.watch (c.mended inputs)).controller.job? id = some j := by
  intro c l gone
  have hw : (c.watch inputs).Sound := Watch.sound_watch config s inputs
  obtain ⟨p, stage, pr, h⟩ := (hw.stands id).course_of_job? hj
  rw [show (c.watch inputs).controller.config = config from Watch.config_foldl inputs] at h
  have hl : Candid l := Watch.candid_foldl (Watch.sound_idle config s) (fun _ _ h => nomatch h) inputs
  obtain ⟨q, e, hc, he, hd⟩ := h.diagnosed hl ht hs
  refine ⟨p, q, e, h.head?_eq, hc, hd, fun qs current => ?_, fun qs current => ?_, ?_⟩
  · rw [Error.within_annotated, Error.ofError_within he]
  · exact Error.ofError_annotated he qs current gone
  · have hm := (Watch.foldl_mended (w := ⟨c, []⟩) rfl (fun _ => rfl) inputs).1
    rw [← hj]
    exact congrArg (·.job? id) hm

theorem diagnostic_tells_cause_of_capture :
    let e : Endpoint := ⟨⟨⟨10⟩, ⟨.replicate 6 1⟩⟩, "a", 1, "web"⟩
    let s := Store.empty.act (.write none ⟨[.putEndpoint e]⟩)
    let config := Config.plain [⟨"a", "a", 1, "eth0", "/var"⟩, ⟨"b", "b", 2, "eth0", "/var"⟩] []
    let now : Moment := ⟨0, 0, 0⟩
    let p : Plan := ⟨.ofNat 7, e, e.migrated "b" 2 none, .sameIdentity, .beforeRestore, none⟩
    let c := Controller.idle config s
    let inputs : List Input := [.submit now.wall p.id ⟨⟨10⟩, "b", none⟩, .start now p.id,
      .answer now p.id (.quiesce e) (.ok ()), .answer now p.id (.probe e) (.ok 0),
      .answer now p.id (.prepare "b" none) .expired,
      .answer now p.id (.capture e p.snapshotId) (.failed (.io "disk full")),
      .answer now p.id (.resume e) (.failed (.timeout 1))]
    ∃ j, (c.watch inputs).controller.job? p.id = some j ∧ j.status = .failed ∧
      j.diagnostic = some ((Error.ofHost (.io "disk full")).diagnosis .checkpointing false) ∧
      (c.watch (c.mended inputs)).controller.job? p.id = some j := by
  intro e s config now p c inputs
  have hj : ((c.watch inputs).controller.job? p.id).any (fun j => j.status = .failed ∧
      decide (.sourceTeardown ∈ j.opened) = false) = true := by decide
  obtain ⟨j, hj, hs⟩ := (Option.any_eq_true ..).1 hj
  obtain ⟨hs, hgone⟩ := of_decide_eq_true hs
  have ht : j.isTerminal = true := by rw [Job.isTerminal, hs]; rfl
  obtain ⟨p', q, e', hp, hc, hd, -, -, hm⟩ :=
    diagnostic_tells_cause config s inputs p.id j hj ht (by simp [hs])
  refine ⟨j, hj, hs, ?_, hm⟩
  have hhead : ((c.watch inputs).journal p.id).head? = some (.accepted p) := by decide
  cases hp.symm.trans hhead
  have hcauses : causes config p ((c.watch inputs).journal p.id) =
      [(.checkpointing, Error.ofHost (.io "disk full"))] := by decide
  cases hc with
  | failed _ h =>
    cases h.symm.trans hcauses
    rw [hd, hgone]
  | cancelled h => cases hs.symm.trans h

end LiveMigration
