import LiveMigration.Proofs.Migration.Progress

namespace LiveMigration

open Journal

namespace Journal

variable (l m : List Occurrence)

def answer? : Occurrence → Option Call
  | .answered c _ => some c
  | _ => none

def answers : List Call := l.filterMap answer?

@[simp] theorem answers_nil : answers [] = [] := rfl
@[simp] theorem answers_append : answers (l ++ m) = answers l ++ answers m := List.filterMap_append

@[simp] theorem answers_cons (e : Occurrence) : answers (e :: l) = (answer? e).toList ++ answers l :=
  filterMap_cons_eq l answer? e

variable {l} in
theorem mem_answers (h : .answered c o ∈ l) : c ∈ answers l := List.mem_filterMap.2 ⟨_, h, rfl⟩

@[simp] theorem answers_calling (cs : List Call) : answers (calling cs) = [] :=
  filterMap_calling (fun _ => rfl) cs

end Journal

variable {config : Config} {p : Plan} {l : List Occurrence}

def Point.awaited (config : Config) (p : Plan) : Point → List Call
  | .waiting s => s.awaited config p
  | .gathering a b => (Stage.capturing a b).awaited config p
  | _ => []

theorem Stage.awaited_of_phase? {s : Stage} (hq : s.phase? = some q) (hc : c ∈ s.awaited config p) :
    s.awaited config p = [c] := by
  cases s with
  | submitted | probing | pausing | capturing | removingTarget | detachingTarget | resuming | discarding
  | finished => cases hq
  | _ => rw [List.mem_singleton.1 hc]; rfl

namespace Course

theorem count_calls_eq (h : Course config p P pr j l) (c : Call) :
    (calls l).count c = (answers l).count c + (P.awaited config p).count c := by
  induction h with
  | accepted => rfl
  | cancel _ _ ih => exact ih
  | @entered s _ _ l _ _ _ ih =>
    simp only [calls_append, calls_calling, answers_append, answers_calling, List.count_append, ih]
    rfl
  | @refused s _ _ _ _ c' _ _ _ hq hc _ ih =>
    have ha : (Point.waiting s).awaited config p = [c'] := Stage.awaited_of_phase? hq hc
    rw [ha] at ih
    simp [ih, answer?, call?, Point.awaited]
  | captured _ _ _ _ _ ih | prepared _ _ _ _ _ ih =>
    simp only [Point.awaited, Stage.awaited, List.count_append, Option.isNone_none, if_true] at ih
    simp [ih, answer?, call?, Point.awaited, Stage.awaited]
    omega
  | measured _ _ ih | announced _ _ ih | forwarded _ _ _ _ ih =>
    split
    · simp [ih, answer?, call?, Point.awaited, Stage.awaited]
    · simp [ih, answer?, call?, Point.awaited, Stage.awaited]
  | @detached next _ _ _ _ _ ih =>
    cases next with
    | _ => simp [ih, answer?, call?, Point.awaited, Stage.awaited, Sequel.point]
  | @discarded f left _ _ _ s _ _ hs _ ih =>
    have hp := ((List.perm_cons_erase hs).map Call.discard).count_eq c
    simp [ih, answer?, call?, Point.awaited, Stage.awaited, hp, List.count_cons]
    omega
  | @discardedLast f left _ _ _ s _ _ hs he ih =>
    have hp := ((List.perm_cons_erase hs).map Call.discard).count_eq c
    simp [ih, answer?, call?, Point.awaited, Stage.awaited, hp, he]
  | _ => simp_all [Point.awaited, Stage.awaited, answer?, call?]

end Course

namespace Journal

def exported? : Occurrence → Option Snapshot
  | .answered (.capture ..) (.ok x) => some x
  | _ => none

def measured? : Occurrence → Option UInt64
  | .answered (.measure _) (.ok n) => some n
  | _ => none

variable (l m : List Occurrence)

def exported : List Snapshot := l.filterMap exported?

def measured : List UInt64 := l.filterMap measured?

/-- Nothing was lost on the way, as far as that was looked at. -/
def Whole : Prop := ∀ x ∈ exported l, ∀ n ∈ measured l, n = x.size

@[simp] theorem exported_nil : exported [] = [] := rfl
@[simp] theorem measured_nil : measured [] = [] := rfl
@[simp] theorem exported_append : exported (l ++ m) = exported l ++ exported m := List.filterMap_append
@[simp] theorem measured_append : measured (l ++ m) = measured l ++ measured m := List.filterMap_append

@[simp] theorem exported_cons (e : Occurrence) :
    exported (e :: l) = (exported? e).toList ++ exported l :=
  filterMap_cons_eq l exported? e

@[simp] theorem measured_cons (e : Occurrence) :
    measured (e :: l) = (measured? e).toList ++ measured l :=
  filterMap_cons_eq l measured? e

@[simp] theorem exported_calling (cs : List Call) : exported (calling cs) = [] :=
  filterMap_calling (fun _ => rfl) cs

@[simp] theorem measured_calling (cs : List Call) : measured (calling cs) = [] :=
  filterMap_calling (fun _ => rfl) cs

variable {l m} in
theorem Whole.append (h : Whole l) (hx : exported m = []) (hn : measured m = []) : Whole (l ++ m) := by
  simpa [Whole, hx, hn] using h

theorem whole_of_measured {l : List Occurrence} (h : measured l = []) : Whole l := by
  simp [Whole, h]

theorem exported?_of_error {o : Outcome c.Reply} (h : c.result? knobs o = some (.error e)) :
    exported? (.answered c o) = none := by
  cases o with
  | ok a => cases h
  | _ => cases c <;> rfl

theorem measured?_of_error {o : Outcome c.Reply} (h : c.result? knobs o = some (.error e)) :
    measured? (.answered c o) = none := by
  cases o with
  | ok a => cases h
  | _ => cases c <;> rfl

end Journal

def Stage.Sized (l : List Occurrence) : Stage → Prop
  | .submitted | .quiescing | .probing _ | .pausing _ => exported l = [] ∧ measured l = []
  | .capturing a _ => exported l = Point.taken a ∧ measured l = []
  | .transferring x | .verifying x _ => exported l = [x] ∧ measured l = []
  | .removingTarget _ | .detachingTarget _ | .resuming _ | .discarding (some _) _ | .finished => True
  | _ => Whole l

def Point.Sized (l : List Occurrence) : Point → Prop
  | .waiting s | .entering s => s.Sized l
  | .gathering a _ => exported l = taken a ∧ measured l = []
  | .forwarding | .retiring | .tidying none | .closing none => Whole l
  | _ => True

namespace Course

theorem sized (h : Course config p P pr j l) : P.Sized l := by
  induction h with
  | accepted => exact ⟨rfl, rfl⟩
  | cancel _ _ ih => exact ih
  | @entered s _ _ l _ h _ ih =>
    have hl : s.Sized (l ++ calling (s.awaited config p)) = s.Sized l := by
      cases s with
      | discarding f left =>
        cases f with
        | _ => simp [Stage.Sized, Whole]
      | _ => simp [Stage.Sized, Whole]
    exact hl.mpr ih
  | captured r _ o _ hr ih =>
    cases r with
    | error e =>
      simpa [Point.Sized, Stage.Sized, Point.taken, exported?_of_error hr, measured?_of_error hr] using ih
    | ok x =>
      cases Call.result?_eq_ok.1 hr
      simpa [Point.Sized, Stage.Sized, Point.taken, exported?, measured?] using ih
  | quiesced _ _ _ ih | probed _ _ _ _ ih | woken _ _ ih | drained _ _ _ _ ih | prepared _ _ _ _ _ ih
  | transferred _ _ _ ih => simpa [Point.Sized, Stage.Sized, Point.taken, exported?, measured?] using ih
  | @measured x d _ _ l _ _ ih =>
    have hw : Whole (l ++ [.answered (.measure d) (.ok x.size)]) := by
      simp [Whole, exported?, measured?, ih.1, ih.2]
    split
    · exact hw
    · exact hw
  | started _ ih | halfway _ _ ih | gathered _ ih | kept _ _ ih => exact ih
  | tornDown _ ih | restored _ _ ih | reattached _ ih | retired _ _ _ ih => exact ih.append rfl rfl
  | @detached next _ _ _ _ _ ih =>
    have hw := Whole.append (m := [.answered (.detach p.source) (.ok ())]) ih rfl rfl
    cases next with
    | _ => exact hw
  | announced _ _ ih | forwarded _ _ _ _ ih =>
    have hw := fun e hx hn => Whole.append (m := [e]) ih hx hn
    split
    · exact hw _ rfl rfl
    · exact hw _ rfl rfl
  | @discarding f _ _ _ _ _ ih =>
    cases f with
    | none => exact ih.append (exported_calling _) (measured_calling _)
    | some e => trivial
  | @discarded f _ _ _ _ _ _ _ _ _ ih | @discardedLast f _ _ _ _ _ _ _ _ _ ih =>
    cases f with
    | none => exact Whole.append ih rfl rfl
    | some e => trivial
  | @tidied f _ _ _ _ _ ih =>
    cases f with
    | none => exact ih
    | some e => trivial
  | _ => trivial

end Course

def Plan.isVital (p : Plan) : Call → Bool
  | .probe _ | .resume _ | .discard _ => false
  | .teardown e | .detach e => e ≠ p.target
  | _ => true

namespace Journal

def isFailure (config : Config) (p : Plan) : Occurrence → Bool
  | .answered c o => if p.isVital c then (c.result? config.migration o).any fun r => !r.isOk else false
  | _ => false

/-- A call that the migration depends on failed or took too long, or an archive was found to have another
size than it had where it was made. -/
def Broken (config : Config) (p : Plan) (l : List Occurrence) : Prop :=
  l.any (isFailure config p) = true ∨ ¬ Whole l

end Journal

def Point.Failed (status : JobStatus) : Point → Prop
  | .waiting (.capturing a b) | .gathering a b =>
    (a.any fun r => !r.isOk) = true ∨ (b.any fun r => !r.isOk) = true
  | .waiting (.removingTarget e) | .waiting (.detachingTarget e) | .waiting (.resuming e)
  | .waiting (.discarding (some e) _) | .failing e | .unwinding e | .tidying (some e)
  | .closing (some e) => e.root ≠ .cancelled
  | .waiting .finished => status = .failed
  | _ => False

def Point.Plain : Point → Prop
  | .waiting (.capturing a b) | .gathering a b =>
    (∀ e, a = some (.error e) → e.root ≠ .cancelled) ∧ ∀ e, b = some (.error e) → e.root ≠ .cancelled
  | _ => True

namespace Error

structure Plain (e : Error) : Prop where
  root : e.root ≠ .cancelled
  phase : e.phase? = none

@[grind .] theorem plain_notFound (r : Missing) : (notFound r).Plain := ⟨nofun, rfl⟩
@[grind .] theorem plain_conflict (r : Clash) : (conflict r).Plain := ⟨nofun, rfl⟩
@[grind .] theorem plain_integrity (r : Dangling) : (integrity r).Plain := ⟨nofun, rfl⟩
@[grind .] theorem plain_invalid (r : Malformed) : (invalid r).Plain := ⟨nofun, rfl⟩

theorem Plain.root_within {e : Error} (h : e.Plain) (q : Phase) : (e.within q).root ≠ .cancelled := by
  rw [Error.root_within]
  exact h.root

theorem Plain.phase_within {e : Error} (h : e.Plain) (q : Phase) : (e.within q).phase? = some q := by
  cases e with
  | inPhase => cases h.phase
  | _ => rfl

end Error

theorem Call.plain_of_result? {o : Outcome α} (h : Call.result? knobs c o = some (.error e)) :
    e.Plain := by
  cases o with
  | ok a => cases h
  | failed e =>
    cases h
    cases e with
    | _ => exact ⟨nofun, rfl⟩
  | expired =>
    cases c with
    | capture | prepare | restore | transfer =>
      cases h
      exact ⟨nofun, rfl⟩
    | _ => cases h

namespace Journal

variable {m : List Occurrence}

theorem broken_append_iff (hm : m.any (isFailure config p) = false) (hx : exported m = [])
    (hn : measured m = []) : Broken config p (l ++ m) ↔ Broken config p l := by
  simp only [Broken, List.any_append, hm, Bool.or_false, Whole, exported_append, measured_append, hx, hn,
    List.append_nil]

theorem broken_calling (cs : List Call) : Broken config p (l ++ calling cs) ↔ Broken config p l :=
  broken_append_iff (by simp [calling, isFailure]) (exported_calling cs) (measured_calling cs)

theorem broken_iff_of_whole (h : Whole l) :
    Broken config p l ↔ l.any (isFailure config p) = true := by
  simp [Broken, h]

theorem attempted_of_append (h : attempted (l ++ m) = []) : attempted l = [] := by
  rw [attempted_append, List.append_eq_nil_iff] at h
  exact h.1

theorem isFailure_ok (config : Config) (p : Plan) (c : Call) (a : c.Reply) :
    isFailure config p (.answered c (.ok a)) = false := by
  simp [isFailure, Call.result?, Except.isOk, Except.toBool]

theorem isFailure_of_result? {o : Outcome c.Reply} (hc : p.isVital c = true)
    (h : c.result? config.migration o = some r) :
    isFailure config p (.answered c o) = !r.isOk := by
  simp [isFailure, hc, h]

theorem broken_ok_iff (c : Call) (a : c.Reply) (hx : exported? (.answered c (.ok a)) = none)
    (hn : measured? (.answered c (.ok a)) = none) (es : List Effect) :
    Broken config p (l ++ .answered c (.ok a) :: es.map .did) ↔ Broken config p l := by
  refine broken_append_iff ?_ ?_ ?_
  · rw [List.any_cons, isFailure_ok, Bool.false_or, List.any_map]
    exact List.any_eq_false.2 fun _ _ => nofun
  · rw [exported_cons, hx]
    exact List.filterMap_map.trans (List.filterMap_eq_nil_iff.2 fun _ _ => rfl)
  · rw [measured_cons, hn]
    exact List.filterMap_map.trans (List.filterMap_eq_nil_iff.2 fun _ _ => rfl)

theorem broken_answered_iff {o : Outcome c.Reply} (hl : measured l = []) (hm : measured? (.answered c o) = none)
    (hc : p.isVital c = true) (h : c.result? config.migration o = some r) :
    Broken config p (l ++ [.answered c o]) ↔ Broken config p l ∨ r.isOk = false := by
  have hnew : measured (l ++ [.answered c o]) = [] := by simp [hl, hm]
  rw [broken_iff_of_whole (whole_of_measured hl), broken_iff_of_whole (whole_of_measured hnew), List.any_append,
    Bool.or_eq_true]
  simp [isFailure_of_result? hc h]

theorem broken_measured_iff (hx : exported l = [x]) (hn : measured l = []) (d : Snapshot) (n : UInt64) :
    Broken config p (l ++ [.answered (.measure d) (.ok n)]) ↔ Broken config p l ∨ n ≠ x.size := by
  have hf := isFailure_ok config p (.measure d) n
  rw [broken_iff_of_whole (whole_of_measured hn), Broken, List.any_append, List.any_cons, hf]
  simp [Whole, hx, hn, exported?, measured?]

end Journal

theorem Stage.isVital_of_phase? {s : Stage} (hp : p.source ≠ p.target) (hq : s.phase? = some q)
    (hc : c ∈ s.awaited config p) : p.isVital c = true := by
  cases s with
  | submitted | probing | pausing | capturing | removingTarget | detachingTarget | resuming | discarding
  | finished => cases hq
  | _ =>
    cases List.mem_singleton.1 hc
    simp [Plan.isVital, hp]

namespace Course

theorem plain (h : Course config p P pr j l) : P.Plain := by
  induction h with
  | cancel _ _ ih => exact ih
  | entered _ h =>
    cases h.stage_entered rfl with
    | capturing => exact ⟨nofun, nofun⟩
    | _ => trivial
  | captured r _ o _ hr ih =>
    refine ⟨?_, ih.2⟩
    rintro e ⟨⟩
    exact (Call.plain_of_result? hr).root
  | prepared r _ o _ hr ih =>
    refine ⟨ih.1, ?_⟩
    rintro e ⟨⟩
    exact (Call.plain_of_result? hr).root
  | halfway _ _ ih => exact ih
  | @detached next =>
    cases next with
    | _ => trivial
  | measured | announced | forwarded =>
    split
    · trivial
    · trivial
  | _ => trivial

theorem not_failed_of_entered {s : Stage} (hs : s.Entered) : ¬ Point.Failed status (.waiting s) := by
  cases hs with
  | capturing => simp [Point.Failed]
  | _ => exact id

theorem failed_conclude_iff (j : Job) : (j.conclude f gone now wall).status = .failed ↔
    Point.Failed j.status (.closing f) := by
  cases f with
  | none => exact iff_of_false nofun id
  | some e =>
    rw [j.status_conclude]
    simp [Point.Failed]

/-- As long as a migration has moved no traffic, it has failed just if something is broken. -/
theorem broken_iff (h : Course config p P pr j l) (hw : attempted l = []) :
    Broken config p l ↔ P.Failed j.status := by
  induction h with
  | accepted => simp [Broken, isFailure, Whole, Point.Failed, exported?, measured?]
  | cancel h hj ih => exact ih hw
  | started _ ih | halfway _ _ ih | kept _ _ ih | unrestored _ _ _ ih | moved _ _ ih
  | unresumed _ _ ih => exact ih hw
  | entered _ h _ ih =>
    rw [broken_calling, ih (attempted_of_append hw)]
    exact iff_of_false id (not_failed_of_entered (h.stage_entered rfl))
  -- A cancelled migration did not fail, and nothing was broken before.
  | cancelled _ _ ih | forwardCancelled _ _ ih =>
    refine (ih hw).trans ?_
    simp [Point.Failed, Error.root]
  | refused h hq hc hr ih =>
    refine iff_of_true (.inl ?_) ?_
    · have hf := isFailure_of_result? (Stage.isVital_of_phase? h.moves hq hc) hr
      simp [hf, Except.isOk, Except.toBool]
    · simpa [Point.Failed] using (Call.plain_of_result? hr).root
  | quiesced _ _ _ ih | probed _ _ _ _ ih | woken _ _ ih | drained _ _ _ _ ih | transferred _ _ _ ih
  | restored _ _ ih | reattached _ ih | resuming _ _ ih | resumed _ _ ih | removing _ _ _ ih =>
    exact (broken_append_iff rfl rfl rfl).trans (ih (attempted_of_append hw))
  | tornDown _ ih =>
    exact (broken_ok_iff (.teardown p.source) () rfl rfl [_]).trans (ih (attempted_of_append hw))
  | @detached next _ _ _ _ _ ih =>
    refine (broken_ok_iff (.detach p.source) () rfl rfl []).trans ((ih (attempted_of_append hw)).trans ?_)
    cases next <;> rfl
  | announced _ _ ih =>
    refine (broken_append_iff rfl rfl rfl).trans ((ih (attempted_of_append hw)).trans ?_)
    split <;> rfl
  | targetRemoved _ _ ih | targetDetached _ _ ih =>
    exact (broken_append_iff (by simp [isFailure, Plan.isVital]) rfl rfl).trans
      (ih (attempted_of_append hw))
  -- The failures of the capture and of the preparation are kept until both have ended.
  | captured r _ o h hr ih =>
    rw [broken_answered_iff h.sized.2 rfl rfl hr, ih (attempted_of_append hw)]
    simp [Point.Failed, or_comm]
  | prepared r _ o h hr ih =>
    rw [broken_answered_iff h.sized.2 rfl rfl hr, ih (attempted_of_append hw)]
    simp [Point.Failed]
  | captureFailed h ih =>
    refine (ih hw).trans (iff_of_true (.inl rfl) ?_)
    simpa [Point.Failed] using h.plain.1 _ rfl
  | prepareFailed h ih =>
    refine (ih hw).trans (iff_of_true (.inr rfl) ?_)
    simpa [Point.Failed] using h.plain.2 _ rfl
  | gathered _ ih =>
    refine (ih hw).trans (iff_of_false ?_ id)
    simp [Point.Failed, Except.isOk, Except.toBool]
  | mismatched h hn =>
    rw [broken_measured_iff h.sized.1 h.sized.2]
    exact iff_of_true (.inr hn) nofun
  | measured _ h ih =>
    rw [broken_measured_iff h.sized.1 h.sized.2, ih (attempted_of_append hw)]
    simp [Point.Failed]
  | forwardRefused | forwarded | retireRefused | retired => simp [attempt?] at hw
  -- The end keeps the failure that it was reached with.
  | @discarding f _ _ _ _ _ ih =>
    refine (broken_calling _).trans ?_
    cases f with
    | _ => exact ih (attempted_of_append hw)
  | @discarded f _ _ _ _ _ _ _ _ _ ih | @discardedLast f _ _ _ _ _ _ _ _ _ ih =>
    refine (broken_append_iff rfl rfl rfl).trans ?_
    cases f with
    | _ => exact ih (attempted_of_append hw)
  | @tidied f _ _ _ _ _ ih =>
    cases f with
    | _ => exact ih hw
  | closed _ _ _ ih =>
    exact (broken_append_iff rfl rfl rfl).trans ((ih (attempted_of_append hw)).trans (failed_conclude_iff _).symm)

end Course

end LiveMigration
