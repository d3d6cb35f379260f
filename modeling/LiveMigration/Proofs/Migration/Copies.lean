import LiveMigration.Proofs.Migration.Cleanup
import LiveMigration.Proofs.Migration.Outcome
import Mathlib.Data.List.Perm.Subperm

namespace LiveMigration

open Journal

instance (c : Call) : DecidableEq c.Reply :=
  match c with
  | .probe _ | .measure _ => inferInstanceAs (DecidableEq UInt64)
  | .capture .. | .transfer .. => inferInstanceAs (DecidableEq Snapshot)
  | .quiesce _ | .resume _ | .prepare .. | .restore .. | .teardown _ | .reattach .. | .announce _
  | .detach _ | .discard _ => inferInstanceAs (DecidableEq Unit)

section

variable (config : Config) (p : Plan) (l : List Occurrence)

namespace Journal

def accepted? : Occurrence → Option Plan
  | .accepted p => some p
  | _ => none

def outcome? (c : Call) : Occurrence → Option (Outcome c.Reply)
  | .answered c' o => if h : c' = c then some (h ▸ o) else none
  | _ => none

def outcomes (c : Call) : List (Outcome c.Reply) := l.filterMap (outcome? c)

/-- A copy was started on the target, and no traffic was sent to it. -/
def Unused : Prop := Restored p l ∧ p.traffic config ∉ written l

/-- What is removed from the target is a copy that is not used, and in the end no such copy is left. It
does not count whether there is still a source to go back to. -/
structure Withdrawn : Prop where
  unused : ∀ c, c = .teardown p.target ∨ c = .detach p.target → c ∈ calls l → Unused config p l
  withdrawn : published l ≠ [] → Unused config p l →
    .teardown p.target ∈ calls l ∧ .detach p.target ∈ calls l
  serving : p.policy = .afterForwarding → .answered (.teardown p.source) (.ok ()) ∈ l →
    ¬ Unused config p l

/-- Before the source goes on, a copy is removed from the target if its restore was seen to succeed. -/
structure Parted : Prop where
  removed : ∀ before e after, calls l = before ++ .resume e :: after →
    (.teardown p.target ∈ before ↔ Restored p l) ∧ (.detach p.target ∈ before ↔ Restored p l)
  expired : ∀ d, .answered (.restore d p.target p.restoreOptions) .expired ∈ l →
    .teardown p.target ∉ calls l ∧ .detach p.target ∉ calls l

end Journal

end

variable {config : Config} {p : Plan} {l : List Occurrence} {pr : Progress}

namespace Journal

theorem head?_eq_accepted : l.head?.bind accepted? = some p ↔ l.head? = some (.accepted p) := by
  cases l with
  | nil => simp
  | cons e l =>
    cases e with
    | accepted q => simp [accepted?]
    | _ => simp [accepted?]

instance : Decidable (l.head? = some (.accepted p)) := decidable_of_iff _ head?_eq_accepted

theorem outcome?_eq_some {o : Outcome c.Reply} : outcome? c e = some o ↔ e = .answered c o := by
  constructor
  · intro h
    unfold outcome? at h
    split at h
    · split at h
      · rename_i hc
        subst hc
        cases h
        rfl
      · cases h
    · cases h
  · rintro rfl
    simp [outcome?]

theorem mem_outcomes {o : Outcome c.Reply} : o ∈ outcomes l c ↔ .answered c o ∈ l := by
  simp [outcomes, outcome?_eq_some]

instance (c : Call) (o : Outcome c.Reply) : Decidable (.answered c o ∈ l) :=
  decidable_of_iff (o ∈ outcomes l c) mem_outcomes

end Journal

theorem Plan.mem_before_resume {before after : List Call}
    (hu : before ++ .resume e :: after = p.undoing pr failed ++ pr.discards)
    (hc : c = .teardown p.target ∨ c = .detach p.target) : c ∈ before ↔ pr.restored = true := by
  have hp := p.pairwise_undoing pr failed
  have hr : .resume e ∈ p.undoing pr failed ++ pr.discards := by simp [← hu]
  have hm : c ∈ p.undoing pr failed ++ pr.discards ↔ pr.restored = true := by
    rcases hc with rfl | rfl
    · simp_all [Plan.mem_undoing, Progress.discards]
    · simp_all [Plan.mem_undoing, Progress.discards]
  rw [← hu] at hp hm
  have ha : c ∉ after := by
    intro ha
    have hf := (List.pairwise_cons.1 (List.pairwise_append.1 hp).2.1).1 c ha e rfl
    exact hc.elim hf.1 hf.2
  have hne : c ≠ .resume e := by
    rcases hc with rfl | rfl
    · simp
    · simp
  rw [← hm]
  simp [ha, hne]

def Point.isServed : Point → Bool
  | .waiting (.discarding none _) | .retiring | .tidying none | .closing none => true
  | _ => false

namespace Course

theorem restored_iff (h : Course config p P pr j l) : pr.restored = true ↔ Restored p l := by
  induction h with
  | accepted => simp [Progress.none, Restored]
  | @entered s pr _ _ _ _ _ ih =>
    have hs : (pr.entering s).restored = pr.restored := by
      cases s with
      | _ => rfl
    simp [Restored, hs, ih]
  | @refused _ _ _ _ _ c o _ _ _ _ hr ih =>
    have hne : ∀ d, Occurrence.answered c o ≠ .answered (.restore d p.target p.restoreOptions) (.ok ()) :=
      fun d => answered_ne_of_error hr rfl
    simp [Restored, ih, (hne _).symm]
  | transferred d _ _ ih =>
    rw [apply_ite Progress.restored]
    simp [Progress.keeping, Restored, ih]
  | _ => simp_all [Restored, Progress.keeping]

theorem forwarded_of_isServed (h : Course config p P pr j l) (hP : P.isServed = true) :
    pr.forwarded = true := by
  induction h with
  | cancel _ _ ih => exact ih hP
  | @entered s _ _ _ _ h =>
    cases h.stage_entered rfl with
    | _ => cases hP
  | @detached next _ _ _ _ h =>
    cases next with
    | retire =>
      have hk : p.traffic config ∈ written _ := h.known.1.2
      exact h.forwarded_iff.2 hk
    | _ => cases hP
  | forwarded => rfl
  | kept _ _ ih | retired _ _ _ ih => exact ih rfl
  | @discarding f _ _ _ _ _ ih | @tidied f _ _ _ _ _ ih | @discarded f _ _ _ _ _ _ _ _ _ ih
  | @discardedLast f _ _ _ _ _ _ _ _ _ ih =>
    cases f with
    | none => exact ih rfl
    | some e => cases hP
  | measured | announced =>
    split at hP
    · cases hP
    · cases hP
  | _ => cases hP

theorem forwarded_of_succeeded (h : Course config p (.waiting .finished) pr j l)
    (hs : j.status = .succeeded) : pr.forwarded = true := by
  obtain ⟨f, i, before, now, wall, hc, rfl, -⟩ := h.closed_of_finished rfl
  have hf : decide ((i.conclude f pr.sourceRemoved now wall).status = .succeeded) = f.isNone :=
    i.failed_conclude
  rw [decide_eq_true hs, eq_comm, Option.isNone_iff_eq_none] at hf
  subst hf
  exact hc.forwarded_of_isServed rfl

theorem undone_prefix (h : Course config p P pr j l) :
    ∃ failed, (calls l).filter p.undoes <+: p.undoing pr failed ++ pr.discards := by
  have hu := h.unwinds
  rw [h.undone]
  cases P with
  | waiting s =>
    cases s with
    | removingTarget e =>
      refine ⟨true, ?_⟩
      simp [Point.undone, Plan.undoing, Plan.removals, hu.1, hu.2]
    | detachingTarget e =>
      refine ⟨true, ?_⟩
      simp [Point.undone, Plan.undoing, hu.1]
    | resuming e =>
      refine ⟨true, ?_⟩
      simp [Point.undone, Plan.undoing, hu.1]
    | discarding f left => exact ⟨f.isSome, List.prefix_rfl⟩
    | finished => exact ⟨j.status ≠ .succeeded, List.prefix_rfl⟩
    | _ => exact ⟨true, List.nil_prefix⟩
  | unwinding e =>
    have hf : pr.forwarded = false := hu
    refine ⟨true, ?_⟩
    simp [Point.undone, Plan.undoing, hf]
  | tidying f => exact ⟨f.isSome, List.prefix_append ..⟩
  | closing f => exact ⟨f.isSome, List.prefix_rfl⟩
  | _ => exact ⟨true, List.nil_prefix⟩

theorem unused_iff (h : Course config p P pr j l) :
    Unused config p l ↔ pr.restored = true ∧ pr.forwarded = false := by
  rw [Unused, ← h.restored_iff, ← h.forwarded_iff, Bool.not_eq_true]

theorem withdrawn (h : Course config p (.waiting s) pr j l) : Withdrawn config p l where
  unused := by
    intro c hc hm
    obtain ⟨failed, hu⟩ := h.undone_prefix
    have hd : c ∈ p.undoing pr failed ++ pr.discards := by
      refine hu.subset (List.mem_filter.2 ⟨hm, ?_⟩)
      rcases hc with rfl | rfl
      · simp [Plan.undoes]
      · simp [Plan.undoes]
    rw [h.unused_iff]
    rcases hc with rfl | rfl
    · simp_all [Plan.mem_undoing, Progress.discards]
    · simp_all [Plan.mem_undoing, Progress.discards]
  withdrawn := by
    intro hl hu
    have hs : s = .finished := by
      rw [h.published_eq] at hl
      cases s with
      | finished => rfl
      | _ => exact absurd rfl hl
    subst hs
    rw [h.unused_iff] at hu
    have hn : j.status ≠ .succeeded := by
      intro hj
      simp [h.forwarded_of_succeeded hj] at hu
    rw [h.mem_calls_iff (by simp [Plan.undoes]), h.mem_calls_iff (by simp [Plan.undoes])]
    simp [Plan.mem_undoing, hu, hn]
  serving := by
    rintro hp hs ⟨-, hn⟩
    obtain ⟨before, after, rfl⟩ := List.append_of_mem (mem_calls.1 (h.called_of_answered hs))
    exact hn (mem_written_mono (h.timely _ _ _ rfl rfl hp))

theorem answers_subperm (h : Course config p P pr j l) : (answers l).Subperm (calls l) := by
  rw [List.subperm_ext_iff]
  intro c _
  rw [h.count_calls_eq]
  exact Nat.le_add_right ..

theorem answered_inj (h : Course config p P pr j l) {o : Outcome c.Reply} {o' : Outcome c'.Reply}
    (hm : .answered c o ∈ l) (hm' : .answered c' o' ∈ l) (hk : c.kind.place? = some i)
    (hc : c'.kind = c.kind) : Occurrence.answered c o = .answered c' o' := by
  by_contra hne
  have hp : [Occurrence.answered c o, .answered c' o'].Subperm l :=
    List.subperm_of_subset (by simpa using hne) (by simp [hm, hm'])
  have hl : 2 ≤ (answers l).countP (·.kind = c.kind) := by
    rw [answers, List.countP_filterMap]
    refine Nat.le_trans ?_ (hp.countP_le _)
    simp [answer?, hc]
  have hcalls := h.answers_subperm.countP_le (·.kind = c.kind)
  have hone := h.ascends.kind_once hk
  omega

theorem parted (h : Course config p (.waiting s) pr j l) : Parted p l where
  removed := by
    intro before e after hl
    obtain ⟨failed, rest, hu⟩ := h.undone_prefix
    rw [hl, List.filter_append, List.filter_cons_of_pos rfl, List.append_assoc, List.cons_append] at hu
    have hbefore : ∀ c, c = .teardown p.target ∨ c = .detach p.target →
        (c ∈ before ↔ Restored p l) := by
      intro c hc
      have hd : p.undoes c = true := by
        rcases hc with rfl | rfl
        · simp [Plan.undoes]
        · simp [Plan.undoes]
      rw [← h.restored_iff, ← Plan.mem_before_resume hu hc, List.mem_filter, hd]
      exact (and_iff_left rfl).symm
    exact ⟨hbefore _ (.inl rfl), hbefore _ (.inr rfl)⟩
  expired := by
    intro d hd
    have hr : ¬ Restored p l := by
      rintro ⟨d', hd'⟩
      cases h.answered_inj hd hd' rfl rfl
    constructor
    · intro hc
      exact hr (h.withdrawn.unused _ (.inl rfl) hc).1
    · intro hc
      exact hr (h.withdrawn.unused _ (.inr rfl) hc).1

end Course

/-- However a history goes, a copy that was started on the target is removed again if and only if no traffic
was sent to it. -/
theorem unused_copy_withdrawn (config : Config) (s : Store) (inputs : List Input) (id : JobId) :
    let l := ((Controller.idle config s).watch inputs).journal id
    l = [] ∨ ∃ p, p.id = id ∧ l.head? = some (.accepted p) ∧ Withdrawn config p l := by
  rcases Controller.course_watch config s inputs id with h | ⟨p, stage, pr, j, hp, -, h⟩
  · exact .inl h
  · exact .inr ⟨p, hp, h.head?_eq, h.withdrawn⟩

/-- A source that is removed first, and a target that cannot be reached: the only copy that is left goes. -/
theorem only_copy_withdrawn :
    let e : Endpoint := ⟨⟨⟨10⟩, ⟨.replicate 6 1⟩⟩, "a", 1, "web"⟩
    let s := Store.empty.act (.write none ⟨[.putEndpoint e]⟩)
    let config := Config.plain [⟨"a", "a", 1, "eth0", "/var"⟩, ⟨"b", "b", 2, "eth0", "/var"⟩] []
    let now : Moment := ⟨0, 0, 0⟩
    let p : Plan := ⟨.ofNat 7, e, e.migrated "b" 2 none, .sameIdentity, .beforeRestore, none⟩
    let x : Snapshot := ⟨"x", ⟨10⟩, "a", "/var/x", 5, now.wall⟩
    let l := ((Controller.idle config s).watch (.submit now.wall p.id ⟨⟨10⟩, "b", none⟩ ::
      p.delivered now x ++ [
        .answer now p.id (.teardown e) (.ok ()), .answer now p.id (.detach e) (.ok ()),
        .answer now p.id (.restore x p.target p.restoreOptions) (.ok ()),
        .answer now p.id (.reattach p.target []) (.failed (.timeout 1)),
        .answer now p.id (.teardown p.target) (.ok ())])).journal p.id
    l.head? = some (.accepted p) ∧ .answered (.teardown p.source) (.ok ()) ∈ l ∧ Restored p l ∧
      .teardown p.target ∈ calls l ∧ .detach p.target ∈ calls l := by
  intro e s config now p x l
  exact ⟨by decide, by decide, ⟨x, by decide⟩, by decide, by decide⟩

/-- However a history goes, the source does not go on beside a copy whose restore was seen to succeed. -/
theorem resumed_source_parted (config : Config) (s : Store) (inputs : List Input) (id : JobId) :
    let l := ((Controller.idle config s).watch inputs).journal id
    l = [] ∨ ∃ p, p.id = id ∧ l.head? = some (.accepted p) ∧ Parted p l := by
  rcases Controller.course_watch config s inputs id with h | ⟨p, stage, pr, j, hp, -, h⟩
  · exact .inl h
  · exact .inr ⟨p, hp, h.head?_eq, h.parted⟩

/-- A restore that is given up, but may have come to its end: the source goes on all the same. -/
theorem source_resumed_beside_copy :
    let e : Endpoint := ⟨⟨⟨10⟩, ⟨.replicate 6 1⟩⟩, "a", 1, "web"⟩
    let s := Store.empty.act (.write none ⟨[.putEndpoint e]⟩)
    let config := { Config.plain [⟨"a", "a", 1, "eth0", "/var"⟩, ⟨"b", "b", 2, "eth0", "/var"⟩] [] with
      migration := { MigrationKnobs.default with teardownPolicy := .afterForwarding } }
    let now : Moment := ⟨0, 0, 0⟩
    let p : Plan := ⟨.ofNat 7, e, e.migrated "b" 2 none, .sameIdentity, .afterForwarding, none⟩
    let x : Snapshot := ⟨"x", ⟨10⟩, "a", "/var/x", 5, now.wall⟩
    let l := ((Controller.idle config s).watch (.submit now.wall p.id ⟨⟨10⟩, "b", none⟩ ::
      p.delivered now x ++ [
        .answer now p.id (.restore x p.target p.restoreOptions) .expired])).journal p.id
    l.head? = some (.accepted p) ∧ .answered (.restore x p.target p.restoreOptions) .expired ∈ l ∧
      .resume p.source ∈ calls l ∧ .teardown p.target ∉ calls l := by
  intro e s config now p x l
  exact ⟨by decide, by decide, by decide, by decide⟩

end LiveMigration
