import LiveMigration.Proofs.Migration.Commitment
import LiveMigration.Proofs.Migration.Failure
import LiveMigration.Proofs.Migration.Order

namespace LiveMigration

open Journal

section

variable (config : Config) (p : Plan) (l : List Occurrence)

namespace Plan

def batches : List Batch :=
  match p.mode with
  | .sameIdentity => [p.traffic config]
  | .memberRebind => [p.traffic config, p.retireBatch]

/-- What a migration can write: nothing, the batch that moves traffic, or a replacement that one and then
the one that drops the records of the source. -/
def Writes (bs : List Batch) : Prop :=
  bs = [] ∨ bs = [p.traffic config] ∨
    p.mode = .memberRebind ∧ bs = [p.traffic config, p.retireBatch]

end Plan

namespace Journal

/-- What a job wrote to the store, and what its end says of that. -/
structure Accounted (j : Job) : Prop where
  writes : p.Writes config (written l)
  succeeded : j.isTerminal = true →
    (j.status = .succeeded ↔ written l = p.batches config ∧ SourceGone p l)
  cancelled : j.status = .cancelled → written l = []
  failed : j.status = .failed → written l ≠ [] →
    ∃ d, j.diagnostic = some d ∧ d.phase = .sourceTeardown

def Took (bs : List Batch) : Prop := attempted l = bs ∧ written l = bs

def Detached : Prop := .answered (.detach p.source) (.ok ()) ∈ l

structure Untouched : Prop where
  took : Took l []
  attached : p.policy = .afterForwarding → ¬ Detached p l

structure Moved : Prop where
  took : Took l [p.traffic config]
  attached : ¬ Detached p l

structure Done : Prop where
  took : Took l (p.batches config)
  gone : SourceGone p l

inductive Missed (e : Error) : Prop
  | untouched : Took l [] → Missed e
  | refused : attempted l = [p.traffic config] → written l = [] → Missed e
  | moved : Moved config p l → e.root ≠ .cancelled → e.phase? = some .sourceTeardown → Missed e
  | unretired : p.mode = .memberRebind → attempted l = [p.traffic config, p.retireBatch] →
      written l = [p.traffic config] → e.root ≠ .cancelled → e.phase? = some .sourceTeardown → Missed e

def Ended : Option Error → Prop
  | none => Done config p l
  | some e => Missed config p l e

structure Quiet : Prop where
  unwritten : attempted l = []
  attached : ¬ Detached p l

/-- The store does not refuse to drop the records of a source with an error that is not its own. -/
def Honest : Prop := ∀ e, .did (.write p.retireBatch (.error e)) ∈ l → e.Plain

def Candid : Prop := ∀ b e, .did (.write b (.error e)) ∈ l → e.Plain

end Journal

def Stage.Accounts : Stage → Prop
  | .removingSource .retire | .detachingSource .retire => Moved config p l
  | .removingTarget e | .detachingTarget e | .resuming e => Missed config p l e
  | .discarding f _ => Ended config p l f
  | .finished => ∃ f, Ended config p l f
  | _ => Untouched p l

def Point.Accounts : Point → Prop
  | .waiting s | .entering s => s.Accounts config p l
  | .gathering .. | .forwarding => Untouched p l
  | .retiring => Took l [p.traffic config] ∧ SourceGone p l
  | .failing e | .unwinding e => Missed config p l e
  | .tidying f | .closing f => Ended config p l f

end

variable {config : Config} {p : Plan} {l m : List Occurrence} {bs : List Batch}

namespace Journal

theorem Took.append (h : Took l bs) (hm : attempted m = []) : Took (l ++ m) bs := by
  constructor
  · rw [attempted_append, hm, List.append_nil, h.1]
  · rw [written_append, written_of_attempted hm, List.append_nil, h.2]

theorem Took.write (h : Took l bs) (b : Batch) (c : Bool) :
    Took (l ++ [.did (.write b (.ok c))]) (bs ++ [b]) := by
  simp [Took, h.1, h.2, attempt?, written?]

theorem Took.refuse (h : Took l bs) (b : Batch) (e : Error) :
    attempted (l ++ [.did (.write b (.error e))]) = bs ++ [b] ∧
      written (l ++ [.did (.write b (.error e))]) = bs := by
  simp [h.1, h.2, attempt?, written?]

theorem not_detached_append (h : ¬ Detached p l) (hm : Quiet p m) : ¬ Detached p (l ++ m) := by
  simp only [Detached, List.mem_append, not_or]
  exact ⟨h, hm.attached⟩

theorem Untouched.append (h : Untouched p l) (hm : Quiet p m) : Untouched p (l ++ m) :=
  ⟨h.took.append hm.unwritten, fun hp => not_detached_append (h.attached hp) hm⟩

theorem Moved.append (h : Moved config p l) (hm : Quiet p m) : Moved config p (l ++ m) :=
  ⟨h.took.append hm.unwritten, not_detached_append h.attached hm⟩

theorem Done.append (h : Done config p l) (hm : Quiet p m) : Done config p (l ++ m) :=
  ⟨h.took.append hm.unwritten, h.gone.mono⟩

theorem Missed.append (h : Missed config p l e) (hm : Quiet p m) : Missed config p (l ++ m) e := by
  have ha : attempted (l ++ m) = attempted l := by simp [hm.unwritten]
  have hw : written (l ++ m) = written l := by simp [written_of_attempted hm.unwritten]
  cases h with
  | untouched h => exact .untouched (h.append hm.unwritten)
  | refused h hn => exact .refused (ha.trans h) (hw.trans hn)
  | moved h hr hq => exact .moved (h.append hm) hr hq
  | unretired hp h hn hr hq => exact .unretired hp (ha.trans h) (hw.trans hn) hr hq

theorem Ended.append (h : Ended config p l f) (hm : Quiet p m) : Ended config p (l ++ m) f := by
  cases f with
  | none => exact Done.append h hm
  | some e => exact Missed.append h hm

theorem Honest.of_append (h : Honest p (l ++ m)) : Honest p l :=
  fun e he => h e (List.mem_append_left m he)

theorem quiet_of_error {o : Outcome c.Reply} (h : c.result? knobs o = some (.error e)) :
    Quiet p [.answered c o] := by
  have hok : (Call.detach p.source).result? knobs (.ok ()) = some (.ok ()) := rfl
  refine ⟨rfl, ?_⟩
  simpa [Detached] using (answered_ne_of_error h hok).symm

theorem quiet_calling (p : Plan) (cs : List Call) : Quiet p (calling cs) :=
  ⟨attempted_calling cs, answered_not_mem_calling cs⟩

end Journal

theorem Stage.Accounts.append {s : Stage} (h : s.Accounts config p l) (hm : Quiet p m) :
    s.Accounts config p (l ++ m) := by
  cases s with
  | removingSource next | detachingSource next =>
    cases next with
    | retire => exact Moved.append h hm
    | _ => exact Untouched.append h hm
  | removingTarget | detachingTarget | resuming => exact Missed.append h hm
  | discarding => exact Ended.append h hm
  | finished =>
    obtain ⟨f, h⟩ := h
    exact ⟨f, h.append hm⟩
  | _ => exact Untouched.append h hm

theorem Stage.Accounts.missed {s : Stage} {o : Outcome c.Reply} (h : s.Accounts config p l)
    (hq : s.phase? = some q) (hr : c.result? knobs o = some (.error e)) :
    Missed config p (l ++ [.answered c o]) (e.within q) := by
  cases s with
  | removingSource next | detachingSource next =>
    -- Traffic has moved only where the source is removed last.
    cases next with
    | retire =>
      cases hq
      have he := Call.plain_of_result? hr
      exact .moved (Moved.append h (quiet_of_error hr)) (he.root_within _) (he.phase_within _)
    | _ => exact .untouched (h.took.append rfl)
  | quiescing | transferring | verifying | restoring | reattaching | announcing =>
    exact .untouched (h.took.append rfl)
  | _ => cases hq

namespace Course

theorem policy_ne_auto (h : Course config p P pr j l) : p.policy ≠ .auto := by
  induction h with
  | accepted ho =>
    obtain ⟨_, _, policy, _, rfl⟩ := ho.job_new
    rw [ho.policy]
    exact policy.resolve_ne_auto _
  | _ => assumption

theorem called_of_answered (h : Course config p P pr j l) (ho : .answered c o ∈ l) : c ∈ calls l := by
  have hc := h.count_calls_eq c
  have ha := List.count_pos_iff.2 (mem_answers ho)
  exact List.count_pos_iff.1 (by omega)

theorem sourceGone_of_forwarding (h : Course config p .forwarding pr j l)
    (hp : p.policy ≠ .afterForwarding) : SourceGone p l := by
  obtain ⟨⟨⟨d, hd⟩, -⟩, hb⟩ := h.known
  cases hq : p.policy with
  | auto => exact absurd hq h.policy_ne_auto
  | afterForwarding => exact absurd hq hp
  | beforeForwarding => exact hb hq
  | beforeRestore =>
    have hc := h.called_of_answered hd
    obtain ⟨before, after, rfl⟩ := List.append_of_mem (mem_calls.1 hc)
    have hdue : SourceGone p before := (h.timely _ _ _ rfl).2.2 hq
    exact hdue.mono

theorem accounts (h : Course config p P pr j l) (hl : Honest p l) : P.Accounts config p l := by
  induction h with
  | accepted => exact ⟨⟨rfl, rfl⟩, fun _ => by simp [Detached]⟩
  | cancel _ _ ih | started _ ih | halfway _ _ ih | gathered _ ih | moved _ _ ih | unrestored _ _ _ ih
  | unresumed _ _ ih | tidied _ _ ih => exact ih hl
  | entered _ _ _ ih => exact Stage.Accounts.append (ih hl.of_append) (quiet_calling _ _)
  -- What can be cancelled has not given anything to the store.
  | cancelled h hj | forwardCancelled h hj =>
    have ha := h.attempted_of_cancelRequested hj
    exact .untouched ⟨ha, written_of_attempted ha⟩
  | captureFailed _ ih | prepareFailed _ ih => exact .untouched (ih hl).took
  | quiesced _ _ _ ih | probed _ _ _ _ ih | woken _ _ ih | drained _ _ _ _ ih | captured _ _ _ _ _ ih
  | prepared _ _ _ _ _ ih | transferred _ _ _ ih | restored _ _ ih | reattached _ ih =>
    exact Untouched.append (ih hl.of_append) ⟨rfl, by simp [Detached]⟩
  | mismatched _ _ ih => exact .untouched ((ih hl.of_append).took.append rfl)
  | measured _ _ ih | announced _ _ ih =>
    have hu := ih hl.of_append
    split
    · exact Untouched.append hu ⟨rfl, by simp [Detached]⟩
    · exact Untouched.append hu ⟨rfl, by simp [Detached]⟩
  | @tornDown next _ _ l _ ih =>
    have hs : (Stage.detachingSource next).Accounts config p l := by
      cases next with
      | _ => exact ih hl.of_append
    exact Stage.Accounts.append hs ⟨rfl, by simp [Detached]⟩
  -- The source goes last, or its policy is not to remove it then.
  | @detached next _ _ _ _ h ih =>
    have ih := ih hl.of_append
    have hk := h.known
    cases next with
    | retire => exact ⟨ih.took.append rfl, List.mem_append_left _ hk.2, by simp⟩
    | _ => exact ⟨ih.took.append rfl, fun hp => nomatch hk.1.1.symm.trans hp⟩
  | refused _ hq _ hr ih => exact (ih hl.of_append).missed hq hr
  | forwardRefused e _ _ _ ih =>
    have hr := (ih hl.of_append).took.refuse (p.traffic config) e
    exact .refused hr.1 hr.2
  | forwarded changed _ h _ ih =>
    have ih := ih hl.of_append
    have ht := ih.took.write (p.traffic config) changed
    split
    · rename_i hp
      exact ⟨ht, by simpa [Detached] using ih.attached hp⟩
    · rename_i hp
      exact ⟨ht, (h.sourceGone_of_forwarding hp).mono⟩
  | kept _ hm ih =>
    have ih := ih hl
    refine Done.mk ?_ ih.2
    rw [Plan.batches, hm]
    exact ih.1
  | retireRefused e _ hm ih =>
    have hr := (ih hl.of_append).1.refuse p.retireBatch e
    have he := hl e (by simp)
    exact .unretired hm hr.1 hr.2 (he.root_within _) (he.phase_within _)
  | retired changed _ hm ih =>
    have ih := ih hl.of_append
    refine Done.mk ?_ ih.2.mono
    rw [Plan.batches, hm]
    exact ih.1.write p.retireBatch changed
  -- Cleaning up is about the target, the archives and the resumption of the source.
  | removing _ _ _ ih | targetRemoved _ _ ih | resuming _ _ ih | resumed _ _ ih =>
    exact Missed.append (ih hl.of_append) ⟨rfl, by simp [Detached]⟩
  | targetDetached _ h ih =>
    exact Missed.append (ih hl.of_append) ⟨rfl, by simp [Detached, h.moves]⟩
  | discarding _ _ ih => exact Ended.append (ih hl.of_append) (quiet_calling _ _)
  | discarded _ _ _ _ ih | discardedLast _ _ _ _ ih =>
    exact Ended.append (ih hl.of_append) ⟨rfl, by simp [Detached]⟩
  | closed _ _ _ ih => exact ⟨_, Ended.append (ih hl.of_append) ⟨rfl, by simp [Detached]⟩⟩

end Course

namespace Plan

theorem writes_batches (config : Config) (p : Plan) : p.Writes config (p.batches config) := by
  cases hm : p.mode with
  | sameIdentity => simp [batches, Writes, hm]
  | memberRebind => simp [batches, Writes, hm]

theorem batches_ne_nil (config : Config) (p : Plan) : p.batches config ≠ [] := by
  cases hm : p.mode with
  | sameIdentity => simp [batches, hm]
  | memberRebind => simp [batches, hm]

theorem Writes.split {xs ys : List Batch} (h : p.Writes config (xs ++ b :: ys)) :
    xs = [] ∧ b = p.traffic config ∨ b = p.retireBatch := by
  rcases h with h | h | ⟨-, h⟩
  · simp at h
  · cases xs with
    | nil => simp_all
    | cons x xs => simp at h
  · cases xs with
    | nil => simp_all
    | cons x xs =>
      cases xs with
      | nil => simp_all
      | cons => simp at h

end Plan

namespace Journal

theorem Took.writes (h : Took l bs) (hb : p.Writes config bs) :
    p.Writes config (attempted l) ∧ p.Writes config (written l) := by
  rw [h.1, h.2]
  exact ⟨hb, hb⟩

theorem Missed.writes (h : Missed config p l e) :
    p.Writes config (attempted l) ∧ p.Writes config (written l) := by
  cases h with
  | untouched h => exact h.writes (.inl rfl)
  | refused h hn => exact ⟨.inr (.inl h), .inl hn⟩
  | moved h => exact h.took.writes (.inr (.inl rfl))
  | unretired hm h hn => exact ⟨.inr (.inr ⟨hm, h⟩), .inr (.inl hn)⟩

theorem Ended.writes (h : Ended config p l f) :
    p.Writes config (attempted l) ∧ p.Writes config (written l) := by
  cases f with
  | none => exact (Done.took h).writes (p.writes_batches config)
  | some e => exact Missed.writes h

end Journal

theorem Stage.Accounts.writes {s : Stage} (h : s.Accounts config p l) :
    p.Writes config (attempted l) ∧ p.Writes config (written l) := by
  cases s with
  | removingSource next | detachingSource next =>
    cases next with
    | retire => exact (Moved.took h).writes (.inr (.inl rfl))
    | _ => exact (Untouched.took h).writes (.inl rfl)
  | removingTarget | detachingTarget | resuming => exact Missed.writes h
  | discarding => exact Ended.writes h
  | finished =>
    obtain ⟨f, h⟩ := h
    exact h.writes
  | _ => exact (Untouched.took h).writes (.inl rfl)

def Job.Tells (j : Job) : Option Error → Prop
  | none => j.status = .succeeded
  | some e => j.status = (if e.root = .cancelled then .cancelled else .failed) ∧
    ∃ d, j.diagnostic = some d ∧ ∀ q, e.phase? = some q → d.phase = q

theorem Job.tells_conclude (j : Job) (f : Option Error) : (j.conclude f gone now wall).Tells f := by
  cases f with
  | none => rfl
  | some e =>
    refine ⟨j.status_conclude e, .ofError e j.phase gone, ?_, fun q hq => ?_⟩
    · simp only [conclude]
      split
      · rfl
      · rfl
    · simp [Diagnostic.ofError, hq]

namespace Course

theorem tells (h : Course config p (.waiting .finished) pr j l) (hl : Honest p l) :
    ∃ f, Ended config p l f ∧ j.Tells f := by
  obtain ⟨f, i, before, now, wall, hc, rfl, rfl⟩ := h.closed_of_finished rfl
  exact ⟨f, Ended.append (hc.accounts hl.of_append) ⟨rfl, by simp [Detached]⟩, i.tells_conclude f⟩

theorem accounted (h : Course config p (.waiting s) pr j l) (hl : Honest p l) :
    Accounted config p l j := by
  have hend : j.isTerminal = true → ∃ f, Ended config p l f ∧ j.Tells f := by
    intro ht
    by_cases hs : s = .finished
    · subst hs
      exact h.tells hl
    · simp [Job.isTerminal, h.running (by simpa using hs)] at ht
  refine ⟨(h.accounts hl).writes.2, fun ht => ?_, fun hs => ?_, fun hs hw => ?_⟩
  · obtain ⟨f, hf, hj⟩ := hend ht
    cases f with
    | none => exact iff_of_true hj ⟨(Done.took hf).2, hf.gone⟩
    | some e =>
      refine iff_of_false ?_ ?_
      · rw [hj.1]
        split
        · intro h
          cases h
        · intro h
          cases h
      · rintro ⟨hw, hg⟩
        cases hf with
        | untouched h => exact p.batches_ne_nil config (hw.symm.trans h.2)
        | refused _ h => exact p.batches_ne_nil config (hw.symm.trans h)
        | moved h => exact h.attached hg.2
        | unretired hm _ h =>
          rw [h, Plan.batches, hm] at hw
          cases hw
  · obtain ⟨f, hf, hj⟩ := hend (by simp [Job.isTerminal, hs])
    cases f with
    | none => cases hs.symm.trans hj
    | some e =>
      cases hf with
      | untouched h => exact h.2
      | refused _ h => exact h
      | moved _ hr | unretired _ _ _ hr =>
        have hj := hj.1
        rw [if_neg hr, hs] at hj
        cases hj
  · obtain ⟨f, hf, hj⟩ := hend (by simp [Job.isTerminal, hs])
    cases f with
    | none => cases hs.symm.trans hj
    | some e =>
      obtain ⟨d, hd, hq⟩ := hj.2
      cases hf with
      | untouched h => exact absurd h.2 hw
      | refused _ h => exact absurd h hw
      | moved _ _ hp | unretired _ _ _ _ hp => exact ⟨d, hd, hq _ hp⟩

theorem first_of_write (h : Course config p (.waiting s) pr j (l ++ .did (.write b r) :: m))
    (hl : Honest p (l ++ .did (.write b r) :: m)) :
    b = p.retireBatch ∨ b = p.traffic config ∧ attempted l = [] ∧ published l = [] := by
  have hw := (h.accounts hl).writes.1
  rw [attempted_append, attempted_cons] at hw
  rcases Plan.Writes.split hw with ⟨ha, hb⟩ | hb
  · refine .inr ⟨hb, ha, ?_⟩
    rw [List.eq_nil_iff_forall_not_mem]
    intro i hi
    obtain ⟨before, after, rfl⟩ := List.append_of_mem (mem_published.1 hi)
    have hn := h.nil_of_published (List.append_assoc ..)
    simp at hn
  · exact .inl hb

end Course

end LiveMigration
