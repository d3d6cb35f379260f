import LiveMigration.Proofs.Forwarding.Change
import LiveMigration.Proofs.Number.Binary64
import LiveMigration.Rehearsal.Basic
import Mathlib.Algebra.Order.Floor.Div
import Mathlib.Tactic.Ring

namespace LiveMigration

/-- When a drain that began at `start` may end with a status, by the last thing that was found: `stop` is
when it was. -/
def DrainStatus.Warranted (limits : DrainLimits) (start stop : Nat) (found : Except ε UInt64) :
    DrainStatus → Prop
  | .drained => found = .ok 0
  | .ceilingReached => ∃ b, b ≠ 0 ∧ found = .ok b ∧ start + limits.ceiling * 1000 ≤ stop
  | .probeFailed => ∃ e, found = .error e

theorem DrainStatus.Warranted.unique {s s' : DrainStatus} (h : s.Warranted limits start stop found)
    (h' : s'.Warranted limits start stop found) : s = s' := by
  cases s <;> cases s' <;> first | rfl | grind [DrainStatus.Warranted]

namespace Drain

def lastFound (probes : Nat → Probe ε) (n : Nat) : Option UInt64 :=
  ((List.range n).filterMap fun i => (probes i).found.toOption).getLast?

theorem lastFound_succ (probes : Nat → Probe ε) (n : Nat) :
    lastFound probes (n + 1) = (probes n).found.toOption.or (lastFound probes n) := by
  cases h : (probes n).found <;> simp [lastFound, List.range_succ, h, Except.toOption]

/-- What is true of a drain that ended: its probes were started at `starts`, the last one has the number
`last` and returned at `stop`. -/
structure Account (limits : DrainLimits) (probes : Nat → Probe ε) (start : Nat) (r : DrainResult)
    (starts : List Nat) (last stop : Nat) : Prop where
  first : starts.head? = some start
  length : starts.length = last + 1
  stopped : starts.getLast?.map (· + (probes last).latency) = some stop
  inTime : ∀ s ∈ starts, s ≤ start + limits.ceiling * 1000
  few : starts.length ≤ limits.ceiling ⌈/⌉ limits.poll + 1
  polls : r.polls.toNat = starts.length
  earlier : ∀ n < last, ∃ b, b ≠ 0 ∧ (probes n).found = .ok b
  status : ∀ s, r.status = s ↔ s.Warranted limits start stop (probes last).found
  lastQueue : r.lastQueue = lastFound probes starts.length
  duration : r.duration = .ofMicros (stop - start)
  nearest : stop - start < 2 ^ 53 → Binary64.ofRatio false (stop - start) 1000 = some r.duration

/-- What is true of a drain that is about to probe at `now`, after probes that were started at `starts`. -/
structure Underway (limits : DrainLimits) (probes : Nat → Probe ε) (start : Nat) (starts : List Nat)
    (now : Nat) (d : Drain) : Prop where
  start_eq : d.start = start
  polls : d.polls = UInt32.ofNat (starts.length + 1)
  lastQueue : d.lastQueue = lastFound probes starts.length
  earlier : ∀ n < starts.length, ∃ b, b ≠ 0 ∧ (probes n).found = .ok b
  first : (starts ++ [now]).head? = some start
  inTime : ∀ s ∈ starts ++ [now], s ≤ start + limits.ceiling * 1000
  paced : min (start + starts.length * (limits.poll * 1000)) (start + limits.ceiling * 1000) ≤ now
  few : starts.length ≤ limits.ceiling ⌈/⌉ limits.poll

theorem Underway.begin (limits : DrainLimits) (probes : Nat → Probe ε) (start : Nat) :
    Underway limits probes start [] start (.begin start) where
  start_eq := rfl
  polls := rfl
  lastQueue := rfl
  earlier _ h := absurd h (Nat.not_lt_zero _)
  first := rfl
  inTime s hs := by simp_all
  paced := by simp
  few := Nat.zero_le _

theorem observe_cases (limits : DrainLimits) (d : Drain) (found : Except ε UInt64) (h : d.start ≤ now) :
    (∃ s l, d.observe limits now found = .ended ({ d with lastQueue := l }.finish now s) ∧
      l = found.toOption.or d.lastQueue ∧ s.Warranted limits d.start now found) ∨
    ∃ b micros, d.observe limits now found = .pause { d with lastQueue := some b } micros ∧
      found = .ok b ∧ b ≠ 0 ∧ now < d.start + limits.ceiling * 1000 ∧
      now + micros = min (now + limits.poll * 1000) (d.start + limits.ceiling * 1000) := by
  cases found with
  | error e => exact .inl ⟨.probeFailed, d.lastQueue, rfl, rfl, e, rfl⟩
  | ok b =>
    by_cases hb : b = 0
    · subst hb
      exact .inl ⟨.drained, some 0, rfl, rfl, rfl⟩
    · by_cases hlate : limits.ceiling * 1000 ≤ d.elapsed now
      · exact .inl ⟨.ceilingReached, some b, (if_neg hb).trans (if_pos hlate), rfl, b, hb, rfl,
          Nat.add_le_of_le_sub' h hlate⟩
      · have hearly : d.elapsed now < limits.ceiling * 1000 := Nat.lt_of_not_le hlate
        refine .inr ⟨b, _, (if_neg hb).trans (if_neg hlate), rfl, hb, ?_, ?_⟩
        · exact (Nat.sub_lt_iff_lt_add' h).mp hearly
        · have hleft (c : Nat) (hc : d.elapsed now ≤ c) : now + (c - d.elapsed now) = d.start + c := by
            simp only [elapsed] at hc ⊢
            omega
          exact (Nat.add_min_add_left ..).symm.trans (congrArg (min _) (hleft _ hearly.le))

section
variable {limits : DrainLimits} {probes : Nat → Probe ε} {start now : Nat} {starts : List Nat} {d : Drain}

theorem Underway.start_le (h : Underway limits probes start starts now d) : start ≤ now := by
  have := h.paced
  omega

theorem Underway.pause (h : Underway limits probes start starts now d) (hpoll : 0 < limits.poll)
    (hfound : (probes starts.length).found = .ok b) (hb : b ≠ 0)
    (hstop : now ≤ stop) (hearly : stop < start + limits.ceiling * 1000)
    (hnext : next = min (stop + limits.poll * 1000) (start + limits.ceiling * 1000)) :
    Underway limits probes start (starts ++ [now]) next { d with lastQueue := some b }.probeAgain where
  start_eq := h.start_eq
  polls := by simp [probeAgain, h.polls]
  lastQueue := by simp [probeAgain, lastFound_succ, hfound, Except.toOption]
  earlier n hn := by
    obtain hn | rfl : n < starts.length ∨ n = starts.length := by
      rw [List.length_append, List.length_singleton] at hn
      omega
    · exact h.earlier n hn
    · exact ⟨b, hb, hfound⟩
  first := by
    rw [List.head?_append_of_ne_nil _ (by simp)]
    exact h.first
  inTime s hs := by
    obtain hs | rfl : s ∈ starts ++ [now] ∨ s = next := by simpa [or_assoc] using hs
    · exact h.inTime s hs
    · omega
  paced := by
    have := h.paced
    simp only [List.length_append, List.length_singleton, Nat.succ_mul]
    omega
  few := by
    -- The pauses so far were whole ones, and the ceiling is still ahead.
    have hlt : starts.length * limits.poll < limits.ceiling := by
      have := h.paced
      have : starts.length * (limits.poll * 1000) = starts.length * limits.poll * 1000 := by ring
      omega
    rw [List.length_append, List.length_singleton, Nat.succ_le_iff, ← Nat.not_le, ceilDiv_le_iff_le_mul hpoll,
      Nat.mul_comm]
    exact Nat.not_le.mpr hlt

theorem Underway.account (h : Underway limits probes start starts now d) (hcount : starts.length + 1 < 2 ^ 32)
    (hstop : stop = now + (probes starts.length).latency)
    (hl : l = (probes starts.length).found.toOption.or d.lastQueue)
    (hs : s.Warranted limits start stop (probes starts.length).found) :
    Account limits probes start ({ d with lastQueue := l }.finish stop s) (starts ++ [now]) starts.length
      stop where
  first := h.first
  length := by simp
  stopped := by simp [hstop]
  inTime := h.inTime
  few := by simpa using h.few
  polls := by
    simp only [finish, h.polls, UInt32.toNat_ofNat', List.length_append, List.length_singleton]
    omega
  earlier := h.earlier
  status s' := ⟨fun he => he ▸ hs, fun hs' => hs.unique hs'⟩
  lastQueue := by simp [finish, hl, h.lastQueue, lastFound_succ]
  duration := by simp [finish, elapsed, h.start_eq]
  nearest hlt := by simpa [finish, elapsed, h.start_eq] using Binary64.ofRatio_eq_ofMicros hlt

theorem Underway.step (hpoll : 0 < limits.poll) (hcount : limits.ceiling ⌈/⌉ limits.poll + 1 < 2 ^ 32)
    (h : Underway limits probes start starts now d) (hp : probes starts.length = p) :
    (∃ r, d.observe limits (now + p.latency) p.found = .ended r ∧
      Account limits probes start r (starts ++ [now]) starts.length (now + p.latency)) ∨
    ∃ d' micros, d.observe limits (now + p.latency) p.found = .pause d' micros ∧
      Underway limits probes start (starts ++ [now]) (now + p.latency + micros) d'.probeAgain := by
  subst hp
  have hle : d.start ≤ now + (probes starts.length).latency := by
    have := h.start_le
    have := h.start_eq
    omega
  obtain ⟨s, l, he, hl, hs⟩ | ⟨b, micros, he, hfound, hb, hearly, hnext⟩ := observe_cases limits d _ hle
  · have hn : starts.length + 1 < 2 ^ 32 := (Nat.succ_le_succ h.few).trans_lt hcount
    exact .inl ⟨_, he, h.account hn rfl hl (h.start_eq ▸ hs)⟩
  · rw [h.start_eq] at hearly hnext
    exact .inr ⟨_, _, he, h.pause hpoll hfound hb (Nat.le_add_right ..) hearly hnext⟩

theorem Underway.exists_fuel (h : Underway limits probes start starts now d)
    (hfuel : limits.ceiling ⌈/⌉ limits.poll < starts.length + fuel) :
    ∃ k, fuel = k + 1 ∧ limits.ceiling ⌈/⌉ limits.poll < (starts ++ [now]).length + k := by
  cases fuel with
  | zero => exact absurd h.few (Nat.not_le.mpr hfuel)
  | succ k => exact ⟨k, rfl, by simpa [Nat.add_assoc, Nat.add_comm 1] using hfuel⟩

/-- What holds of a drain that its probe ends, and of one for which it holds after its probe, holds of every
drain under way. The induction is on the probes that are left. -/
theorem Underway.induction (hpoll : 0 < limits.poll) (hcount : limits.ceiling ⌈/⌉ limits.poll + 1 < 2 ^ 32)
    {motive : ∀ starts now d, Underway limits probes start starts now d → Prop}
    (ended : ∀ starts now d r h,
      d.observe limits (now + (probes starts.length).latency) (probes starts.length).found = .ended r →
      Account limits probes start r (starts ++ [now]) starts.length (now + (probes starts.length).latency) →
      motive starts now d h)
    (again : ∀ starts now d d' micros h h',
      d.observe limits (now + (probes starts.length).latency) (probes starts.length).found = .pause d' micros →
      motive (starts ++ [now]) (now + (probes starts.length).latency + micros) d'.probeAgain h' →
      motive starts now d h)
    (starts : List Nat) (now : Nat) (d : Drain) (h : Underway limits probes start starts now d) :
    motive starts now d h := by
  obtain ⟨left, hleft⟩ : ∃ left, limits.ceiling ⌈/⌉ limits.poll < starts.length + left :=
    ⟨limits.ceiling ⌈/⌉ limits.poll + 1, Nat.lt_add_left _ (Nat.lt_succ_self _)⟩
  induction left generalizing starts now d with
  | zero => exact absurd h.few (Nat.not_le.mpr hleft)
  | succ left ih =>
    obtain ⟨_, ⟨⟩, hleft⟩ := h.exists_fuel hleft
    obtain ⟨r, he, hr⟩ | ⟨d', micros, he, h'⟩ := h.step hpoll hcount rfl
    · exact ended _ _ _ r h he hr
    · exact again _ _ _ d' micros h h' he (ih _ _ _ h' hleft)

theorem Underway.ends (hpoll : 0 < limits.poll) (hcount : limits.ceiling ⌈/⌉ limits.poll + 1 < 2 ^ 32)
    (h : Underway limits probes start starts now d) :
    ∃ r rest last stop, (∀ fuel : Nat, limits.ceiling ⌈/⌉ limits.poll < starts.length + fuel →
      course limits probes fuel starts.length now d = (some r, rest)) ∧
      Account limits probes start r (starts ++ rest) last stop := by
  induction starts, now, d, h using Underway.induction hpoll hcount with
  | ended starts now d r h he hr =>
    refine ⟨r, [now], _, _, fun fuel hfuel => ?_, hr⟩
    obtain ⟨fuel, rfl, -⟩ := h.exists_fuel hfuel
    simp only [course, he]
  | again starts now d d' micros h h' he ih =>
    obtain ⟨r, rest, last, stop, hcourse, hr⟩ := ih
    refine ⟨r, now :: rest, last, stop, fun fuel hfuel => ?_, by simpa using hr⟩
    obtain ⟨fuel, rfl, hfuel'⟩ := h.exists_fuel hfuel
    have := hcourse fuel hfuel'
    rw [List.length_append, List.length_singleton] at this
    simp only [course, he, this]

end

theorem ceilDiv_le_div_succ {limits : DrainLimits} (hpoll : 0 < limits.poll) :
    limits.ceiling ⌈/⌉ limits.poll ≤ limits.ceiling / limits.poll + 1 :=
  (ceilDiv_le_iff_le_mul hpoll).mpr (Nat.lt_mul_div_succ _ hpoll).le

theorem ceilDiv_lt_of_div_lt {limits : DrainLimits} (hpoll : 0 < limits.poll)
    (hcount : limits.ceiling / limits.poll < 2 ^ 31) : limits.ceiling ⌈/⌉ limits.poll + 1 < 2 ^ 32 :=
  (Nat.succ_le_succ (ceilDiv_le_div_succ hpoll)).trans_lt
    ((Nat.add_lt_add_right hcount 2).trans_le (by decide))

/-- Whatever the probes find and however long they take, with a pause between them a drain ends, and what it
says of itself is true. -/
theorem ends_truthfully (limits : DrainLimits) (probes : Nat → Probe ε) (start : Nat)
    (hpoll : 0 < limits.poll) (hcount : limits.ceiling / limits.poll < 2 ^ 31) :
    ∃ r starts last stop, (∀ fuel : Nat, limits.ceiling ⌈/⌉ limits.poll < fuel →
      course limits probes fuel 0 start (.begin start) = (some r, starts)) ∧
      Account limits probes start r starts last stop := by
  simpa using (Underway.begin limits probes start).ends hpoll (ceilDiv_lt_of_div_lt hpoll hcount)

theorem ends_truthfully_on_ceiling :
    let limits : DrainLimits := ⟨100, 200⟩
    let probes : Nat → Probe HostError := fun _ => ⟨0, .ok 7⟩
    0 < limits.poll ∧ limits.ceiling / limits.poll < 2 ^ 31 ∧ ∃ r starts last stop,
      (∀ fuel : Nat, limits.ceiling ⌈/⌉ limits.poll < fuel →
        course limits probes fuel 0 0 (.begin 0) = (some r, starts)) ∧
      Account limits probes 0 r starts last stop := by
  intro limits probes
  have hpoll : 0 < limits.poll := by decide
  have hcount : limits.ceiling / limits.poll < 2 ^ 31 := by decide
  exact ⟨hpoll, hcount, ends_truthfully limits probes 0 hpoll hcount⟩

example : course ⟨100, 200⟩ (fun _ => (⟨0, .ok 7⟩ : Probe HostError)) 3 0 0 (.begin 0) =
    (some ⟨.ceilingReached, .ofMicros 200000, some 7, 3⟩, [0, 100000, 200000]) := by
  rfl

end Drain

/-- A drain alone never runs out of probes. -/
theorem Rehearsal.drainAlone_eq (script : Script) (limits : DrainLimits) (e : Endpoint)
    (hpoll : 0 < limits.poll) (hcount : limits.ceiling / limits.poll < 2 ^ 31) :
    ∃ r starts last stop,
      drainAlone script limits e = (some r, starts.map fun now => (now, Call.probe e)) ∧
      Drain.Account limits (probe (script.behaviour (.probe e)) e) 0 r starts last stop := by
  obtain ⟨r, starts, last, stop, hcourse, hr⟩ :=
    (Drain.Underway.begin limits (probe (script.behaviour (.probe e)) e) 0).ends hpoll
      (Drain.ceilDiv_lt_of_div_lt hpoll hcount)
  have hfuel : limits.ceiling ⌈/⌉ limits.poll <
      limits.ceiling / max limits.poll 1 + (script.behaviour (.probe e)).changes + 4 := by
    rw [Nat.max_eq_left hpoll, Nat.add_assoc]
    exact (Drain.ceilDiv_le_div_succ hpoll).trans_lt (Nat.add_lt_add_left (by omega) _)
  have hrun := hcourse _ (hfuel.trans_le (Nat.le_add_left ..))
  rw [List.length_nil] at hrun
  exact ⟨r, starts, last, stop, by simp only [drainAlone, hrun], hr⟩

theorem Config.poll_pos_of_validate {c : Config} (h : c.validate = .ok ()) : 0 < c.drainLimits.poll := by
  obtain ⟨_, -, h⟩ := Except.bind_eq_ok.1 h
  obtain ⟨_, -, h⟩ := Except.bind_eq_ok.1 h
  have hdrain : checkDrain c.migration = .ok () := by
    split at h
    · cases h
    · obtain ⟨_, -, h⟩ := Except.bind_eq_ok.1 h
      exact h
  have hpoll : c.migration.drainPoll ≠ 0 := by
    intro h0
    rw [checkDrain, if_pos h0] at hdrain
    cases hdrain
  exact Nat.pos_of_ne_zero fun h0 => hpoll (UInt64.toNat_inj.1 h0)

namespace Turn

/-- Turns of a migration from a probe on to the end of its drain: each probe is answered when it returns, and a
pause lasts as long as was asked. The probe is made `since` microseconds after the migration was started. -/
inductive Drains (config : Config) (probes : Nat → Drain.Probe Error) :
    (number since : Nat) → Turn → Turn → Prop
  | ended : t.sinceStart m = since + (probes n).latency →
      (Call.probe t.run.plan.source).result? config.migration o = some (probes n).found →
      t.answer config m (.probe t.run.plan.source) o = u → (∀ d, u.run.stage ≠ .pausing d) →
      Drains config probes n since t u
  | again : t.sinceStart m = since + (probes n).latency →
      (Call.probe t.run.plan.source).result? config.migration o = some (probes n).found →
      t.answer config m (.probe t.run.plan.source) o = u → u.run.stage = .pausing d →
      u.effects.getLast? = some (.pause micros) →
      Drains config probes (n + 1) (since + (probes n).latency + micros) u.wake v →
      Drains config probes n since t v

variable {config : Config} {m : Moment} {t u : Turn}

theorem drain_conclude (j : Job) (now : UInt64) : (j.conclude f gone now wall).drain = j.drain := by
  cases f with
  | none => rfl
  | some e =>
    simp only [Job.conclude]
    split <;> rfl

theorem discard_spec : (t.discard m f).job.drain = t.job.drain ∧
    ∀ d, (t.discard m f).run.stage ≠ .pausing d := by
  simp only [discard]
  split
  · exact ⟨drain_conclude .., nofun⟩
  · exact ⟨rfl, nofun⟩

theorem fail_spec : (t.fail m e).job.drain = t.job.drain ∧
    ∀ d, (t.fail m e).run.stage ≠ .pausing d := by
  simp only [fail, resumeSource]
  split
  · exact discard_spec
  · split
    · exact ⟨rfl, nofun⟩
    · split
      · exact ⟨rfl, nofun⟩
      · exact discard_spec

theorem drained_spec : (t.drained config m r).job.drain = some r ∧
    ∀ d, (t.drained config m r).run.stage ≠ .pausing d := by
  simp only [drained, enter]
  split
  · exact fail_spec
  · exact ⟨rfl, nofun⟩

theorem answer_probe (hs : t.run.stage = .probing d) (hm : t.sinceStart m = stop)
    (ho : (Call.probe t.run.plan.source).result? config.migration o = some found) :
    t.answer config m (.probe t.run.plan.source) o =
      match d.observe config.drainLimits stop found with
      | .ended r => t.drained config m r
      | .pause d micros => t.await [.pause micros] (.pausing d) := by
  subst hm
  simp only [answer, Run.awaited, Stage.awaited, hs, List.mem_singleton, if_true, ho, receive]
  rfl

theorem Drains.exists_account {probes : Nat → Drain.Probe Error} {start : Nat}
    (h : Drains config probes n since t u) (hs : t.run.stage = .probing d)
    (hd : Drain.Underway config.drainLimits probes start starts since d) (hn : starts.length = n)
    (hpoll : 0 < config.drainLimits.poll)
    (hcount : config.drainLimits.ceiling ⌈/⌉ config.drainLimits.poll + 1 < 2 ^ 32) :
    ∃ r starts last stop, u.job.drain = some r ∧
      Drain.Account config.drainLimits probes start r starts last stop := by
  induction h generalizing d starts with
  | ended hm ho hu hend =>
    subst hn
    rw [answer_probe hs hm ho] at hu
    obtain ⟨r, he, hr⟩ | ⟨d', micros, he, -⟩ := hd.step hpoll hcount rfl
    · rw [he] at hu
      exact ⟨r, _, _, _, hu ▸ drained_spec.1, hr⟩
    · rw [he] at hu
      exact absurd (hu ▸ rfl) (hend d')
  | again hm ho hu hpause heffects hv ih =>
    subst hn
    rw [answer_probe hs hm ho] at hu
    obtain ⟨r, he, hr⟩ | ⟨d', micros, he, h'⟩ := hd.step hpoll hcount rfl
    · rw [he] at hu
      exact absurd hpause (hu ▸ drained_spec.2 _)
    · rw [he] at hu
      subst hu
      obtain rfl : micros = _ := by simpa [await] using heffects
      refine ih ?_ h' (by simp)
      simp [wake, await, probe]

theorem exists_drains {probes : Nat → Drain.Probe Error} {start : Nat} (hs : t.run.stage = .probing d)
    (ho : ∀ n, ∃ o, (Call.probe t.run.plan.source).result? config.migration o = some (probes n).found)
    (hd : Drain.Underway config.drainLimits probes start starts since d)
    (hpoll : 0 < config.drainLimits.poll)
    (hcount : config.drainLimits.ceiling ⌈/⌉ config.drainLimits.poll + 1 < 2 ^ 32) :
    ∃ u, Drains config probes starts.length since t u := by
  let returned (t : Turn) (n since : Nat) : Moment := ⟨t.run.start + (since + (probes n).latency), default⟩
  have hm (t : Turn) (n since : Nat) :
      t.sinceStart (returned t n since) = since + (probes n).latency := Nat.add_sub_cancel_left ..
  induction starts, since, d, hd using Drain.Underway.induction hpoll hcount generalizing t with
  | ended starts since d r hd he hr =>
    obtain ⟨o, hfound⟩ := ho starts.length
    have hanswer := answer_probe hs (hm t starts.length since) hfound
    rw [he] at hanswer
    exact ⟨_, .ended (hm ..) hfound hanswer drained_spec.2⟩
  | again starts since d d' micros hd hd' he ih =>
    obtain ⟨o, hfound⟩ := ho starts.length
    have hanswer := answer_probe hs (hm t starts.length since) hfound
    rw [he] at hanswer
    obtain ⟨u, hu⟩ := ih (t := (t.await [.pause micros] (.pausing d')).wake) rfl ho
    rw [List.length_append, List.length_singleton] at hu
    exact ⟨u, .again (hm ..) hfound hanswer rfl (by simp [await]) hu⟩

theorem drain_accounted {probes : Nat → Drain.Probe Error} (hs : t.run.stage = .probing (.begin since))
    (ho : ∀ n, ∃ o, (Call.probe t.run.plan.source).result? config.migration o = some (probes n).found)
    (hvalid : config.validate = .ok ())
    (hcount : config.drainLimits.ceiling / config.drainLimits.poll < 2 ^ 31) :
    (∃ u, Drains config probes 0 since t u) ∧ ∀ u, Drains config probes 0 since t u →
      ∃ r starts last stop, u.job.drain = some r ∧
        Drain.Account config.drainLimits probes since r starts last stop :=
  have hd := Drain.Underway.begin config.drainLimits probes since
  have hpoll := Config.poll_pos_of_validate hvalid
  have hcount := Drain.ceilDiv_lt_of_div_lt hpoll hcount
  ⟨exists_drains hs ho hd hpoll hcount, fun _ hu => hu.exists_account hs hd rfl hpoll hcount⟩

end Turn

end LiveMigration
