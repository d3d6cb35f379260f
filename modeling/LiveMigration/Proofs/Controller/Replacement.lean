import LiveMigration.Proofs.Controller.Conclusion
import LiveMigration.Proofs.Controller.Standing

namespace LiveMigration

open Journal

namespace Tables

/-- Whether the records of an endpoint can be dropped once the slot that is found for it is given away: it
has a rule, and serves no other slot. -/
structure Replaceable (t : Tables) (addr : Addr) : Prop where
  routed : t.rules.contains addr = true
  once : ∀ vip i m, t.slotsOf addr vip i = some m → t.memberOf? addr = some (vip, i)

section

variable (t t' : Tables) (addr new : Addr)

structure Same : Prop where
  endpoint : t'.endpoints.get? addr = t.endpoints.get? addr
  rule : t'.rules.get? addr = t.rules.get? addr
  slots : t'.slotsOf addr = t.slotsOf addr

/-- The slot that was found for an address is another's, and all else of it is as it was. -/
structure Relieved : Prop where
  endpoint : t'.endpoints.get? addr = t.endpoints.get? addr
  rule : t'.rules.get? addr = t.rules.get? addr
  slots : ∀ vip i, t'.slotsOf addr vip i =
    if t.memberOf? addr = some (vip, i) then none else t.slotsOf addr vip i
  given : ∀ vip i m, t.memberOf? addr = some (vip, i) → t.slotsOf addr vip i = some m →
    t'.slotsOf new vip i = some { m with endpoint := new }

structure Replaced : Prop where
  endpoint : t'.endpoints.get? addr = none
  rule : t'.rules.get? addr = none
  slots : ∀ vip i, t'.slotsOf addr vip i = none
  given : ∀ vip i m, t.slotsOf addr vip i = some m → t'.slotsOf new vip i = some { m with endpoint := new }

end

namespace Relieved

variable {t t' : Tables} {addr new : Addr}

theorem replaceable_iff (h : t.Relieved t' addr new) :
    t.Replaceable addr ↔ t'.rules.contains addr = true ∧ ∀ vip i, t'.slotsOf addr vip i = none := by
  have hcontains : t'.rules.contains addr = t.rules.contains addr := by simp only [Table.contains, h.rule]
  constructor
  · intro hr
    refine ⟨hcontains.trans hr.routed, fun vip i => ?_⟩
    rw [h.slots]
    split
    · rfl
    · next hn =>
      rw [Option.eq_none_iff_forall_ne_some]
      exact fun m hm => hn (hr.once vip i m hm)
  · rintro ⟨hrule, hfree⟩
    refine ⟨hcontains.symm.trans hrule, fun vip i m hm => ?_⟩
    have hs := hfree vip i
    rw [h.slots] at hs
    split at hs
    · assumption
    · cases hs.symm.trans hm

theorem replaced (h : t.Relieved t' addr new) (hr : t.Replaceable addr) :
    t.Replaced (t'.patch ⟨addr, none, none, none, none⟩) addr new := by
  refine ⟨Table.get?_set_self .., Table.get?_set_self .., fun vip i => ?_, fun vip i m hm => ?_⟩
  · rw [slotsOf_patch_of_ne (by simp)]
    exact (h.replaceable_iff.1 hr).2 vip i
  · rw [slotsOf_patch_of_ne (by simp)]
    exact h.given vip i m (hr.once vip i m hm) hm

end Relieved

end Tables

structure Job.Concludes (j : Job) (t t' : Tables) (addr new : Addr) : Prop where
  done : t.Replaceable addr → j.status = .succeeded ∧ t.Replaced t' addr new
  stuck : ¬ t.Replaceable addr → j.status = .failed ∧
    (∃ d, j.diagnostic = some d ∧ d.phase = .sourceTeardown) ∧ t.Relieved t' addr new

namespace Plan

structure Rebinds (p : Plan) (t : Tables) : Prop where
  mode : p.mode = .memberRebind
  member : p.member = t.memberOf? p.source.addr
  apart : p.source.addr ≠ p.target.addr

variable {config : Config} {p : Plan} {t : Tables} {s : Store}

theorem Ready.relieved (h : p.Ready s) (hp : p.Rebinds t) (ht : t.Same s.tables p.source.addr) :
    t.Relieved (s.tables.patch (p.trafficPatch config)) p.source.addr p.target.addr := by
  have hslot : (p.trafficPatch config).slot = t.memberOf? p.source.addr := by
    simp only [trafficPatch, hp.mode, hp.member]
  refine ⟨?_, ?_, fun vip i => ?_, fun vip i m hi hm => ?_⟩
  · exact (Table.get?_set_of_ne hp.apart.symm).trans ht.endpoint
  · exact (Table.get?_set_of_ne hp.apart.symm).trans ht.rule
  · split
    · next hi =>
      obtain ⟨vip', i', m, hm, hs⟩ := h.serves hp.mode
      cases hm.symm.trans (hp.member.trans hi)
      exact (Tables.slotsOf_patch (hslot.trans hi) hs _).trans (if_neg hp.apart.symm)
    · next hi =>
      rw [Tables.slotsOf_patch_of_ne (by rwa [hslot]), ht.slots]
  · rw [← ht.slots] at hm
    exact (Tables.slotsOf_patch (hslot.trans hi) hm _).trans (if_pos rfl)

theorem retire_of_relieved (h : t.Relieved s.tables p.source.addr p.target.addr)
    (hl : s.leases.get? p.source.addr = some p.id) (hi : s.tables.Intact) :
    (t.Replaceable p.source.addr ∧
      s.applyAs (some p.id) p.retireBatch = .ok ({ s with tables := s.tables.patch p.retirePatch }, true)) ∨
    (¬ t.Replaceable p.source.addr ∧ ∃ e, s.applyAs (some p.id) p.retireBatch = .error e) := by
  rw [retire_eq hl hi, h.replaceable_iff]
  unfold retireAnswer
  split
  · next hrule =>
    split
    · next hany =>
      obtain ⟨m, hm, he⟩ := List.any_eq_true.1 hany
      obtain ⟨vip, i, m, hm⟩ := hi.bound_iff.1 ⟨m, hm, of_decide_eq_true he⟩
      refine .inr ⟨fun hr => ?_, _, rfl⟩
      cases (hr.2 vip i).symm.trans hm
    · next hany =>
      refine .inl ⟨⟨hrule, fun vip i => ?_⟩, rfl⟩
      rw [Option.eq_none_iff_forall_ne_some]
      intro m hm
      obtain ⟨m, hm, he⟩ := hi.bound_iff.2 ⟨vip, i, m, hm⟩
      exact hany (List.any_eq_true.2 ⟨m, hm, decide_eq_true he⟩)
  · next hrule => exact .inr ⟨fun hr => hrule hr.1, _, rfl⟩

inductive Standing (config : Config) (p : Plan) (t t' : Tables) : List Batch → List Batch → Prop
  | planned : t.Same t' p.source.addr → Standing config p t t' [] []
  | served : t.Relieved t' p.source.addr p.target.addr →
      Standing config p t t' [p.traffic config] [p.traffic config]
  | stuck : ¬ t.Replaceable p.source.addr → t.Relieved t' p.source.addr p.target.addr →
      Standing config p t t' [p.traffic config, p.retireBatch] [p.traffic config]
  | replaced : t.Replaceable p.source.addr → t.Replaced t' p.source.addr p.target.addr →
      Standing config p t t' [p.traffic config, p.retireBatch] [p.traffic config, p.retireBatch]

namespace Standing

variable {t' t'' : Tables} {as bs : List Batch}

theorem congr (h : p.Standing config t t' as bs) (hs : t'.Same t'' p.source.addr)
    (ht : t'.Same t'' p.target.addr) : p.Standing config t t'' as bs := by
  have relieved : t.Relieved t' p.source.addr p.target.addr →
      t.Relieved t'' p.source.addr p.target.addr := by
    intro h
    refine ⟨hs.endpoint.trans h.endpoint, hs.rule.trans h.rule, ?_, ?_⟩
    · rw [hs.slots]
      exact h.slots
    · rw [ht.slots]
      exact h.given
  cases h with
  | planned h => exact .planned ⟨hs.endpoint.trans h.endpoint, hs.rule.trans h.rule, hs.slots.trans h.slots⟩
  | served h => exact .served (relieved h)
  | stuck hn h => exact .stuck hn (relieved h)
  | replaced hr h =>
    refine .replaced hr ⟨hs.endpoint.trans h.endpoint, hs.rule.trans h.rule, ?_, ?_⟩
    · rw [hs.slots]
      exact h.slots
    · rw [ht.slots]
      exact h.given

theorem write (h : p.Standing config t s.tables as bs) (hp : p.Rebinds t)
    (hw : p.Writes config (as ++ b :: cs)) (hi : s.tables.Intact) (hready : as = [] → p.Ready s)
    (hl : s.leases.get? p.source.addr = some p.id) :
    p.Standing config t (s.act (.write (some p.id) b)).tables (as ++ [b])
      (bs ++ (written? (.did (.write b ((s.applyAs (some p.id) b).map Prod.snd)))).toList) := by
  cases h with
  | planned h =>
    have hb : b = p.traffic config := by
      rcases hw with hw | hw | ⟨-, hw⟩
      · cases hw
      · exact (List.cons.inj hw).1
      · exact (List.cons.inj hw).1
    have ht := (hready rfl).traffic_eq config
    rw [hb, Store.act, ht]
    exact .served ((hready rfl).relieved hp h)
  | served h =>
    have hb : b = p.retireBatch := by
      rcases hw with hw | hw | ⟨-, hw⟩
      · cases hw
      · simp at hw
      · simpa using (List.cons.inj (List.cons.inj hw).2).1
    rw [hb, Store.act]
    rcases retire_of_relieved h hl hi with ⟨hr, ht⟩ | ⟨hr, e, he⟩
    · rw [ht]
      exact .replaced hr (h.replaced hr)
    · rw [he]
      exact .stuck hr h
  | stuck | replaced =>
    rcases hw with hw | hw | ⟨-, hw⟩
    · cases hw
    · simp at hw
    · simp at hw

theorem performs {l : Lease} {u : Store} {k : List Occurrence} (h : Store.Performs l s es u)
    (hp : p.Rebinds t) (hj : l.job = p.id) (hw : p.Writes config (attempted (k ++ es.map .did)))
    (hlast : ∀ es₁ j es₂, es = es₁ ++ .publish j :: es₂ → es₂ = []) (hi : s.tables.Intact)
    (hready : attempted k = [] → p.Ready s) (hl : s.leases.get? p.source.addr = some p.id)
    (hs : p.Standing config t s.tables (attempted k) (written k)) :
    p.Standing config t u.tables (attempted (k ++ es.map .did)) (written (k ++ es.map .did)) := by
  induction h generalizing k with
  | nil => simpa using hs
  | @idle s es u e he _ ih =>
    have ha : attempted (k ++ [.did e]) = attempted k := by
      cases e with
      | write => cases he
      | _ => simp [attempt?]
    have hb : written (k ++ [.did e]) = written k := by
      cases e with
      | write => cases he
      | _ => simp [written?]
    rw [List.map_cons, List.append_cons] at hw ⊢
    refine ih hw (fun es₁ j es₂ hes => hlast (_ :: es₁) j es₂ (congrArg (_ :: ·) hes)) hi ?_ hl ?_
    · rw [ha]
      exact hready
    · rw [ha, hb]
      exact hs
  | @write es u s b _ ih =>
    rw [List.map_cons, List.append_cons] at hw ⊢
    have hdue : p.Writes config (attempted k ++ b :: attempted (es.map .did)) := by
      simpa [attempt?] using hw
    have hnext := hs.write hp hdue hi hready hl
    refine ih hw (fun es₁ j es₂ hes => hlast (_ :: es₁) j es₂ (congrArg (_ :: ·) hes)) ?_ ?_ ?_ ?_
    · exact Store.intact_act hi _
    · simp [attempt?]
    · rw [Store.leases_act_of_isWrite (a := .write ..) trivial]
      exact hl
    · simpa [attempt?, hj] using hnext
  | @publish es u s j h _ =>
    cases hlast [] j es rfl
    cases h
    have ht : (s.act (.drop l)).tables = s.tables := Store.tables_release s l
    rw [ht]
    simpa [attempt?, written?] using hs

end Standing

end Plan

theorem Store.same_of_holding {s u : Store} {a : Addr} (h : u.holding a = s.holding a) :
    s.tables.Same u.tables a :=
  ⟨congrArg Holding.endpoint h, congrArg Holding.rule h, congrArg Holding.slots h⟩

namespace Watch

variable {w : Watch} {i : Input} {id : JobId} {p : Plan} {t : Tables}

structure Replacing (w : Watch) (id : JobId) (p : Plan) (t : Tables) : Prop where
  faithful : w.Faithful id
  holds : w.Holds id
  accepted : (w.journal id).head? = some (.accepted p)
  uncancelled : ∀ j, w.controller.job? id = some j → j.cancelRequested = false
  standing : ∀ r, w.controller.run? id = some r → p.Standing w.controller.config t
    w.controller.store.tables (attempted (w.journal id)) (written (w.journal id))

theorem plan_of_run? (hw : w.Sound) (ha : (w.journal id).head? = some (.accepted p))
    (hr : w.controller.run? id = some r) : r.plan = p := by
  cases hw.stands id with
  | unknown _ hn | ended hn => cases hr.symm.trans hn
  | underWay hr' _ _ hc =>
    cases hr.symm.trans hr'
    cases hc.head?_eq.symm.trans ha
    rfl

theorem job?_ne_none (hw : w.Sound) (ha : (w.journal id).head? = some (.accepted p)) :
    w.controller.job? id ≠ none := by
  intro hn
  cases hw.stands id with
  | unknown _ _ hl =>
    rw [hl] at ha
    cases ha
  | underWay _ hj | ended _ hj => cases hn.symm.trans hj

namespace Replacing

variable (h : w.Replacing id p t) (hw : w.Sound) (hp : p.Rebinds t)

include h hw hp

theorem standing_turn (ht : w.controller.Turned i id j r before u) :
    p.Standing w.controller.config t (w.step i).controller.store.tables
      (attempted ((w.step i).journal id)) (written ((w.step i).journal id)) := by
  obtain ⟨hlog, stage, pr, hc⟩ := hw.course_of_turned ht
  have hplan := plan_of_run? hw h.accepted ht.run
  have honest := (faithful_turn hw ht h.faithful).honest p
  have hbefore := ht.attempted_before
  rw [hplan] at hc
  rw [hlog] at honest ⊢
  rw [controller_step, ht.store]
  refine .performs ht.yields.of_start.1 hp ?_ (hc.accounts honest).writes.1 ?_ h.faithful.intact ?_ ?_ ?_
  · rw [hw.lease_job ht.run, ← Controller.plan_id_of_run? ht.run, hplan]
  · rintro es₁ k es₂ he
    have hsplit : w.journal id ++ before ++ u.effects.map .did =
        w.journal id ++ before ++ es₁.map .did ++ .did (.publish k) :: es₂.map .did := by simp [he]
    simpa using hc.nil_of_published hsplit
  · intro hn
    rw [attempted_append, List.append_eq_nil_iff] at hn
    exact hplan ▸ h.faithful.ready r ht.run hn.1
  · have hl := h.holds r ht.run r.plan.source.addr (by simp)
    rw [← Controller.plan_id_of_run? ht.run, hplan] at hl
    exact hl
  · rw [attempted_append, written_append, hbefore, written_of_attempted hbefore, List.append_nil,
      List.append_nil]
    exact h.standing r ht.run

theorem step (hi : ∀ a, i = .store a → a.ByOthers id) (hn : i ≠ .cancel id) :
    (w.step i).Replacing id p t := by
  have hconfig : (w.step i).controller.config = w.controller.config := w.controller.config_step i
  have hlog := w.journal_step i id
  refine ⟨faithful_step hw hi h.faithful, holds_step hw hi h.faithful.intact h.holds,
    head?_foldl h.accepted [i], fun k hk => ?_, fun r hr => ?_⟩
  · rw [controller_step] at hk
    cases hw.fate i id with
    | spared hj =>
      rw [hj] at hk
      exact h.uncancelled k hk
    | accepted hj => exact absurd hj (job?_ne_none hw h.accepted)
    | cancelled hc => exact absurd hc hn
    | turned ht =>
      cases hk.symm.trans ht.job_after
      exact ht.yields.job.cancelRequested.trans (h.uncancelled _ ht.job)
  · rw [hconfig]
    rw [controller_step] at hr
    cases hw.fate i id with
    | spared _ hsame hnil hacts =>
      rw [hsame] at hr
      have hplan := plan_of_run? hw h.accepted hr
      have same : ∀ a ∈ [p.source.addr, p.target.addr],
          w.controller.store.tables.Same (w.step i).controller.store.tables a := by
        intro a ha
        rw [controller_step, w.controller.store_step]
        rw [← hplan] at ha
        exact Store.same_of_holding
          (Store.leased_address_isolated (h.holds r hr a ha) (byOthers_of_spared hi hacts))
      rw [hlog, hnil, List.append_nil]
      exact (h.standing r hr).congr (same _ (by simp)) (same _ (by simp))
    | accepted hj => exact absurd hj (job?_ne_none hw h.accepted)
    | cancelled hc => exact absurd hc hn
    | turned ht => exact h.standing_turn hw hp ht

/-- A replacement that hears nothing but good comes to an end that its tables decide on. -/
theorem concludes (hj : w.controller.job? id = some j) (hj' : (w.step i).controller.job? id = some k)
    (hs : j.isTerminal = false) (ht : k.isTerminal = true) (hl : Smooth ((w.step i).journal id)) (hn : i ≠ .cancel id) :
    k.Concludes t (w.step i).controller.store.tables p.source.addr p.target.addr := by
  rw [controller_step] at hj'
  cases hw.fate i id with
  | spared hsame =>
    cases hj.symm.trans (hsame.symm.trans hj')
    cases hs.symm.trans ht
  | accepted hnone => cases hj.symm.trans hnone
  | cancelled hc => exact absurd hc hn
  | @turned _ r before u hturned =>
    cases hj'.symm.trans hturned.job_after
    obtain ⟨hlog, stage, pr, hc⟩ := hw.course_of_turned hturned
    have hstanding := h.standing_turn hw hp hturned
    have honest := (faithful_turn hw hturned h.faithful).honest p
    rw [plan_of_run? hw h.accepted hturned.run, ← hlog] at hc
    cases hc.finished_of_terminal ht
    have haccounted := hc.accounted honest
    have hcancel : u.job.cancelRequested = false :=
      hturned.yields.job.cancelRequested.trans (h.uncancelled _ hturned.job)
    -- Neither cancelled nor let down by a call, the job can have failed only by a refusal of the store.
    have hsucceeded : written ((w.step i).journal id) = attempted ((w.step i).journal id) →
        u.job.status = .succeeded := by
      intro he
      apply Decidable.byContradiction
      intro hf
      have hlt := hc.refused_of_amiss hcancel hl hf
      rw [he] at hlt
      exact Nat.lt_irrefl _ hlt
    have hbatches : p.batches w.controller.config = [p.traffic w.controller.config, p.retireBatch] := by
      simp only [Plan.batches, hp.mode]
    generalize ha : attempted ((w.step i).journal id) = as at hstanding hsucceeded
    generalize hb : written ((w.step i).journal id) = bs at hstanding hsucceeded
    cases hstanding with
    -- A job that has succeeded has written both of its batches.
    | planned | served =>
      have hall := ((haccounted.succeeded ht).1 (hsucceeded rfl)).1
      rw [hb, hbatches] at hall
      simp at hall
    | replaced hr h' => exact ⟨fun _ => ⟨hsucceeded rfl, h'⟩, fun hn => absurd hr hn⟩
    | stuck hr h' =>
      have hfailed : u.job.status = .failed := by
        cases hstatus : u.job.status with
        | failed => rfl
        | running => simp [Job.isTerminal, hstatus] at ht
        | succeeded =>
          have hall := ((haccounted.succeeded ht).1 hstatus).1
          rw [hb, hbatches] at hall
          simp at hall
        | cancelled =>
          have hnone := haccounted.cancelled hstatus
          rw [hb] at hnone
          cases hnone
      refine ⟨fun h => absurd h hr, fun _ => ⟨hfailed, haccounted.failed hfailed ?_, h'⟩⟩
      rw [hb]
      exact List.cons_ne_nil _ _

end Replacing

theorem replacing_of_submit (hw : w.Sound) (h : w.controller.store.tables.Intact)
    (hj : w.controller.job? id = none) (hq : w.controller.submit now id q = .ok c')
    (hnew : q.newIdentity = some new) : ∃ p, p.Rebinds w.controller.store.tables ∧
      p.source.addr = q.source ∧ p.target.addr = new.addr ∧
      (w.step (.submit now id q)).Replacing id p w.controller.store.tables := by
  obtain ⟨e, host, p, he, -, hsource, htarget, hmode, hmember, hc', hl, hf⟩ :=
    faithful_of_submit hw h hj hq
  obtain ⟨hrun, hnil, -⟩ := faithful_of_unknown hw h hj
  have haddr : p.source.addr = q.source := by
    rw [hsource]
    exact h.endpoint _ _ he
  have hrebinds : p.mode = .memberRebind := by rw [hmode, hnew]; rfl
  cases hw.fate (.submit now id q) id with
  | spared _ _ hn =>
    rw [journal_step, hnil, hn] at hl
    cases hl
  | cancelled hc => cases hc
  | turned ht => cases hj.symm.trans ht.job
  | @accepted _ r _ _ _ hr hlog _ hgranted hready =>
    have hplan : r.plan = p := by
      rw [journal_step, hnil, hlog] at hl
      cases hl
      rfl
    refine ⟨p, ⟨hrebinds, haddr ▸ hmember, ?_⟩, haddr, ?_, hf, ?_, by rw [hl]; rfl, ?_, ?_⟩
    · exact (hplan ▸ hready h).source_ne_target hrebinds
    · rw [htarget, hnew]
      rfl
    · refine holds_step hw (fun a ha => ?_) h fun r hr => ?_
      · cases ha
      · cases hrun.symm.trans hr
    · intro k hk
      obtain ⟨_, _, _, _, _, -, -, -, -, -, rfl⟩ := Controller.submit_eq_ok hq
      rw [hc', Controller.job?_accept rfl] at hk
      cases hk.symm.trans (if_pos rfl)
      rfl
    · intro _ _
      have ht : (w.step (.submit now id q)).controller.store.tables = w.controller.store.tables :=
        hgranted.tables
      rw [hl, ht]
      exact .planned ⟨rfl, rfl, rfl⟩

end Watch

namespace Controller

/-- Left alone, and with nothing but good to hear, a replacement can always be brought to its end, and what
that is depends on its source. With a rule and no slot but the one that is found for it, the job succeeds
and nothing is left of the source. Otherwise it fails when traffic was moved and the source is gone from its
host, and the source keeps its records and its other slots. -/
theorem replacement_concludes (config : Config) {s : Store} {early late : List Input} {id : JobId}
    {q : MigrationRequest} {c' : Controller} {new : Identity} (hs : s.History ops)
    (hj : ((idle config s).watch early).controller.job? id = none)
    (hq : ((idle config s).watch early).controller.submit now id q = .ok c')
    (hnew : q.newIdentity = some new) (hi : ∀ a, .store a ∈ late → a.ByOthers id) (hn : .cancel id ∉ late)
    (hgood : Smooth (((idle config s).watch (early ++ .submit now id q :: late)).journal id)) :
    let t := ((idle config s).watch early).controller.store.tables
    let run := fun inputs => (idle config s).watch (early ++ .submit now id q :: inputs)
    (∃ more j, (∀ i ∈ more, i.Drives id) ∧ Smooth ((run (late ++ more)).journal id) ∧
      (run (late ++ more)).controller.job? id = some j ∧ j.isTerminal = true) ∧
    ∀ before i after j k, late = before ++ i :: after → (run before).controller.job? id = some j →
      (run (before ++ [i])).controller.job? id = some k → j.isTerminal = false → k.isTerminal = true →
      k.Concludes t (run (before ++ [i])).controller.store.tables q.source new.addr := by
  intro t run
  let w₀ := (idle config s).watch early
  have hw₀ : w₀.Sound := Watch.sound_watch config s early
  have hintact : w₀.controller.store.tables.Intact := Watch.intact_watch config hs.intact early
  obtain ⟨p, hp, hsource, htarget, hreplacing⟩ := Watch.replacing_of_submit hw₀ hintact hj hq hnew
  let w₁ := w₀.step (.submit now id q)
  have hw₁ : w₁.Sound := hw₀.step _
  have hrun : ∀ inputs, run inputs = inputs.foldl Watch.step w₁ := fun _ => watch_append_cons ..
  have hsound : ∀ inputs, (run inputs).Sound := fun _ => Watch.sound_watch ..
  constructor
  · obtain ⟨more, hmore, hl, hnone⟩ := Watch.exists_smooth_end (hsound late) hgood
    have happend : more.foldl Watch.step (run late) = run (late ++ more) := by
      rw [hrun, hrun, List.foldl_append]
    rw [happend] at hl hnone
    have hhead := Watch.head?_foldl hreplacing.accepted (late ++ more)
    rw [← hrun] at hhead
    obtain ⟨j, hjob⟩ := Option.ne_none_iff_exists'.1 (Watch.job?_ne_none (hsound _) hhead)
    refine ⟨more, j, hmore, hl, hjob, ?_⟩
    have hrunning := (((hsound _).stands id).running_iff hjob).not.2 (by simp [hnone])
    simpa [Job.isTerminal] using hrunning
  · rintro before i after j k rfl hjob hjob' hunfinished hend
    -- Up to the input at which it ends, nobody has come between the replacement and its tables.
    have hbefore : (run before).Replacing id p t := by
      rw [hrun]
      refine Watch.foldl_induction (q := fun i => (∀ a, i = .store a → a.ByOthers id) ∧ i ≠ .cancel id)
        (P := fun w => w.Replacing id p t) (fun w i hw hq h => h.step hw hp hq.1 hq.2) ?_ hw₁ hreplacing
      intro i hm
      refine ⟨?_, ?_⟩
      · rintro a rfl
        exact hi a (by simp [hm])
      · rintro rfl
        exact hn (by simp [hm])
    have hstep : run (before ++ [i]) = (run before).step i := by
      rw [hrun, hrun, List.foldl_append]
      rfl
    have hprefix : (run (before ++ [i])).journal id <+: (run (before ++ i :: after)).journal id := by
      have happend : before ++ i :: after = before ++ [i] ++ after := List.append_cons ..
      rw [hrun, hrun, happend, List.foldl_append (l := before ++ [i])]
      exact Watch.journal_prefix ..
    obtain ⟨l, hl⟩ := hprefix
    have hgood' : Smooth ((run (before ++ [i])).journal id) := by
      refine .of_append (m := l) ?_
      rw [hl]
      exact hgood
    rw [hstep] at hjob' hgood' ⊢
    rw [← hsource, ← htarget]
    refine hbefore.concludes (hsound before) hp hjob hjob' hunfinished hend hgood' ?_
    rintro rfl
    exact hn (by simp)

theorem replacement_concludes_of_one_slot :
    let e : Endpoint := ⟨⟨⟨10⟩, ⟨.replicate 6 1⟩⟩, "a", 1, "web"⟩
    let new : Identity := ⟨⟨11⟩, ⟨.replicate 6 2⟩⟩
    let ops : List Op := [.createGroup ⟨1⟩ 2, .putEndpoint e, .putRule ⟨⟨10⟩, 1, none⟩, .bind ⟨1⟩ 0 ⟨10⟩]
    let s := Store.empty.act (.write none ⟨ops⟩)
    let config := Config.plain [⟨"a", "a", 1, "eth0", "/var"⟩, ⟨"b", "b", 2, "eth0", "/var"⟩] []
    let now : Moment := ⟨0, 0, 0⟩
    let p : Plan :=
      ⟨.ofNat 7, e, e.migrated "b" 2 (some new), .memberRebind, .afterForwarding, some (⟨1⟩, 0)⟩
    let x : Snapshot := ⟨"x", ⟨10⟩, "a", "/var/x", 5, now.wall⟩
    let before := p.delivered now x ++ .store .teardownAll :: p.reattached now x ++ [
      .answer now p.id (.announce p.target) (.ok ()), .answer now p.id (.teardown e) (.ok ()),
      .answer now p.id (.detach e) (.ok ())]
    let last := Input.answer now p.id (.discard x) (.ok ())
    let run := fun inputs =>
      (idle config s).watch ([] ++ .submit now.wall p.id ⟨⟨10⟩, "b", some new⟩ :: inputs)
    s.History ops ∧ ((idle config s).watch []).controller.job? p.id = none ∧
      (∀ a, .store a ∈ before ++ [last] → a.ByOthers p.id) ∧ .cancel p.id ∉ before ++ [last] ∧
      Smooth ((run (before ++ [last])).journal p.id) ∧
      ∃ k, (run (before ++ [last])).controller.job? p.id = some k ∧ k.status = .succeeded ∧
        s.tables.Replaced (run (before ++ [last])).controller.store.tables ⟨10⟩ ⟨11⟩ := by
  intro e new ops s config now p x before last run
  have hs : s.History ops := by
    have h := Store.History.empty.act (.write none ⟨ops⟩)
    have ho : Store.empty.carriedOut (.write none ⟨ops⟩) = ops := by decide
    rw [ho] at h
    exact h
  have hj : ((idle config s).watch []).controller.job? p.id = none := by decide
  have hi : ∀ a, .store a ∈ before ++ [last] → a.ByOthers p.id := by
    intro a ha
    have hall : a = .teardownAll := by
      simpa [before, last, Plan.delivered, Plan.reattached] using ha
    rw [hall]
    trivial
  have hn : .cancel p.id ∉ before ++ [last] := by simp [before, last, Plan.delivered, Plan.reattached]
  have hgood : Smooth ((run (before ++ [last])).journal p.id) := by decide +kernel
  have hunfinished : ((run before).controller.job? p.id).map (·.status) = some .running := by decide +kernel
  have hend : ((run (before ++ [last])).controller.job? p.id).map (·.status) = some .succeeded := by
    decide +kernel
  have hok : (((idle config s).watch []).controller.submit now.wall p.id
      ⟨⟨10⟩, "b", some new⟩).isOk = true := by decide +kernel
  refine ⟨hs, hj, hi, hn, hgood, ?_⟩
  clear_value s before last
  cases hq : ((idle config s).watch []).controller.submit now.wall p.id ⟨⟨10⟩, "b", some new⟩ with
  | error e =>
    rw [hq] at hok
    cases hok
  | ok c' =>
    obtain ⟨j, hjob, hrunning⟩ := Option.map_eq_some_iff.1 hunfinished
    obtain ⟨k, hjob', hsucceeded⟩ := Option.map_eq_some_iff.1 hend
    have hconcludes := (replacement_concludes config hs hj hq rfl hi hn hgood).2 before last [] j k rfl
      hjob hjob' (by simp [Job.isTerminal, hrunning]) (by simp [Job.isTerminal, hsucceeded])
    have hreplaceable : s.tables.Replaceable ⟨10⟩ := by
      apply Classical.byContradiction
      intro hr
      cases hsucceeded.symm.trans (hconcludes.stuck hr).1
    exact ⟨k, hjob', hsucceeded, (hconcludes.done hreplaceable).2⟩

/-- A member of two slots: all calls succeed, and the job fails when its source is gone from its host. The
source keeps one of its slots, and the traffic of that goes nowhere. -/
theorem replacement_refused_of_two_slots :
    let e : Endpoint := ⟨⟨⟨10⟩, ⟨.replicate 6 1⟩⟩, "a", 1, "web"⟩
    let new : Identity := ⟨⟨11⟩, ⟨.replicate 6 2⟩⟩
    let ops : List Op := [.createGroup ⟨1⟩ 2, .putEndpoint e, .putRule ⟨⟨10⟩, 1, none⟩, .bind ⟨1⟩ 0 ⟨10⟩,
      .bind ⟨1⟩ 1 ⟨10⟩]
    let s := Store.empty.act (.write none ⟨ops⟩)
    let config := Config.plain [⟨"a", "a", 1, "eth0", "/var"⟩, ⟨"b", "b", 2, "eth0", "/var"⟩] []
    let now : Moment := ⟨0, 0, 0⟩
    let p : Plan :=
      ⟨.ofNat 7, e, e.migrated "b" 2 (some new), .memberRebind, .afterForwarding, some (⟨1⟩, 0)⟩
    let x : Snapshot := ⟨"x", ⟨10⟩, "a", "/var/x", 5, now.wall⟩
    let w := (idle config s).watch (.submit now.wall p.id ⟨⟨10⟩, "b", some new⟩ ::
      p.delivered now x ++ p.reattached now x ++ [
        .answer now p.id (.announce p.target) (.ok ()), .answer now p.id (.teardown e) (.ok ()),
        .answer now p.id (.detach e) (.ok ()), .answer now p.id (.discard x) (.ok ())])
    let t := w.controller.store.tables
    (w.journal p.id).head? = some (.accepted p) ∧ Smooth (w.journal p.id) ∧
      .answered (.teardown e) (.ok ()) ∈ w.journal p.id ∧
      (w.controller.job? p.id).map (fun j => (j.status, j.diagnostic.map (·.phase))) =
        some (.failed, some .sourceTeardown) ∧
      t.endpoints.get? ⟨10⟩ = some e ∧ t.slotsOf ⟨11⟩ ⟨1⟩ 0 = some ⟨0, ⟨11⟩, true⟩ ∧
      t.slotsOf ⟨10⟩ ⟨1⟩ 1 = some ⟨1, ⟨10⟩, true⟩ := by
  intro e new ops s config now p x w t
  exact ⟨by decide +kernel, by decide +kernel, by decide +kernel, by decide +kernel, by decide +kernel,
    by decide +kernel, by decide +kernel⟩

end Controller

end LiveMigration
