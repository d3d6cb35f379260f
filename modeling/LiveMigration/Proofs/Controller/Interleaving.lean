import LiveMigration.Proofs.Controller.Standing

namespace LiveMigration

open Journal

namespace Store

def Answers (s : Store) (job : JobId) (b : Batch) (v : Except Error Patch) : Prop :=
  s.applyAs (some job) b = v.map fun P => ({ s with tables := s.tables.patch P }, true)

def afterwards (s : Store) : Except Error Patch → Store
  | .ok P => { s with tables := s.tables.patch P }
  | .error _ => s

structure Owns (s : Store) (job : JobId) (P : Patch) : Prop where
  addr : s.leases.get? P.addr = some job
  slot : ∀ vip i, P.slot = some (vip, i) → ∃ a m, s.leases.get? a = some job ∧
    s.tables.slotsOf a vip i = some m

variable {s : Store} {job : JobId} {b : Batch} {v : Except Error Patch}

theorem Answers.act (h : s.Answers job b v) : s.act (.write (some job) b) = s.afterwards v := by
  cases v with
  | error e =>
    have he : s.applyAs (some job) b = .error e := h
    simp only [Store.act, he, settle, afterwards]
  | ok P =>
    have ho : s.applyAs (some job) b = .ok ({ s with tables := s.tables.patch P }, true) := h
    simp only [Store.act, ho, settle, afterwards]

theorem Answers.verdict (h : s.Answers job b v) :
    (s.applyAs (some job) b).map Prod.snd = v.map fun _ => true := by
  rw [h]
  cases v <;> rfl

theorem Owns.comm {job' : JobId} {P Q : Patch} (hP : s.Owns job P) (hQ : s.Owns job' Q) (hne : job ≠ job') :
    (s.tables.patch P).patch Q = (s.tables.patch Q).patch P := by
  have hapart : ∀ a, s.leases.get? a = some job → s.leases.get? a ≠ some job' := by
    intro a ha ha'
    exact hne (Option.some.inj (ha.symm.trans ha'))
  apply Tables.patch_comm
  · intro ha
    exact hapart _ hP.addr (ha ▸ hQ.addr)
  · rintro ⟨vip, i⟩ hsP hsQ
    obtain ⟨a, m, ha, hm⟩ := hP.slot vip i hsP
    obtain ⟨a', m', ha', hm'⟩ := hQ.slot vip i hsQ
    obtain ⟨g, hg, hi, rfl⟩ := Tables.exists_slot_of_slotsOf hm
    obtain ⟨g', hg', hi', rfl⟩ := Tables.exists_slot_of_slotsOf hm'
    cases hg.symm.trans hg'
    cases hi.symm.trans hi'
    exact hapart _ ha ha'

theorem afterwards_comm {v' : Except Error Patch}
    (h : ∀ P Q, v = .ok P → v' = .ok Q → (s.tables.patch P).patch Q = (s.tables.patch Q).patch P) :
    (s.afterwards v).afterwards v' = (s.afterwards v').afterwards v := by
  cases v with
  | error e => rfl
  | ok P =>
    cases v' with
    | error e => rfl
    | ok Q => simp only [afterwards, h P Q rfl rfl]

end Store

def Plan.CanWrite (config : Config) (p : Plan) (s : Store) (bs : List Batch) : Prop :=
  bs = [] ∨ (bs <+: p.batches config ∧ p.Ready s) ∨
    (bs = [p.retireBatch] ∧ s.leases.get? p.source.addr = some p.id)

namespace Plan.CanWrite

variable {config : Config} {p : Plan} {s : Store} {b : Batch} {bs : List Batch}

theorem cons (h : p.CanWrite config s (b :: bs)) : (b = p.traffic config ∧ p.Ready s ∧
      (bs = [] ∨ bs = [p.retireBatch])) ∨
    (b = p.retireBatch ∧ s.leases.get? p.source.addr = some p.id ∧ bs = []) := by
  rcases h with h | ⟨h, hr⟩ | ⟨h, hl⟩
  · cases h
  · refine .inl ?_
    unfold batches at h
    split at h
    · obtain ⟨rfl, hbs⟩ := List.cons_prefix_cons.1 h
      exact ⟨rfl, hr, .inl (List.prefix_nil.1 hbs)⟩
    · obtain ⟨rfl, hbs⟩ := List.cons_prefix_cons.1 h
      refine ⟨rfl, hr, ?_⟩
      rcases List.prefix_cons_iff.1 hbs with hbs | ⟨_, hbs, hn⟩
      · exact .inl hbs
      · rw [List.prefix_nil.1 hn] at hbs
        exact .inr hbs
  · cases h
    exact .inr ⟨rfl, hl, rfl⟩

theorem act {a : Store.Action} (h : p.CanWrite config s bs) (ha : a.ByOthers p.id) :
    p.CanWrite config (s.act a) bs := by
  rcases h with h | ⟨h, hr⟩ | ⟨h, hl⟩
  · exact .inl h
  · exact .inr (.inl ⟨h, hr.act ha⟩)
  · exact .inr (.inr ⟨h, (congrArg Store.Holding.lease (Store.holding_act hl ha)).trans hl⟩)

theorem tail (h : p.CanWrite config s (b :: bs)) :
    p.CanWrite config (s.act (.write (some p.id) b)) bs := by
  rcases h.cons with ⟨rfl, hr, rfl | rfl⟩ | ⟨rfl, -, rfl⟩
  · exact .inl rfl
  · refine .inr (.inr ⟨rfl, ?_⟩)
    rw [Store.leases_act_of_isWrite (a := .write ..) trivial]
    exact hr.leased
  · exact .inl rfl

theorem answers (hi : s.tables.Intact) (h : p.CanWrite config s (b :: bs)) : ∃ v, s.Answers p.id b v ∧
    (∀ P, v = .ok P → s.Owns p.id P) ∧
    ∀ a : Store.Action, a.ByOthers p.id → (s.act a).Answers p.id b v := by
  rcases h.cons with ⟨rfl, hr, -⟩ | ⟨rfl, hl, -⟩
  · refine ⟨.ok (p.trafficPatch config), hr.traffic_eq config, ?_, fun a ha => (hr.act ha).traffic_eq config⟩
    rintro _ ⟨⟩
    refine ⟨hr.target_leased, fun vip i hs => ?_⟩
    cases hm : p.mode with
    | sameIdentity => simp [trafficPatch, hm] at hs
    | memberRebind =>
      obtain ⟨vip', i', m, hp, hslot⟩ := hr.serves hm
      simp only [trafficPatch, hm, hp, Option.some.injEq, Prod.mk.injEq] at hs
      obtain ⟨rfl, rfl⟩ := hs
      exact ⟨_, m, hr.leased, hslot⟩
  · refine ⟨p.retireAnswer s.tables, retire_eq hl hi, fun P hP => ?_, fun a ha => ?_⟩
    · unfold retireAnswer at hP
      split at hP
      · split at hP
        · cases hP
        · cases hP
          refine ⟨hl, fun vip i hs => ?_⟩
          cases hs
      · cases hP
    · have hkept := Store.holding_act hl ha
      have hi' : (s.act a).tables.Intact := Store.intact_act hi a
      rw [← retireAnswer_congr hi hi' (congrArg Store.Holding.rule hkept) (congrArg Store.Holding.slots hkept)]
      exact retire_eq ((congrArg Store.Holding.lease hkept).trans hl) hi'

end Plan.CanWrite

def JobId.own (id : JobId) (l : List (JobId × α)) : List α := (l.filter (·.1 = id)).map Prod.snd

namespace JobId

variable {id id' : JobId} {x : JobId × α} {l m : List (JobId × α)}

@[simp] theorem own_append : id.own (l ++ m) = id.own l ++ id.own m := by simp [own]

@[simp] theorem own_cons_self : x.1.own (x :: l) = x.2 :: x.1.own l := by simp [own]

theorem own_cons_of_ne (h : x.1 ≠ id) : id.own (x :: l) = id.own l := by simp [own, h]

theorem own_cons (id : JobId) (x : JobId × α) (l : List (JobId × α)) :
    id.own (x :: l) = (if x.1 = id then [x.2] else []) ++ id.own l := by
  split
  · next h =>
    subst h
    exact own_cons_self
  · next h => exact own_cons_of_ne h

theorem own_eq_cons {a : α} {as : List α} (h : id.own l = a :: as) :
    ∃ l₁ l₂, l = l₁ ++ (id, a) :: l₂ ∧ (∀ y ∈ l₁, y.1 ≠ id) ∧ id.own l₂ = as := by
  obtain ⟨⟨id', b⟩, rest, hf, rfl, rfl⟩ := List.map_eq_cons_iff.1 h
  obtain ⟨l₁, l₂, rfl, hn, hid, hrest⟩ := List.filter_eq_cons_iff.1 hf
  obtain rfl : id' = id := of_decide_eq_true hid
  exact ⟨l₁, l₂, rfl, fun y hy => by simpa using hn y hy, by rw [own, hrest]⟩

end JobId

namespace Store

def give (s : Store) (xs : List (JobId × Batch)) : Store :=
  xs.foldl (fun s x => s.act (.write (some x.1) x.2)) s

def verdicts (s : Store) : List (JobId × Batch) → List (JobId × Except Error Bool)
  | [] => []
  | x :: xs =>
    (x.1, (s.applyAs (some x.1) x.2).map Prod.snd) :: (s.act (.write (some x.1) x.2)).verdicts xs

/-- Two orders of batches make no difference, to the store or to any of them. -/
structure Alike (s : Store) (xs ys : List (JobId × Batch)) : Prop where
  give : s.give xs = s.give ys
  verdicts : ∀ id : JobId, id.own (s.verdicts xs) = id.own (s.verdicts ys)

namespace Alike

variable {s : Store} {x y : JobId × Batch} {xs ys zs : List (JobId × Batch)}

theorem refl (s : Store) (xs : List (JobId × Batch)) : s.Alike xs xs := ⟨rfl, fun _ => rfl⟩

theorem symm (h : s.Alike xs ys) : s.Alike ys xs := ⟨h.give.symm, fun id => (h.verdicts id).symm⟩

theorem trans (h : s.Alike xs ys) (k : s.Alike ys zs) : s.Alike xs zs :=
  ⟨h.give.trans k.give, fun id => (h.verdicts id).trans (k.verdicts id)⟩

theorem cons (h : (s.act (.write (some x.1) x.2)).Alike xs ys) : s.Alike (x :: xs) (x :: ys) := by
  refine ⟨h.give, fun id => ?_⟩
  simp only [Store.verdicts, JobId.own_cons, h.verdicts id]

end Alike

end Store

def Store.Takes (config : Config) (s : Store) (xs : List (JobId × Batch)) : Prop :=
  ∀ x ∈ xs, ∃ p : Plan, p.id = x.1 ∧ p.CanWrite config s (x.1.own xs)

namespace Store.Takes

variable {config : Config} {s : Store} {x y : JobId × Batch} {xs ys zs : List (JobId × Batch)}

theorem congr (h : s.Takes config xs) (hxy : ∀ id : JobId, id.own xs = id.own ys) : s.Takes config ys := by
  intro y hy
  have hown : y.2 ∈ y.1.own xs := by
    rw [hxy]
    exact List.mem_map.2 ⟨y, List.mem_filter.2 ⟨hy, by simp⟩, rfl⟩
  obtain ⟨x, hx, -⟩ := List.mem_map.1 hown
  obtain ⟨hx, he⟩ := List.mem_filter.1 hx
  obtain ⟨p, hp, hc⟩ := h x hx
  rw [of_decide_eq_true he, hxy] at hc
  exact ⟨p, hp.trans (of_decide_eq_true he), hc⟩

theorem tail (h : s.Takes config (x :: xs)) : (s.act (.write (some x.1) x.2)).Takes config xs := by
  intro y hy
  obtain ⟨p, hp, hc⟩ := h y (List.mem_cons_of_mem x hy)
  refine ⟨p, hp, ?_⟩
  by_cases hxy : x.1 = y.1
  · rw [← hxy, JobId.own_cons_self] at hc
    rw [← hxy]
    rw [← hp.trans hxy.symm] at hc ⊢
    exact hc.tail
  · rw [JobId.own_cons_of_ne hxy] at hc
    refine hc.act ?_
    intro he
    exact hxy ((Option.some.inj he).trans hp)

theorem swap (hi : s.tables.Intact) (h : s.Takes config (x :: y :: xs)) (hne : x.1 ≠ y.1) :
    s.Alike (x :: y :: xs) (y :: x :: xs) := by
  obtain ⟨p, hp, hc⟩ := h x List.mem_cons_self
  obtain ⟨p', hp', hc'⟩ := h y (by simp)
  rw [JobId.own_cons_self] at hc
  rw [JobId.own_cons_of_ne hne, JobId.own_cons_self] at hc'
  obtain ⟨v, hv, howns, hlasts⟩ := hc.answers hi
  obtain ⟨v', hv', howns', hlasts'⟩ := hc'.answers hi
  rw [hp] at hv howns hlasts
  rw [hp'] at hv' howns' hlasts'
  have hafter := hlasts (.write (some y.1) y.2) fun he => hne (Option.some.inj he).symm
  have hafter' := hlasts' (.write (some x.1) x.2) fun he => hne (Option.some.inj he)
  -- What a batch comes to is not changed by the other one, and the two patches commute.
  have hmeet : (s.act (.write (some x.1) x.2)).act (.write (some y.1) y.2) =
      (s.act (.write (some y.1) y.2)).act (.write (some x.1) x.2) := by
    rw [hafter'.act, hv.act, hafter.act, hv'.act]
    exact afterwards_comm fun P Q hP hQ => (howns P hP).comm (howns' Q hQ) hne
  refine ⟨?_, fun id => ?_⟩
  · simp only [give, List.foldl_cons, hmeet]
  · simp only [verdicts, JobId.own_cons, hmeet, hv.verdict, hafter.verdict, hv'.verdict, hafter'.verdict]
    by_cases hx : x.1 = id
    · have hy : y.1 ≠ id := fun hy => hne (hx.trans hy.symm)
      simp [hx, hy]
    · simp [hx]

theorem forward (hi : s.tables.Intact) (h : s.Takes config (ys ++ x :: zs)) (hn : ∀ y ∈ ys, y.1 ≠ x.1) :
    s.Alike (ys ++ x :: zs) (x :: (ys ++ zs)) := by
  induction ys generalizing s with
  | nil => exact .refl ..
  | cons y ys ih =>
    rw [List.forall_mem_cons] at hn
    have hrest : s.Alike (y :: (ys ++ x :: zs)) (y :: x :: (ys ++ zs)) :=
      (ih (intact_act hi _) h.tail hn.2).cons
    have hfirst : s.Takes config (y :: x :: (ys ++ zs)) := by
      refine h.congr fun id => ?_
      have hys : x.1 = id → id.own ys = [] := by
        intro hx
        simp only [JobId.own, List.map_eq_nil_iff, List.filter_eq_nil_iff, decide_eq_true_eq]
        exact fun y hy he => hn.2 y hy (he.trans hx.symm)
      simp only [List.cons_append, JobId.own_cons, JobId.own_append]
      by_cases hx : x.1 = id
      · simp [hx, hys hx]
      · simp [hx]
    exact hrest.trans (hfirst.swap hi hn.1)

/-- The order of batches makes no difference as long as each migration writes its own in turn. -/
theorem alike (hi : s.tables.Intact) (h : s.Takes config xs) (hxy : ∀ id : JobId, id.own xs = id.own ys) :
    s.Alike xs ys := by
  induction xs generalizing s ys with
  | nil =>
    cases ys with
    | nil => exact .refl ..
    | cons y ys =>
      have hy := hxy y.1
      rw [JobId.own_cons_self] at hy
      cases hy
  | cons x xs ih =>
    have hx := hxy x.1
    rw [JobId.own_cons_self] at hx
    obtain ⟨l₁, l₂, rfl, hn, hrest⟩ := JobId.own_eq_cons hx.symm
    have hmoved := (h.congr hxy).forward hi hn
    refine .trans (.cons (ih (intact_act hi _) h.tail fun id => ?_)) hmoved.symm
    have hid := hxy id
    simp only [JobId.own_cons, JobId.own_append] at hid ⊢
    by_cases he : x.1 = id
    · subst he
      have hl₁ : x.1.own l₁ = [] := by
        simpa [JobId.own] using hn
      rw [hl₁]
      exact hrest.symm
    · simpa [he] using hid

end Store.Takes

namespace Watch

variable {w : Watch} {id : JobId} {bs : List Batch}

theorem canWrite (hf : w.Faithful id) (hh : w.Holds id) (hr : w.controller.run? id = some r)
    (hb : attempted (w.journal id) ++ bs <+: r.plan.batches config) :
    r.plan.CanWrite config w.controller.store bs := by
  cases ha : attempted (w.journal id) with
  | nil =>
    rw [ha] at hb
    exact .inr (.inl ⟨hb, hf.ready r hr ha⟩)
  | cons b before =>
    have hlast : bs = [] ∨ bs = [r.plan.retireBatch] := by
      rw [ha] at hb
      unfold Plan.batches at hb
      split at hb
      · simp_all
      · obtain ⟨-, hb⟩ := List.cons_prefix_cons.1 hb
        cases before with
        | nil =>
          rcases List.prefix_cons_iff.1 hb with hb | ⟨_, hb, hn⟩
          · exact .inl hb
          · rw [List.prefix_nil.1 hn] at hb
            exact .inr hb
        | cons b' before => simp_all
    rcases hlast with rfl | rfl
    · exact .inl rfl
    · refine .inr (.inr ⟨rfl, ?_⟩)
      rw [Controller.plan_id_of_run? hr]
      exact hh r hr _ List.mem_cons_self

/-- Batches of migrations under way: of each migration the ones that it would write next. -/
def Upcoming (w : Watch) (xs : List (JobId × Batch)) : Prop :=
  ∀ x ∈ xs, ∃ r, w.controller.run? x.1 = some r ∧
    attempted (w.journal x.1) ++ x.1.own xs <+: r.plan.batches w.controller.config

end Watch

namespace Controller

/-- Since before a job was submitted nobody has written or given back leases in its name, and the leases
were not revoked. -/
def LeftAlone (c : Controller) (inputs : List Input) (id : JobId) : Prop :=
  ∃ early late, inputs = early ++ late ∧ (c.watch early).controller.job? id = none ∧
    ∀ a, .store a ∈ late → a.ByOthers id

/-- Migrations under way hold their leases, so in whatever order they write their next batches, each in the
order of its own, every batch fares the same and the store ends up the same. -/
theorem batches_commute (config : Config) {s : Store} {inputs : List Input} {xs ys : List (JobId × Batch)}
    (hs : s.History ops) (hnext : ((idle config s).watch inputs).Upcoming xs)
    (hleft : ∀ x ∈ xs, (idle config s).LeftAlone inputs x.1)
    (horder : ∀ id : JobId, id.own xs = id.own ys) :
    ((idle config s).watch inputs).controller.store.Alike xs ys := by
  have htakes : ((idle config s).watch inputs).controller.store.Takes config xs := by
    intro x hx
    obtain ⟨r, hr, hb⟩ := hnext x hx
    obtain ⟨early, late, rfl, hj, hi⟩ := hleft x hx
    have hconfig : ((idle config s).watch (early ++ late)).controller.config = config :=
      Watch.config_foldl _
    rw [hconfig] at hb
    rw [watch_append] at hr hb ⊢
    obtain ⟨hf, hh⟩ :=
      Watch.upheld_foldl (Watch.sound_watch config s early) (Watch.intact_watch config hs.intact early) hj hi
    exact ⟨r.plan, plan_id_of_run? hr, Watch.canWrite hf hh hr hb⟩
  exact htakes.alike (Watch.intact_watch config hs.intact inputs) horder

theorem batches_commute_of_two :
    let e : Endpoint := ⟨⟨⟨10⟩, ⟨.replicate 6 1⟩⟩, "a", 1, "web"⟩
    let e' : Endpoint := ⟨⟨⟨12⟩, ⟨.replicate 6 3⟩⟩, "a", 1, "web"⟩
    let new : Identity := ⟨⟨11⟩, ⟨.replicate 6 2⟩⟩
    let ops : List Op := [.createGroup ⟨1⟩ 2, .putEndpoint e, .putRule ⟨⟨10⟩, 1, none⟩, .bind ⟨1⟩ 0 ⟨10⟩,
      .putEndpoint e', .putRule ⟨⟨12⟩, 1, none⟩, .bind ⟨1⟩ 1 ⟨12⟩, .putNat 80 ⟨1⟩]
    let s := Store.empty.act (.write none ⟨ops⟩)
    let config := Config.plain [⟨"a", "a", 1, "eth0", "/var"⟩, ⟨"b", "b", 2, "eth0", "/var"⟩] []
    let now : Moment := ⟨0, 0, 0⟩
    let p : Plan :=
      ⟨.ofNat 7, e, e.migrated "b" 2 (some new), .memberRebind, .afterForwarding, some (⟨1⟩, 0)⟩
    let p' : Plan := ⟨.ofNat 8, e', e'.migrated "b" 2 none, .sameIdentity, .beforeRestore, some (⟨1⟩, 1)⟩
    let x : Snapshot := ⟨"x", ⟨10⟩, "a", "/var/x", 5, now.wall⟩
    let x' : Snapshot := ⟨"x'", ⟨12⟩, "a", "/var/x'", 5, now.wall⟩
    let inputs := [.submit now.wall p.id ⟨⟨10⟩, "b", some new⟩, .submit now.wall p'.id ⟨⟨12⟩, "b", none⟩] ++
      p.delivered now x ++ p'.delivered now x' ++ p.reattached now x
    let w := (idle config s).watch inputs
    let xs := [(p.id, p.traffic config), (p.id, p.retireBatch), (p'.id, p'.traffic config)]
    let ys := [(p.id, p.traffic config), (p'.id, p'.traffic config), (p.id, p.retireBatch)]
    s.History ops ∧ w.Upcoming xs ∧ (∀ x ∈ xs, (idle config s).LeftAlone inputs x.1) ∧
      (∀ id : JobId, id.own xs = id.own ys) ∧ w.controller.store.Alike xs ys ∧
      w.controller.store.verdicts ys = [(p.id, .ok true), (p'.id, .ok true), (p.id, .ok true)] := by
  intro e e' new ops s config now p p' x x' inputs w xs ys
  have hs : s.History ops := by
    have h := Store.History.empty.act (.write none ⟨ops⟩)
    have ho : Store.empty.carriedOut (.write none ⟨ops⟩) = ops := by decide
    rw [ho] at h
    exact h
  have hnext : w.Upcoming xs := by
    have hrun : (w.controller.run? p.id).map (·.plan) = some p := by decide +kernel
    have hrun' : (w.controller.run? p'.id).map (·.plan) = some p' := by decide +kernel
    obtain ⟨r, hr, hp⟩ := Option.map_eq_some_iff.1 hrun
    obtain ⟨r', hr', hp'⟩ := Option.map_eq_some_iff.1 hrun'
    have hb : attempted (w.journal p.id) ++ p.id.own xs <+: r.plan.batches w.controller.config := by
      rw [hp]
      decide +kernel
    have hb' : attempted (w.journal p'.id) ++ p'.id.own xs <+: r'.plan.batches w.controller.config := by
      rw [hp']
      decide +kernel
    intro x hx
    simp only [xs, List.mem_cons, List.not_mem_nil, or_false] at hx
    rcases hx with rfl | rfl | rfl
    · exact ⟨r, hr, hb⟩
    · exact ⟨r, hr, hb⟩
    · exact ⟨r', hr', hb'⟩
  have hleft : ∀ x ∈ xs, (idle config s).LeftAlone inputs x.1 := by
    refine fun x _ => ⟨[], inputs, rfl, rfl, fun a ha => ?_⟩
    simp [inputs, Plan.delivered, Plan.reattached] at ha
  have horder : ∀ id : JobId, id.own xs = id.own ys := by
    intro id
    by_cases hid : p.id = id
    · subst hid
      decide
    · simp only [xs, ys, JobId.own_cons, if_neg hid, List.nil_append]
  exact ⟨hs, hnext, hleft, horder, batches_commute config hs hnext hleft horder, by decide +kernel⟩

end Controller

end LiveMigration
