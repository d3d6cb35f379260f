import LiveMigration.Proofs.Controller.Interleaving
import LiveMigration.Proofs.Forwarding.Teardown

namespace LiveMigration

open Journal

namespace Plan

structure Anchored (p : Plan) (bs : List Batch) (t : Tables) : Prop where
  apart : p.mode = .memberRebind → p.source.addr ≠ p.target.addr
  there : bs ≠ [] → ∃ e, t.endpoints.get? p.target.addr = some e

variable {config : Config} {p : Plan} {s u : Store} {as : List Batch} {addr : Addr}

theorem endpoint_of_retire (h : p.source.addr ≠ addr) (holder : Option JobId) :
    (s.act (.write holder p.retireBatch)).tables.endpoints.get? addr = s.tables.endpoints.get? addr := by
  have hl := Store.leads_act s (.write holder p.retireBatch)
  generalize (s.act (.write holder p.retireBatch)).tables = t at hl ⊢
  simp only [Store.carriedOut, Store.published] at hl
  split at hl
  · cases hl with
    | cons hrule hl =>
      cases hl with
      | cons hgone hl =>
        cases hl
        have hout : addr ∉ [p.source.addr] := by simpa using h.symm
        exact (hgone.endpoint hout).trans (hrule.endpoint hout)
  · cases hl
    rfl

namespace Anchored

theorem write (h : p.Anchored as s.tables) (hw : p.Writes config (as ++ b :: cs)) (hr : as = [] → p.Ready s) :
    p.Anchored (as ++ [b]) (s.act (.write (some p.id) b)).tables := by
  refine ⟨h.apart, fun _ => ?_⟩
  cases as with
  | nil =>
    obtain rfl : b = p.traffic config := by
      rcases hw with hw | hw | ⟨-, hw⟩
      · cases hw
      · exact (List.cons.inj hw).1
      · exact (List.cons.inj hw).1
    rw [Store.act, (hr rfl).traffic_eq config]
    exact ⟨p.target, Table.get?_set_self ..⟩
  | cons a as =>
    obtain ⟨hm, rfl⟩ : p.mode = .memberRebind ∧ b = p.retireBatch := by
      rcases hw with hw | hw | ⟨hm, hw⟩
      · cases hw
      · simp at hw
      · cases as with
        | nil => exact ⟨hm, (List.cons.inj (List.cons.inj hw).2).1⟩
        | cons => simp at hw
    rw [endpoint_of_retire (h.apart hm)]
    exact h.there (List.cons_ne_nil _ _)

theorem performs {l : Lease} {k : List Occurrence} (h : Store.Performs l s es u) (hj : l.job = p.id)
    (hw : p.Writes config (attempted (k ++ es.map .did))) (hend : ∀ j, .publish j ∉ es)
    (hr : attempted k = [] → p.Ready s) (hk : p.Anchored (attempted k) s.tables) :
    p.Anchored (attempted (k ++ es.map .did)) u.tables := by
  induction h generalizing k with
  | nil => simpa using hk
  | @idle s es u e he _ ih =>
    have ha : attempted (k ++ [.did e]) = attempted k := by
      cases e with
      | write => cases he
      | _ => simp [attempt?]
    rw [List.map_cons, List.append_cons] at hw ⊢
    exact ih hw (fun j hm => hend j (List.mem_cons_of_mem _ hm)) (ha ▸ hr) (ha ▸ hk)
  | @write es u s b _ ih =>
    rw [List.map_cons, List.append_cons] at hw ⊢
    have hdue : p.Writes config (attempted k ++ b :: attempted (es.map .did)) := by
      simpa [attempt?] using hw
    have hnext := hk.write hdue hr
    refine ih hw (fun j hm => hend j (List.mem_cons_of_mem _ hm)) ?_ ?_
    · simp [attempt?]
    · simpa [attempt?, hj] using hnext
  | publish => exact absurd List.mem_cons_self (hend _)

end Anchored

end Plan

namespace Watch

variable {w : Watch} {i : Input} {id : JobId}

def Anchors (w : Watch) (id : JobId) : Prop := ∀ r, w.controller.run? id = some r →
  r.plan.Anchored (attempted (w.journal id)) w.controller.store.tables

theorem anchors_turn (hw : w.Sound) (hf : w.Faithful id) (h : w.Anchors id)
    (ht : w.controller.Turned i id j r before t) : (w.step i).Anchors id := by
  intro r' hr'
  have hrest : t.run.stage ≠ .finished := by
    intro hend
    cases hr'.symm.trans (ht.run_finished hend)
  cases hr'.symm.trans (ht.run_after hrest)
  obtain ⟨hlog, stage, pr, hc⟩ := hw.course_of_turned ht
  have honest := (faithful_turn hw ht hf).honest r.plan
  have hbefore : attempted (w.journal id ++ before) = attempted (w.journal id) := by
    rw [attempted_append, ht.attempted_before, List.append_nil]
  have hid : r.lease.job = r.plan.id := by
    rw [hw.lease_job ht.run, Controller.plan_id_of_run? ht.run]
  rw [hlog] at honest ⊢
  rw [controller_step, ht.store, ht.yields.plan]
  refine .performs ht.yields.of_start.1 hid (hc.accounts honest).writes.1 ?_ ?_ ?_
  · exact fun k hk => hrest ((publishes_iff hw ht).1 ⟨k, hk⟩)
  · rw [hbefore]
    exact hf.ready r ht.run
  · rw [hbefore]
    exact h r ht.run

theorem anchors_step (hw : w.Sound) (hi : ∀ a, i = .store a → a.ByOthers id) (hf : w.Faithful id)
    (hh : w.Holds id) (h : w.Anchors id) : (w.step i).Anchors id := by
  have hlog := w.journal_step i id
  cases hw.fate i id with
  | spared _ hsame hnil hacts =>
    intro r hr
    rw [controller_step, hsame] at hr
    rw [hlog, hnil, List.append_nil, controller_step, w.controller.store_step]
    have hkept := Store.leased_address_isolated (hh r hr r.plan.target.addr (by simp))
      (byOthers_of_spared hi hacts)
    refine ⟨(h r hr).apart, fun hb => ?_⟩
    obtain ⟨e, he⟩ := (h r hr).there hb
    exact ⟨e, (congrArg Store.Holding.endpoint hkept).trans he⟩
  | cancelled hc _ _ _ hsame hnil =>
    intro r hr
    rw [controller_step, hsame] at hr
    rw [hlog, hnil, Journal.of_nil, List.append_nil, controller_step, w.controller.store_step, hc]
    exact h r hr
  | accepted hj _ _ hnew hone _ _ hready =>
    intro r hr
    cases hr.symm.trans hnew
    obtain ⟨-, hnil, -⟩ := faithful_of_unknown hw hf.intact hj
    refine ⟨fun hm => (hready hf.intact).source_ne_target hm, fun hb => absurd ?_ hb⟩
    rw [hlog, hnil, hone]
    rfl
  | turned ht => exact anchors_turn hw hf h ht

theorem anchors_foldl {inputs : List Input} (hw : w.Sound) (hintact : w.controller.store.tables.Intact)
    (hj : w.controller.job? id = none) (hi : ∀ a, .store a ∈ inputs → a.ByOthers id) :
    (inputs.foldl step w).Faithful id ∧ (inputs.foldl step w).Holds id ∧ (inputs.foldl step w).Anchors id := by
  obtain ⟨hr, -, hf⟩ := faithful_of_unknown hw hintact hj
  refine foldl_induction (q := fun i => ∀ a, i = .store a → a.ByOthers id)
    (P := fun w => w.Faithful id ∧ w.Holds id ∧ w.Anchors id) ?_ ?_ hw ⟨hf, fun r hr' => ?_, fun r hr' => ?_⟩
  · rintro w i hw hi ⟨hf, hh, ha⟩
    exact ⟨faithful_step hw hi hf, holds_step hw hi hf.intact hh, anchors_step hw hi hf hh ha⟩
  · rintro i hm a rfl
    exact hi a hm
  · cases hr.symm.trans hr'
  · cases hr.symm.trans hr'

theorem leased_of_running (hf : w.Faithful id) (hh : w.Holds id) (ha : w.Anchors id)
    (hr : w.controller.run? id = some r) : ∃ a e, w.controller.store.leases.get? a = some id ∧
      w.controller.store.tables.endpoints.get? a = some e := by
  by_cases hb : attempted (w.journal id) = []
  · exact ⟨r.plan.source.addr, r.plan.source, hh r hr _ (by simp), (hf.ready r hr hb).there⟩
  · obtain ⟨e, he⟩ := (ha r hr).there hb
    exact ⟨r.plan.target.addr, e, hh r hr _ (by simp), he⟩

end Watch

namespace Controller

theorem cleanup_eq_error {c : Controller} {e : Error} (h : c.store.teardownAll = .error e) :
    c.cleanup = .error e ∧ (c.step .cleanup).1 = c := by
  have hc : c.cleanup = .error e := by
    simp only [cleanup, onStore, h]
    rfl
  refine ⟨hc, ?_⟩
  simp only [step, hc]
  rfl

end Controller

end LiveMigration
