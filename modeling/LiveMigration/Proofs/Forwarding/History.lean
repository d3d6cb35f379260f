import LiveMigration.Forwarding.Provision
import LiveMigration.Proofs.Forwarding.Change

namespace LiveMigration

namespace Tables

inductive Leads : Tables → List Op → Tables → Prop
  | nil : Leads t [] t
  | cons : t.Change op u c → Leads u ops v → Leads t (op :: ops) v

theorem Leads.append {t u v : Tables} {ops more : List Op} (h : t.Leads ops u) (k : u.Leads more v) :
    t.Leads (ops ++ more) v := by
  induction h with
  | nil => exact k
  | cons hc _ ih => exact .cons hc (ih k)

theorem leads_of_stage {leases : Table Addr JobId} {holder : Option JobId} {t t' : Tables}
    {ops : List Op} {c : Bool} (h : Store.stage leases holder t ops = .ok (t', c)) :
    t.Leads ops t' := by
  induction ops generalizing t c with
  | nil => cases h; exact .nil
  | cons op ops ih =>
    obtain ⟨u, c₁, c₂, -, hc, hs, -⟩ := Store.stage_cons_eq_ok h
    exact .cons hc (ih hs)

end Tables

namespace Store

inductive Action
  | write (holder : Option JobId) (b : Batch)
  | relocate (addr : Addr) (egress : EgressPort) (mac : Option Mac) (host : Option HostName)
  | lease (endpoint : Addr) (replacement : Option Addr) (job : JobId)
  | drop (l : Lease)
  | teardownAll
  | shutdown

def settle (s : Store) : Except Error (Store × α) → Store
  | .ok (s', _) => s'
  | .error _ => s

def act (s : Store) : Action → Store
  | .write holder b => s.settle (s.applyAs holder b)
  | .relocate addr egress mac host => s.settle (s.relocate addr egress mac host)
  | .lease endpoint replacement job => s.settle (s.lease endpoint replacement job)
  | .drop l => s.release l
  | .teardownAll => s.settle s.teardownAll
  | .shutdown => s.shutdown.1

def published (s : Store) (holder : Option JobId) (b : Batch) : List Op :=
  match s.applyAs holder b with
  | .ok (_, true) => b.ops
  | _ => []

/-- The operations that an action brings into effect. -/
def carriedOut (s : Store) : Action → List Op
  | .write holder b => s.published holder b
  | .relocate addr egress mac host =>
    match s.tables.endpoints.get? addr with
    | none => []
    | some e => s.published none (s.moveBatch e addr egress mac host)
  | .lease .. | .drop _ => []
  | .teardownAll => s.published none ⟨s.tables.teardownOps⟩
  | .shutdown => published { s with leases := ∅ } none ⟨s.tables.teardownOps⟩

/-- The states of a store that starts empty or as a configuration asks for. -/
inductive History : List Op → Store → Prop
  | empty : History [] .empty
  | provisioned {config : Config} : config.provisionBatch = .ok b → config.provision = .ok s →
      History (Store.empty.published none b) s
  | act (a : Action) : History ops s → History (ops ++ s.carriedOut a) (s.act a)

@[simp] theorem tables_releaseAddr (s : Store) (addr : Addr) (job : JobId) :
    (s.releaseAddr addr job).tables = s.tables := by
  unfold releaseAddr
  split <;> rfl

@[simp] theorem tables_release (s : Store) (l : Lease) : (s.release l).tables = s.tables := by
  unfold release
  split <;> simp

theorem tables_lease {s s' : Store} {l : Lease} (h : s.lease endpoint replacement job = .ok (s', l)) :
    s'.tables = s.tables := by
  unfold lease at h
  split at h
  · cases h
  · split at h
    · cases h
    · cases h; rfl
    · split at h
      · cases h
      · split at h
        · cases h
        · cases h; rfl

theorem settle_teardownAll (s : Store) :
    s.settle s.teardownAll = s.settle (s.apply ⟨s.tables.teardownOps⟩) := by
  unfold teardownAll
  dsimp only
  cases s.apply ⟨s.tables.teardownOps⟩ <;> rfl

theorem shutdown_eq_settle (s : Store) :
    s.shutdown.1 = settle { s with leases := ∅ }
      (apply { s with leases := ∅ } ⟨s.tables.teardownOps⟩) := by
  rw [← settle_teardownAll { s with leases := ∅ }]
  unfold shutdown
  dsimp only
  cases teardownAll { s with leases := ∅ } <;> rfl

theorem leads_published (s : Store) (holder : Option JobId) (b : Batch) :
    s.tables.Leads (s.published holder b) (s.settle (s.applyAs holder b)).tables := by
  unfold published
  cases h : s.applyAs holder b with
  | error e => exact .nil
  | ok r =>
    obtain ⟨s', c⟩ := r
    obtain ⟨-, ⟨rfl, rfl⟩ | ⟨rfl, hs⟩⟩ := applyAs_eq_ok h
    · exact .nil
    · exact Tables.leads_of_stage hs

theorem leads_act (s : Store) (a : Action) : s.tables.Leads (s.carriedOut a) (s.act a).tables := by
  cases a with
  | write holder b => exact leads_published s holder b
  | relocate addr egress mac host =>
    simp only [carriedOut, act, relocate]
    cases s.tables.endpoints.get? addr with
    | none => exact .nil
    | some e => exact leads_published s none _
  | lease endpoint replacement job =>
    simp only [carriedOut, act]
    cases h : s.lease endpoint replacement job with
    | error e => exact .nil
    | ok r =>
      rw [settle, tables_lease h]
      exact .nil
  | drop l =>
    simp only [carriedOut, act, tables_release]
    exact .nil
  | teardownAll =>
    simp only [carriedOut, act, settle_teardownAll]
    exact leads_published s none _
  | shutdown =>
    simp only [carriedOut, act, shutdown_eq_settle]
    exact leads_published { s with leases := ∅ } none _

theorem foldl_induction {P : Store → Prop} {q : Action → Prop} (step : ∀ s a, q a → P s → P (s.act a))
    {s : Store} {as : List Action} (ha : ∀ a ∈ as, q a) (h : P s) : P (as.foldl act s) := by
  induction as generalizing s with
  | nil => exact h
  | cons a as ih =>
    rw [List.forall_mem_cons] at ha
    exact ih ha.2 (step s a ha.1 h)

theorem leads_provision {config : Config} {b : Batch} {s : Store} (hb : config.provisionBatch = .ok b)
    (hs : config.provision = .ok s) :
    Tables.empty.Leads (Store.empty.published none b) s.tables := by
  unfold Config.provision at hs
  rw [hb] at hs
  have h := leads_published Store.empty none b
  simp only [Store.apply] at hs
  cases ha : Store.empty.applyAs none b with
  | error e => rw [ha] at hs; cases hs
  | ok r =>
    rw [ha] at hs h
    cases hs
    exact h

theorem History.leads {ops : List Op} {s : Store} (h : History ops s) :
    Tables.empty.Leads ops s.tables := by
  induction h with
  | empty => exact .nil
  | provisioned hb hs => exact leads_provision hb hs
  | act a _ ih => exact ih.append (leads_act _ a)

theorem History.of_write {ops : List Op} (h : Store.empty.carriedOut (.write none ⟨ops⟩) = ops) :
    History ops (Store.empty.act (.write none ⟨ops⟩)) := by
  have hact := History.empty.act (.write none ⟨ops⟩)
  rwa [h] at hact

end Store

end LiveMigration
