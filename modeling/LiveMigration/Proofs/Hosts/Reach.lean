import LiveMigration.Proofs.Hosts.Footprint

namespace LiveMigration

namespace Shell

namespace Session

variable {Q : Ending α → Prop} {p : Session α}

def Ends (Q : Ending α → Prop) : Session α → Prop
  | .done r => Q r
  | .run _ _ next => ∀ o, (next o).Ends Q

theorem Ends.of_play (h : p.Ends Q) (answers : List (Option Output)) : Q (p.play answers).1 := by
  induction p generalizing answers with
  | done r => exact h
  | run host command next ih => exact ih _ (h _) _

theorem Ends.bind {R : Ending β → Prop} {k : α → Session β} (h : p.Ends Q)
    (hk : ∀ a, Q (.ok a) → (k a).Ends R) (he : ∀ e, Q (.error e) → R (.error e)) (hc : Q .crashed → R .crashed) :
    (p >>= k).Ends R := by
  induction p with
  | done r =>
    cases r with
    | ok a => exact hk a h
    | error e => exact he e h
    | crashed => exact hc h
  | run host command next ih => exact fun o => ih o (h o)

theorem ends_attempt (p : Session α) : p.attempt.Ends fun r => ∀ e, r ≠ .error e := by
  induction p with
  | done r =>
    cases r with
    | ok | error | crashed => nofun
  | run host command next ih => exact ih

theorem ends_true (p : Session α) : p.Ends fun _ => True := by
  induction p with
  | done r => trivial
  | run host command next ih => exact ih

theorem ends_bind {R : Ending β → Prop} {k : α → Session β} (hk : ∀ a, (k a).Ends R)
    (he : ∀ e, R (.error e)) (hc : R .crashed) : (p >>= k).Ends R :=
  p.ends_true.bind (fun a _ => hk a) (fun e _ => he e) fun _ => hc

def Finds (p : Session α) : Prop := p.Ends fun r => ∀ name, r ≠ .error (.unknownHost name)

theorem Finds.bind {p : Session α} {k : α → Session β} (h : p.Finds) (hk : ∀ a, (k a).Finds) :
    (p >>= k).Finds := by
  refine Ends.bind h (fun a _ => hk a) (fun e he name hn => ?_) nofun
  cases hn
  exact he name rfl

end Session

namespace Reach

open Session

variable {r : Reach} {name : HostName}

theorem finds_host (h : r.inventory.contains name = true) : (r.host name).Finds := by
  obtain ⟨found, hf⟩ := Option.isSome_iff_exists.1 h
  rw [Reach.host, Inventory.get, hf]
  intro name h
  cases h

theorem finds_run (h : r.inventory.contains name = true) (command : Command) : (r.run name command).Finds := by
  refine (finds_host h).bind fun host => ?_
  split
  · intro o
    cases o <;> nofun
  · nofun

theorem finds_runChecked (h : r.inventory.contains name = true) (command : Command) :
    (r.runChecked name command).Finds := by
  refine (finds_run h command).bind fun f => ?_
  split <;> nofun

theorem finds_runBestEffort (r : Reach) (name : HostName) (command : Command) :
    (r.runBestEffort name command).Finds :=
  Ends.bind (ends_attempt _) (fun _ _ => nofun) (fun e he => absurd rfl (he e)) nofun

end Reach

end Shell

namespace Call

def hosts : Call → List HostName
  | .quiesce e | .resume e | .probe e | .capture e _ | .restore _ e _ | .teardown e | .reattach e _
  | .announce e | .detach e => [e.host]
  | .prepare host _ => [host]
  | .transfer s target => [s.host, target]
  | .measure s | .discard s => [s.host]

end Call

namespace Hosts

open Shell Session

theorem finds_perform {r : Reach} (h : r.inventory.contains name = true) (command : Command) :
    (perform r name command).Finds :=
  (Reach.finds_runChecked h command).bind fun _ => nofun

theorem readSize_ne (stdout : String) : Ending.ofExcept (readSize stdout) ≠ .error (.unknownHost name) := by
  simp only [readSize]
  split <;> nofun

theorem addSendColumns_ne (total : UInt64) (lines : List (List Char)) :
    addSendColumns total lines ≠ .error (.unknownHost name) := by
  induction lines generalizing total with
  | nil => nofun
  | cons line lines ih =>
    simp only [addSendColumns]
    split
    · split
      · exact ih _
      · nofun
    · nofun

theorem finds_fileSize {r : Reach} (h : r.inventory.contains name = true) (path : String) :
    (fileSize r name path).Finds :=
  (Reach.finds_runChecked h _).bind fun f _ => readSize_ne f.stdout

theorem finds_configure {r : Reach} {e : Endpoint} (h : r.inventory.contains e.host = true) (command : Command) :
    (configure r e command).Finds := by
  refine (Reach.finds_run h command).bind fun f => ?_
  split <;> nofun

/-- A call ends for want of a host only if one that it names is not in the inventory. -/
theorem finds_carryOut {c : Containers} {call : Call}
    (h : ∀ name ∈ call.hosts, c.reach.inventory.contains name = true) (now : Timestamp) :
    (carryOut c now call).Finds := by
  cases call with
  | quiesce e | teardown e | discard e => exact finds_perform (h _ List.mem_cons_self) _
  | announce e | detach e => exact finds_configure (h _ List.mem_cons_self) _
  | measure s => exact finds_fileSize (h _ List.mem_cons_self) _
  | probe e =>
    exact (Reach.finds_runChecked (h _ List.mem_cons_self) _).bind fun f _ => addSendColumns_ne 0 _
  | resume e =>
    have he := h e.host List.mem_cons_self
    have hrunning : (c.isRunning e).Finds := (Reach.finds_run he _).bind fun _ => nofun
    refine hrunning.bind fun running => ?_
    split
    · exact (finds_perform he _).bind fun _ => finds_perform he _
    · exact finds_perform he _
  | capture e id =>
    have he := h e.host List.mem_cons_self
    refine (Reach.finds_host he).bind fun _ => ?_
    refine (finds_perform he _).bind fun _ => ?_
    exact (finds_fileSize he _).bind fun _ => nofun
  | prepare host image =>
    have hhost := h host List.mem_cons_self
    refine (Reach.finds_host hhost).bind fun _ => ?_
    refine (finds_perform hhost _).bind fun _ => ?_
    cases image with
    | none => nofun
    | some image => exact finds_perform hhost _
  | transfer s target =>
    have hs := h s.host List.mem_cons_self
    have htarget := h target (List.mem_cons_of_mem _ List.mem_cons_self)
    refine (Reach.finds_host hs).bind fun _ => ?_
    refine (Reach.finds_host htarget).bind fun _ => ?_
    dsimp only
    split
    · nofun
    · exact (finds_perform hs _).bind fun _ => nofun
  | restore s target options =>
    refine (Reach.finds_runBestEffort _ _ _).bind fun _ => ?_
    refine (Reach.finds_run (h _ List.mem_cons_self) _).bind fun f => ?_
    split <;> nofun
  | reattach e peers =>
    have he := h e.host List.mem_cons_self
    exact (Reach.finds_host he).bind fun _ => finds_configure he _

variable {c : Containers} {answers : List (Option Output)}

theorem host_of_capture {id : String} (h : ((carryOut c now (.capture e id)).play answers).1 = .ok x) :
    x.host = e.host := by
  have hends : (carryOut c now (.capture e id)).Ends fun r => ∀ x : Snapshot, r = .ok x → x.host = e.host := by
    refine ends_bind (fun _ => ends_bind (fun _ => ends_bind (fun size x hx => ?_) nofun nofun) nofun nofun) nofun nofun
    cases hx
    rfl
  exact hends.of_play answers x h

theorem host_of_transfer (h : ((carryOut c now (.transfer s target)).play answers).1 = .ok d) :
    d.host = target := by
  have hends : (carryOut c now (.transfer s target)).Ends fun r => ∀ d : Snapshot, r = .ok d → d.host = target := by
    refine ends_bind (fun source => ends_bind (fun destination => ?_) nofun nofun) nofun nofun
    dsimp only
    split
    · intro d hd
      cases hd
      rfl
    · refine ends_bind (fun _ d hd => ?_) nofun nofun
      cases hd
      rfl
  exact hends.of_play answers d h

end Hosts

open Journal

def Occurrence.Located : Occurrence → Prop
  | .answered (.capture e _) (.ok x) => x.host = e.host
  | .answered (.transfer _ target) (.ok d) => d.host = target
  | _ => True

namespace Plan

variable {p : Plan}

def On (p : Plan) (name : HostName) : Prop := name = p.source.host ∨ name = p.target.host

def Aims (p : Plan) (c : Call) : Prop := ∀ name ∈ c.hosts, p.On name

theorem on_source (h : name = p.source.host) : p.On name := .inl h

theorem on_target (h : name = p.target.host) : p.On name := .inr h

theorem aims_singleton {c : Call} (hc : c.hosts = [name]) (h : p.On name) : p.Aims c := by
  rw [Aims, hc, List.forall_mem_singleton]
  exact h

end Plan

variable {config : Config} {p : Plan} {l : List Occurrence}

theorem Course.copy_on (h : Course config p P pr j l) (hl : ∀ e ∈ l, e.Located) :
    ∀ x ∈ copies l, p.On x.host := by
  induction h with
  | accepted => simp [copy?]
  | cancel _ _ ih => exact ih hl
  | entered _ _ _ ih | discarding _ _ ih =>
    rw [List.forall_mem_append] at hl
    rw [copies_append, copies_calling, List.append_nil]
    exact ih hl.1
  | refused _ _ _ hr ih =>
    rw [List.forall_mem_append] at hl
    rw [copies_append, List.forall_mem_append]
    exact ⟨ih hl.1, by simp [copy?_of_error hr]⟩
  | captured r _ o _ _ ih =>
    rw [List.forall_mem_append, List.forall_mem_singleton] at hl
    rw [copies_append, List.forall_mem_append]
    refine ⟨ih hl.1, ?_⟩
    cases o with
    | ok x => simpa [copy?] using Plan.on_source hl.2
    | failed | expired => simp [copy?]
  | transferred d _ _ ih =>
    rw [List.forall_mem_append, List.forall_mem_singleton] at hl
    rw [copies_append, List.forall_mem_append]
    refine ⟨ih hl.1, fun x hx => ?_⟩
    obtain ⟨-, rfl⟩ : _ ∧ d = x := by simpa [copy?] using hx
    exact Plan.on_target hl.2
  | _ => simp_all [copy?]

theorem Stage.aims_of_awaited {s : Stage} (hs : s.Entered) (h : s.Known config p l)
    (hl : ∀ e ∈ l, e.Located) (hc : c ∈ s.awaited config p) : p.Aims c := by
  cases hs with
  | quiescing | probing | removingSource =>
    cases List.mem_singleton.1 hc
    exact Plan.aims_singleton rfl (.inl rfl)
  | restoring | reattaching =>
    cases List.mem_singleton.1 hc
    exact Plan.aims_singleton rfl (.inr rfl)
  | capturing =>
    rcases List.mem_append.1 hc with hc | hc
    · cases List.mem_singleton.1 hc
      exact Plan.aims_singleton rfl (.inl rfl)
    · cases List.mem_singleton.1 hc
      exact Plan.aims_singleton rfl (.inr rfl)
  | transferring x =>
    cases List.mem_singleton.1 hc
    have hx : x.host = p.source.host := hl _ h
    simp [Plan.Aims, Plan.On, Call.hosts, hx]
  | verifying x d =>
    cases List.mem_singleton.1 hc
    exact Plan.aims_singleton rfl (.inr (hl _ h.2))

theorem Course.aims (h : Course config p P pr j l) (hl : ∀ e ∈ l, e.Located) : ∀ c ∈ calls l, p.Aims c := by
  induction h with
  | accepted => exact nofun
  | cancel _ _ ih => exact ih hl
  | entered _ hc _ ih =>
    rw [List.forall_mem_append] at hl
    rw [calls_append, calls_calling, List.forall_mem_append]
    exact ⟨ih hl.1, fun c hm => Stage.aims_of_awaited (hc.stage_entered rfl) hc.known hl.1 hm⟩
  | discarding hc _ ih =>
    rw [List.forall_mem_append] at hl
    rw [calls_append, calls_calling, List.forall_mem_append]
    refine ⟨ih hl.1, fun c hm => ?_⟩
    obtain ⟨x, hx, rfl⟩ := List.mem_map.1 hm
    refine Plan.aims_singleton rfl (hc.copy_on hl.1 x ?_)
    rw [hc.copies_eq]
    exact List.mem_append_left _ hx
  | woken _ _ ih | tornDown _ ih | reattached _ ih | removing _ _ _ ih | targetRemoved _ _ ih
  | resuming _ _ ih =>
    rw [List.forall_mem_append] at hl
    rw [calls_append, List.forall_mem_append]
    exact ⟨ih hl.1, by simp [call?, Plan.Aims, Call.hosts, Plan.On]⟩
  | _ => simp_all [call?]

end LiveMigration
