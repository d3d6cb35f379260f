import LiveMigration.Proofs.Controller.Redirection
import LiveMigration.Proofs.Controller.Service
import LiveMigration.Proofs.Hosts.Reach

namespace LiveMigration

open Journal

variable {S : Addr → HostName → Prop}

namespace Tables

variable {t u : Tables} {op : Op} {ops : List Op}

def Sited (S : Addr → HostName → Prop) (t : Tables) : Prop :=
  ∀ addr e, t.endpoints.get? addr = some e → S addr e.host

theorem Sited.empty : Tables.empty.Sited S := nofun

theorem Sited.change (ht : t.Sited S) (h : t.Change op u c) (hop : ∀ e, op = .putEndpoint e → S e.addr e.host) :
    u.Sited S := by
  intro addr e he
  cases h with
  | endpointPut =>
    rcases Table.get?_insert_cases he with ⟨rfl, rfl⟩ | ⟨-, he⟩
    · exact hop _ rfl
    · exact ht addr e he
  | endpointRemoved => exact ht addr e (Table.get?_erase_cases he).2
  | @rulePut e' _ hr =>
    rcases Table.get?_insert_cases he with ⟨rfl, rfl⟩ | ⟨-, he⟩
    · exact ht _ e' hr
    · exact ht addr e he
  | _ => exact ht addr e he

theorem Sited.leads (ht : t.Sited S) (h : t.Leads ops u) (hops : ∀ e, .putEndpoint e ∈ ops → S e.addr e.host) :
    u.Sited S := by
  induction h with
  | nil => exact ht
  | cons hc _ ih =>
    refine ih (ht.change hc fun e he => hops e ?_) fun e he => hops e (List.mem_cons_of_mem _ he)
    rw [he]
    exact List.mem_cons_self

end Tables

theorem Store.mem_published {s : Store} {op : Op} (h : op ∈ s.published holder b) : op ∈ b.ops := by
  unfold published at h
  split at h
  · exact h
  · cases h

theorem Inventory.contains_of_get {i : Inventory} (h : i.get name = .ok host) : i.contains name = true := by
  simp only [get] at h
  split at h
  · next hf => rw [contains, hf, Option.isSome_some]
  · cases h

namespace Config

variable {config : Config}

theorem contains_of_nodeOps {i : Inventory} {nodes : List Node} (h : nodeOps i nodes = .ok ops)
    (he : .putEndpoint e ∈ ops) : i.contains e.host = true := by
  induction nodes generalizing ops with
  | nil =>
    cases h
    cases he
  | cons n nodes ih =>
    obtain ⟨host, hh, h⟩ := Except.bind_eq_ok.1 h
    obtain ⟨rest, hrest, h⟩ := Except.bind_eq_ok.1 h
    cases h
    simp only [List.mem_cons, Op.putEndpoint.injEq, reduceCtorEq, false_or] at he
    rcases he with rfl | he
    · exact Inventory.contains_of_get hh
    · exact ih hrest he

theorem provisionBatch_of_provision (hs : config.provision = .ok s) : ∃ b, config.provisionBatch = .ok b := by
  cases hb : config.provisionBatch with
  | error e => simp [provision, hb] at hs
  | ok b => exact ⟨b, rfl⟩

theorem sited_of_provision (hS : ∀ addr host, config.inventory.contains host = true → S addr host)
    (hs : config.provision = .ok s) : s.tables.Sited S := by
  obtain ⟨b, hb⟩ := provisionBatch_of_provision hs
  refine Tables.Sited.empty.leads (Store.leads_provision hb hs) fun e he => hS _ _ ?_
  obtain ⟨nodes, hn, h⟩ := Except.bind_eq_ok.1 hb
  cases h
  refine contains_of_nodeOps hn ?_
  simpa using Store.mem_published he

end Config

namespace Store

variable {s : Store} {a : Action} {as : List Action}

def Action.Sites (S : Addr → HostName → Prop) : Action → Prop
  | .write _ b => ∀ e, .putEndpoint e ∈ b.ops → S e.addr e.host
  | .relocate addr _ _ host => ∀ name ∈ host, S addr name
  | _ => True

theorem Action.Sites.mono {S' : Addr → HostName → Prop} (ha : a.Sites S)
    (hS : ∀ addr host, S addr host → S' addr host) : a.Sites S' := by
  cases a with
  | write => exact fun e he => hS _ _ (ha e he)
  | relocate => exact fun name hn => hS _ _ (ha name hn)
  | _ => trivial

theorem sited_act (hi : s.tables.Intact) (h : s.tables.Sited S) (ha : a.Sites S) : (s.act a).tables.Sited S := by
  refine h.leads (leads_act s a) fun e he => ?_
  cases a with
  | write holder b => exact ha e (mem_published he)
  | relocate addr egress mac host =>
    simp only [carriedOut] at he
    split at he
    · cases he
    · next e' he' =>
      have he := mem_published he
      cases host with
      | none => simp [moveBatch] at he
      | some name =>
        obtain rfl : e = e'.relocated name egress := by simpa [moveBatch] using he
        have haddr : (e'.relocated name egress).addr = addr := hi.endpoint addr e' he'
        rw [haddr]
        exact ha name rfl
  | lease | drop => cases he
  | teardownAll | shutdown => cases Tables.neutral_of_teardownOps _ (mem_published he)

theorem sited_foldl (hi : s.tables.Intact) (h : s.tables.Sited S) (ha : ∀ a ∈ as, a.Sites S) :
    (as.foldl act s).tables.Sited S :=
  (foldl_induction (P := fun s => s.tables.Intact ∧ s.tables.Sited S)
    (fun _ a ha h => ⟨intact_act h.1 a, sited_act h.1 h.2 ha⟩) ha ⟨hi, h⟩).2

end Store

def Input.Sites (S : Addr → HostName → Prop) : Input → Prop
  | .reattach addr _ _ host => ∀ name ∈ host, S addr name
  | .store a => a.Sites S
  | _ => True

/-- Whether an answer is one that the hosts can give, if it is a success. -/
def Input.Real (config : Config) : Input → Prop
  | .answer _ _ call (.ok x) =>
    ∃ now answers, ((Hosts.carryOut config.containers now call).play answers).1 = .ok x
  | _ => True

namespace Plan

theorem eq_target_of_mem {config : Config} {p : Plan} (h : .putEndpoint e ∈ (p.traffic config).ops) :
    e = p.target := by
  cases hm : p.mode with
  | sameIdentity => simpa [traffic, forwardingBatch, hm] using h
  | memberRebind => simpa [traffic, forwardingBatch, hm] using h

end Plan

namespace Watch

variable {w : Watch} {i : Input} {config : Config}

structure Sited (config : Config) (S : Addr → HostName → Prop) (w : Watch) : Prop where
  config_eq : w.controller.config = config
  intact : w.controller.store.tables.Intact
  endpoints : w.controller.store.tables.Sited S
  plans : ∀ id p, (w.journal id).head? = some (.accepted p) →
    config.inventory.contains p.target.host = true ∧ S p.source.addr p.source.host

theorem Sited.plans_step (h : w.Sited config S) (hw : w.Sound) {id : JobId} {p : Plan}
    (hp : ((w.step i).journal id).head? = some (.accepted p)) :
    config.inventory.contains p.target.host = true ∧ S p.source.addr p.source.host := by
  rw [journal_step] at hp
  cases hl : w.journal id with
  | cons e l =>
    refine h.plans id p ?_
    rw [hl] at hp ⊢
    exact hp
  | nil =>
    rw [hl, List.nil_append] at hp
    obtain ⟨now, q, c', run, -, hj, hq, hr, hrun⟩ :=
      Controller.submit_of_accepted (Journal.mem_of.1 (List.mem_of_head? hp))
    obtain ⟨hnone, -, -⟩ := faithful_of_unknown hw h.intact hj
    obtain ⟨e, host, s, lease, p', he, hh, -, -, hp', rfl⟩ := Controller.submit_eq_ok hq
    rw [Controller.run?_accept hnone (by rw [hp']), if_pos rfl] at hr
    cases hr
    obtain rfl : p' = p := hrun
    rw [h.config_eq] at hh
    have htarget : p'.target.host = q.targetHost := by
      rw [hp']
      cases q.newIdentity <;> rfl
    have hsource : p'.source = e := by rw [hp']
    refine ⟨htarget ▸ Inventory.contains_of_get hh, ?_⟩
    rw [hsource, h.intact.endpoint _ _ he]
    exact h.endpoints _ _ he

theorem Sited.step (hS : ∀ addr host, config.inventory.contains host = true → S addr host) (h : w.Sited config S)
    (hw : w.Sound) (hi : i.Sites S) : (w.step i).Sited config S := by
  refine ⟨(w.controller.config_step i).trans h.config_eq, intact_step h.intact, ?_, fun id p => h.plans_step hw⟩
  rw [controller_step, w.controller.store_step]
  refine Store.sited_foldl h.intact h.endpoints fun a ha => ?_
  cases causes_of_mem hw ha with
  | asked hi' | moved hi' =>
    rw [hi'] at hi
    exact hi
  | cleared | leased | dropped => trivial
  | forwarded hp =>
    intro e he
    rw [Plan.eq_target_of_mem he]
    exact hS _ _ (h.plans_step hw hp).1
  | retired =>
    intro e he
    simp [Plan.retireBatch] at he

theorem answered_step {id : JobId} {o : Outcome call.Reply} (h : .answered call o ∈ (w.step i).journal id) :
    .answered call o ∈ w.journal id ∨ ∃ m, i = .answer m id call o := by
  rw [journal_step, List.mem_append, Journal.mem_of (l := (w.controller.step i).2)] at h
  refine h.imp_right fun h => ?_
  cases i with
  | submit now id' q =>
    simp only [Controller.step] at h
    split at h
    · cases h
    · split at h
      · simp at h
      · cases h
  | cancel | reattach | cleanup | store => cases h
  | start m id' | wake id' => simp [Controller.step, Controller.noting] at h
  | answer m id' call' o' =>
    simp only [Controller.step, Controller.noting] at h
    split at h
    · rcases List.mem_cons.1 h with h | h
      · cases h
        exact ⟨m, rfl⟩
      · simp at h
    · simp at h

theorem located_step (hw : ∀ id, ∀ e ∈ w.journal id, e.Located) (hi : i.Real config) :
    ∀ id, ∀ e ∈ (w.step i).journal id, e.Located := by
  intro id e he
  cases e with
  | accepted | did => trivial
  | answered call o =>
    rcases answered_step he with he | ⟨m, rfl⟩
    · exact hw id _ he
    · cases o with
      | failed | expired => cases call <;> trivial
      | ok x =>
        obtain ⟨now, answers, hx⟩ := hi
        cases call with
        | capture e name => exact Hosts.host_of_capture hx
        | transfer s target => exact Hosts.host_of_transfer hx
        | _ => trivial

variable {s : Store} {inputs : List Input}

theorem sited_watch (hS : ∀ addr host, config.inventory.contains host = true → S addr host)
    (hs : config.provision = .ok s) (hi : ∀ i ∈ inputs, i.Sites S) :
    Sited config S ((Controller.idle config s).watch inputs) := by
  obtain ⟨b, hb⟩ := Config.provisionBatch_of_provision hs
  have hstart : Sited config S ⟨.idle config s, []⟩ :=
    ⟨rfl, Tables.Intact.empty.leads (Store.leads_provision hb hs), Config.sited_of_provision hS hs, nofun⟩
  exact foldl_induction (fun _ _ hw hi h => h.step hS hw hi) hi (sound_idle config s) hstart

theorem located_watch (hi : ∀ i ∈ inputs, i.Real config) :
    ∀ id, ∀ e ∈ ((Controller.idle config s).watch inputs).journal id, e.Located := by
  refine foldl_induction (P := fun w => ∀ id, ∀ e ∈ w.journal id, e.Located)
    (fun _ _ _ hi h => located_step h hi) hi (sound_idle config s) ?_
  intro id e he
  cases he

end Watch

namespace Controller

/-- Whether a host is in the inventory, or a client asked for an address to be moved there. -/
def Admitted (config : Config) (inputs : List Input) (addr : Addr) (host : HostName) : Prop :=
  config.inventory.contains host = true ∨ ∃ egress mac, .reattach addr egress mac (some host) ∈ inputs

theorem sites_admitted {config : Config} {inputs : List Input}
    (hi : ∀ a, .store a ∈ inputs → a.Sites fun _ host => config.inventory.contains host = true) :
    ∀ i ∈ inputs, i.Sites (Admitted config inputs) := by
  intro i hm
  cases i with
  | reattach addr egress mac host =>
    rintro name rfl
    exact .inr ⟨egress, mac, hm⟩
  | store a => exact (hi a hm).mono fun _ _ => .inl
  | _ => trivial

/-- A controller over the store that its configuration asks for: an endpoint is on a host of the inventory,
unless a client asked for it to be moved to another one. A migration goes to a host of the inventory, and starts
from where the endpoint was. As long as clients name hosts of the inventory only, no call of a migration ends for
want of a host. -/
theorem endpoints_on_known_hosts {config : Config} {c : Controller} {inputs : List Input}
    (hc : ofConfig config = .ok c)
    (hi : ∀ a, .store a ∈ inputs → a.Sites fun _ host => config.inventory.contains host = true) :
    let w := c.watch inputs
    (∀ addr e, w.controller.store.tables.endpoints.get? addr = some e → Admitted config inputs addr e.host) ∧
    (∀ id p, (w.journal id).head? = some (.accepted p) →
      config.inventory.contains p.target.host = true ∧ Admitted config inputs p.source.addr p.source.host) ∧
    ((∀ addr egress mac host, .reattach addr egress mac (some host) ∈ inputs →
      config.inventory.contains host = true) → (∀ i ∈ inputs, i.Real config) →
      ∀ id, ∀ call ∈ calls (w.journal id), ∀ now answers name,
        ((Hosts.carryOut config.containers now call).play answers).1 ≠ .error (.unknownHost name)) := by
  intro w
  obtain ⟨s, hs, hc⟩ := Except.bind_eq_ok.1 hc
  cases hc
  have hsited : w.Sited config (Admitted config inputs) :=
    Watch.sited_watch (fun _ _ => .inl) hs (sites_admitted hi)
  refine ⟨hsited.endpoints, hsited.plans, fun hknown hreal id call hcall now answers => ?_⟩
  have hcourse : w.journal id = [] ∨ _ := course_watch config s inputs id
  rcases hcourse with h | ⟨p, stage, pr, j, -, -, hcourse⟩
  · rw [h] at hcall
    cases hcall
  · obtain ⟨htarget, hsource⟩ := hsited.plans id p hcourse.head?_eq
    have hon : ∀ name, p.On name → config.inventory.contains name = true := by
      rintro name (rfl | rfl)
      · rcases hsource with h | ⟨egress, mac, h⟩
        · exact h
        · exact hknown _ egress mac _ h
      · exact htarget
    have haims : p.Aims call := hcourse.aims (Watch.located_watch hreal id) call hcall
    exact (Hosts.finds_carryOut (fun name hn => hon name (haims name hn)) now).of_play answers

theorem endpoints_on_known_hosts_through_move :
    let config := Config.plain [⟨"a", "a", 1, "eth0", "/var"⟩, ⟨"b", "b", 2, "eth0", "/var"⟩]
      [⟨⟨10⟩, ⟨.replicate 6 1⟩, "a", "web", none, true⟩, ⟨⟨12⟩, ⟨.replicate 6 3⟩, "b", "web", none, true⟩]
    let c := idle config (config.provision.toOption.getD .empty)
    let now : Moment := ⟨0, 0, 0⟩
    let id := JobId.ofNat 7
    let e : Endpoint := ⟨⟨⟨10⟩, ⟨.replicate 6 1⟩⟩, "a", 1, "web"⟩
    let name := "ferry-" ++ id.text
    let x : Snapshot := ⟨name, ⟨10⟩, "a", Path.join "/var" (Hosts.archiveName name), 5, now.wall⟩
    let inputs : List Input := [.reattach ⟨12⟩ 1 none (some "a"), .submit now.wall id ⟨⟨10⟩, "b", none⟩,
      .start now id, .answer now id (.quiesce e) (.ok ()), .answer now id (.probe e) (.ok 0),
      .answer now id (.capture e name) (.ok x), .answer now id (.prepare "b" none) (.ok ())]
    let w := c.watch inputs
    let call : Call := .transfer x "b"
    ofConfig config = .ok c ∧ (∀ a, .store a ∉ inputs) ∧ (∀ i ∈ inputs, i.Real config) ∧
      (∀ addr e, w.controller.store.tables.endpoints.get? addr = some e → Admitted config inputs addr e.host) ∧
      call ∈ calls (w.journal id) ∧
      ∀ now answers name,
        ((Hosts.carryOut config.containers now call).play answers).1 ≠ .error (.unknownHost name) := by
  intro config c now id e name x inputs w call
  let size : Shell.Output := ⟨"5".toUTF8.toList, [], .code 0⟩
  have hc : ofConfig config = .ok c := by rfl
  have hstore : ∀ a, .store a ∉ inputs := by
    intro a ha
    simp [inputs] at ha
  have hreal : ∀ i ∈ inputs, i.Real config := by
    have hquiesced : ((Hosts.carryOut config.containers now.wall (.quiesce e)).play []).1 = .ok () := by
      decide +kernel
    have hprobed : ((Hosts.carryOut config.containers now.wall (.probe e)).play []).1 = .ok 0 := by
      decide +kernel
    have hcaptured : ((Hosts.carryOut config.containers now.wall (.capture e name)).play
        [some .silent, some size]).1 = .ok x := by
      decide +kernel
    have hprepared : ((Hosts.carryOut config.containers now.wall (.prepare "b" none)).play []).1 = .ok () := by
      decide +kernel
    simp only [inputs, List.forall_mem_cons]
    exact ⟨trivial, trivial, trivial, ⟨_, _, hquiesced⟩, ⟨_, _, hprobed⟩, ⟨_, _, hcaptured⟩, ⟨_, _, hprepared⟩,
      List.forall_mem_nil _⟩
  have hknown : ∀ addr egress mac host, .reattach addr egress mac (some host) ∈ inputs →
      config.inventory.contains host = true := by
    intro addr egress mac host h
    obtain ⟨-, -, -, rfl⟩ : addr = ⟨12⟩ ∧ egress = 1 ∧ mac = none ∧ host = "a" := by
      simpa [inputs] using h
    rfl
  have h := @endpoints_on_known_hosts config c inputs hc fun a ha => absurd ha (hstore a)
  have hw : c.watch inputs = w := rfl
  simp only [hw] at h
  obtain ⟨hendpoints, -, hcalls⟩ := h
  have hcall : call ∈ calls (w.journal id) := by decide
  exact ⟨hc, hstore, hreal, hendpoints, hcall, hcalls hknown hreal id call hcall⟩

/-- A client moves the only endpoint to a host that is not there. Its next migration is accepted all the same, and
its first call reaches nobody. -/
theorem endpoint_on_unknown_host :
    let config := Config.plain [⟨"a", "a", 1, "eth0", "/var"⟩, ⟨"b", "b", 2, "eth0", "/var"⟩]
      [⟨⟨10⟩, ⟨.replicate 6 1⟩, "a", "web", none, true⟩]
    let c := idle config (config.provision.toOption.getD .empty)
    let now : Moment := ⟨0, 0, 0⟩
    let id := JobId.ofNat 7
    let e : Endpoint := ⟨⟨⟨10⟩, ⟨.replicate 6 1⟩⟩, "nowhere", 1, "web"⟩
    let w := c.watch [.reattach ⟨10⟩ 1 none (some "nowhere"), .submit now.wall id ⟨⟨10⟩, "b", none⟩, .start now id]
    config.validate = .ok () ∧ ofConfig config = .ok c ∧
      w.controller.store.tables.endpoints.get? ⟨10⟩ = some e ∧ config.inventory.contains e.host = false ∧
      .quiesce e ∈ calls (w.journal id) ∧
      ∀ answers, (Hosts.carryOut config.containers now.wall (.quiesce e)).play answers =
        (.error (.unknownHost "nowhere"), []) := by
  intro config c now id e w
  refine ⟨by decide, by rfl, by decide, by decide, by decide, fun answers => ?_⟩
  cases answers <;> rfl

end Controller

end LiveMigration
