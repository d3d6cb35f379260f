import LiveMigration.Hosts.Calls
import LiveMigration.Proofs.Migration.Copies

namespace LiveMigration

namespace Shell

def Command.container? : Command → Option String
  | .signal c _ | .inspectRunning c | .restoreInPlace c | .sendQueue c | .checkpoint c _
  | .restore _ c _ _ | .removeContainer c | .removeLeftover c => some c
  | _ => none

namespace Session

variable {Q : Host → Command → Prop} {p : Session α}

def Sends (Q : Host → Command → Prop) : Session α → Prop
  | .done _ => True
  | .run host command next => Q host command ∧ ∀ o, (next o).Sends Q

theorem Sends.of_play (h : p.Sends Q) (hm : (host, command) ∈ (p.play answers).2) : Q host command := by
  induction p generalizing answers with
  | done r => cases hm
  | run host' command' next ih =>
    rcases List.mem_cons.1 hm with hm | hm
    · cases hm
      exact h.1
    · exact ih _ (h.2 _) hm

theorem Sends.bind {k : α → Session β} (h : p.Sends Q) (hk : ∀ a, (k a).Sends Q) :
    (p >>= k).Sends Q := by
  induction p with
  | done r =>
    cases r with
    | ok a => exact hk a
    | error | crashed => trivial
  | run host command next ih => exact ⟨h.1, fun o => ih o (h.2 o)⟩

theorem Sends.attempt (h : p.Sends Q) : p.attempt.Sends Q := by
  induction p with
  | done r =>
    cases r with
    | ok | error | crashed => trivial
  | run host command next ih => exact ⟨h.1, fun o => ih o (h.2 o)⟩

theorem sends_done (r : Ending α) : (Session.done r).Sends Q := trivial

theorem sends_ofExcept (r : Except HostError α) : (Session.ofExcept r).Sends Q := trivial

end Session

end Shell

theorem Inventory.name_of_get {i : Inventory} (h : i.get name = .ok host) : host.name = name := by
  simp only [get, find?] at h
  split at h
  · rename_i hf
    cases h
    simpa using List.find?_some hf
  · cases h

namespace Shell.Reach

variable {Q : Host → Command → Prop} {r : Reach}

theorem sends_run (h : ∀ host, host.name = name → Q host command) : (r.run name command).Sends Q := by
  simp only [run, host, Session.ofExcept]
  cases hi : r.inventory.get name with
  | error e => trivial
  | ok host =>
    change Session.Sends Q (if _ then _ else _)
    split
    · refine ⟨h host (Inventory.name_of_get hi), fun o => ?_⟩
      cases o with
      | none => trivial
      | some o => trivial
    · trivial

theorem sends_runChecked (h : ∀ host, host.name = name → Q host command) :
    (r.runChecked name command).Sends Q := by
  refine (sends_run h).bind fun f => ?_
  split
  · trivial
  · trivial

theorem sends_runBestEffort (h : ∀ host, host.name = name → Q host command) :
    (r.runBestEffort name command).Sends Q :=
  (sends_run h).attempt.bind fun _ => trivial

end Shell.Reach

def Call.subject? : Call → Option Endpoint
  | .quiesce e | .resume e | .probe e | .capture e _ | .restore _ e _ | .teardown e => some e
  | _ => none

namespace Hosts

open Shell Session

/-- A command names no container but that of an endpoint, on the host of that endpoint. -/
def Within (e? : Option Endpoint) (host : Host) (command : Command) : Prop :=
  ∀ name, command.container? = some name → ∃ e ∈ e?, host.name = e.host ∧ name = e.container

theorem within_of_container {e : Endpoint} (h : command.container? = some e.container)
    (host : Host) (hn : host.name = e.host) : Within (some e) host command := by
  intro name hc
  rw [h] at hc
  exact ⟨e, rfl, hn, (Option.some.inj hc).symm⟩

theorem within_of_no_container (h : command.container? = none) (host : Host) :
    Within e? host command := by
  intro name hc
  rw [h] at hc
  cases hc

section

variable {Q : Host → Command → Prop} {r : Reach}

theorem sends_perform (h : ∀ host, host.name = name → Q host command) :
    (perform r name command).Sends Q :=
  (Reach.sends_runChecked h).bind fun _ => trivial

theorem sends_fileSize (h : ∀ host, host.name = name → Q host (.fileSize path)) :
    (fileSize r name path).Sends Q :=
  (Reach.sends_runChecked h).bind fun f => sends_ofExcept (readSize f.stdout)

theorem sends_configure (h : ∀ host, host.name = e.host → Q host command) :
    (configure r e command).Sends Q := by
  refine (Reach.sends_run h).bind fun f => ?_
  split
  · trivial
  · trivial

end

theorem transferCommand?_cases (h : transferCommand? a b path path' = some command) :
    b.isLocal = true ∧ command = .copy path path' ∨ command = .secureCopy path b.ssh path' := by
  simp only [transferCommand?] at h
  split at h
  · cases h
  · split at h
    · next hl =>
      cases h
      exact .inl ⟨hl.2, rfl⟩
    · cases h
      exact .inr rfl

theorem transferCommand?_container (h : transferCommand? a b path path' = some command) :
    command.container? = none := by
  rcases transferCommand?_cases h with ⟨-, rfl⟩ | rfl
  · rfl
  · rfl

/-- The commands of a call name no container but that of its subject. -/
theorem sends_carryOut (c : Containers) (now : Timestamp) (call : Call) :
    (carryOut c now call).Sends (Within call.subject?) := by
  cases call with
  | quiesce e => exact sends_perform (within_of_container rfl)
  | resume e =>
    have hrunning : (c.isRunning e).Sends (Within (some e)) :=
      (Reach.sends_run (within_of_container rfl)).bind fun _ => trivial
    refine hrunning.bind fun running => ?_
    split
    · exact (sends_perform (within_of_container rfl)).bind fun _ =>
        sends_perform (within_of_container rfl)
    · exact sends_perform (within_of_container rfl)
  | probe e =>
    exact (Reach.sends_runChecked (within_of_container rfl)).bind fun f =>
      sends_done (readSendQueue f.stdout)
  | capture e id =>
    refine (sends_ofExcept _).bind fun h => ?_
    refine (sends_perform (within_of_container rfl)).bind fun _ => ?_
    exact (sends_fileSize fun host _ => within_of_no_container rfl host).bind fun size => trivial
  | prepare host image =>
    refine (sends_ofExcept _).bind fun h => ?_
    refine (sends_perform fun host _ => within_of_no_container rfl host).bind fun _ => ?_
    cases image with
    | none => trivial
    | some image => exact sends_perform fun host _ => within_of_no_container rfl host
  | transfer s target =>
    refine (sends_ofExcept _).bind fun source => ?_
    refine (sends_ofExcept _).bind fun destination => ?_
    dsimp only
    split
    · trivial
    · rename_i command hc
      refine (sends_perform fun host _ => ?_).bind fun _ => trivial
      exact within_of_no_container (transferCommand?_container hc) host
  | measure s => exact sends_fileSize fun host _ => within_of_no_container rfl host
  | restore s target options =>
    refine (Reach.sends_runBestEffort (within_of_container rfl)).bind fun _ => ?_
    refine (Reach.sends_run (within_of_container rfl)).bind fun f => ?_
    split
    · trivial
    · trivial
  | teardown e => exact sends_perform (within_of_container rfl)
  | reattach e peers =>
    refine (sends_ofExcept _).bind fun h => ?_
    exact sends_configure fun host _ => within_of_no_container rfl host
  | announce e => exact sends_configure fun host _ => within_of_no_container rfl host
  | detach e => exact sends_configure fun host _ => within_of_no_container rfl host
  | discard s => exact sends_perform fun host _ => within_of_no_container rfl host

end Hosts

open Journal

variable {config : Config} {p : Plan} {l : List Occurrence}

def Plan.About (p : Plan) (c : Call) : Prop := ∀ e ∈ c.subject?, e = p.source ∨ e = p.target

theorem Stage.about_of_awaited {s : Stage} (hc : c ∈ s.awaited config p) : p.About c := by
  cases s with
  | discarding f left =>
    obtain ⟨x, _, rfl⟩ := List.mem_map.1 hc
    exact nofun
  | capturing a b =>
    simp only [awaited, List.mem_append] at hc
    rcases hc with hc | hc
    · split at hc
      · simp_all [Plan.About, Call.subject?]
      · cases hc
    · split at hc
      · simp_all [Plan.About, Call.subject?]
      · cases hc
  | submitted | pausing | finished => cases hc
  | _ => simp_all [awaited, Plan.About, Call.subject?]

theorem Course.about (h : Course config p P pr j l) : ∀ c ∈ calls l, p.About c := by
  induction h with
  | accepted => exact nofun
  | entered _ _ _ ih =>
    rw [calls_append, calls_calling, List.forall_mem_append]
    exact ⟨ih, fun c hc => Stage.about_of_awaited hc⟩
  | discarding _ _ ih =>
    rw [calls_append, calls_calling, List.forall_mem_append]
    refine ⟨ih, fun c hc => ?_⟩
    obtain ⟨x, _, rfl⟩ := List.mem_map.1 hc
    exact nofun
  | woken _ _ ih | tornDown _ ih | reattached _ ih | removing _ _ _ ih | targetRemoved _ _ ih
  | resuming _ _ ih =>
    rw [calls_append, List.forall_mem_append]
    exact ⟨ih, by simp [call?, Plan.About, Call.subject?]⟩
  | _ => simp_all [call?]

/-- However a history goes, and whatever the hosts answer, a command of a migration that names a container
names that of the source on its host, or that of the target on its host. -/
theorem migration_within_source_and_target (config : Config) (s : Store) (inputs : List Input)
    (id : JobId) :
    let l := ((Controller.idle config s).watch inputs).journal id
    l = [] ∨ ∃ p, p.id = id ∧ l.head? = some (.accepted p) ∧
      ∀ c ∈ calls l, ∀ now answers host command,
        (host, command) ∈ ((Hosts.carryOut config.containers now c).play answers).2 →
        ∀ name, command.container? = some name →
          (host.name, name) = (p.source.host, p.source.container) ∨
            (host.name, name) = (p.target.host, p.target.container) := by
  rcases Controller.course_watch config s inputs id with h | ⟨p, stage, pr, j, hp, -, h⟩
  · exact .inl h
  · refine .inr ⟨p, hp, h.head?_eq, fun c hc now answers host command hm name hn => ?_⟩
    obtain ⟨e, he, hhost, hname⟩ := (Hosts.sends_carryOut config.containers now c).of_play hm name hn
    rw [hhost, hname]
    rcases h.about c hc e he with rfl | rfl
    · exact .inl rfl
    · exact .inr rfl

/-- Two nodes that leave the name of their container to the configuration, on two hosts: the migration of
one to the host of the other removes the container of the other. -/
theorem container_of_bystander_removed :
    let node (n : UInt8) (host : HostName) (isMember : Bool) : Node :=
      ⟨⟨n.toUInt32⟩, ⟨.replicate 6 n⟩, host, "server", none, isMember⟩
    let config := Config.plain [⟨"a", "a", 1, "eth0", "/var"⟩, ⟨"b", "b", 2, "eth0", "/var"⟩]
      [node 10 "a" true, node 50 "b" false]
    let e : Endpoint := ⟨⟨⟨10⟩, ⟨.replicate 6 10⟩⟩, "a", 1, "server"⟩
    let bystander : Endpoint := ⟨⟨⟨50⟩, ⟨.replicate 6 50⟩⟩, "b", 2, "server"⟩
    let s := Store.empty.act (.write none ⟨[
      .createGroup ⟨1⟩ 1, .putEndpoint e, .putRule ⟨⟨10⟩, 1, some e.mac⟩, .putEndpoint bystander,
      .putRule ⟨⟨50⟩, 2, some bystander.mac⟩, .bind ⟨1⟩ 0 ⟨10⟩, .putNat 80 ⟨1⟩]⟩)
    let now : Moment := ⟨0, 0, 0⟩
    let p : Plan :=
      ⟨.ofNat 7, e, e.migrated "b" 2 none, .sameIdentity, .beforeRestore, some (⟨1⟩, 0)⟩
    let x : Snapshot := ⟨"x", ⟨10⟩, "a", "/var/x", 5, now.wall⟩
    let w := (Controller.idle config s).watch (.submit now.wall p.id ⟨⟨10⟩, "b", none⟩ ::
      p.delivered now x ++
        [.answer now p.id (.teardown e) (.ok ()), .answer now p.id (.detach e) (.ok ())])
    let c : Call := .restore x p.target p.restoreOptions
    config.validate = .ok () ∧ config.provision = .ok s ∧ (w.journal p.id).head? = some (.accepted p) ∧
      w.controller.store.tables.endpoints.get? ⟨50⟩ = some bystander ∧ c ∈ calls (w.journal p.id) ∧
      (⟨"b", "b", 2, "eth0", "/var"⟩, .removeLeftover bystander.container) ∈
        ((Hosts.carryOut config.containers now.wall c).play []).2 := by
  intro node config e bystander s now p x w c
  refine ⟨by decide, by decide, by decide, by decide, by decide, ?_⟩
  decide

end LiveMigration
