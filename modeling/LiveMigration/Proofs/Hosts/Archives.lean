import LiveMigration.Proofs.Controller.Actions
import LiveMigration.Proofs.Hosts.Execution

/-!
# Archives

Which archives a migration removes before it ends: those of the calls that were seen to succeed. What a call
left that failed, or that was given up, after it had made an archive or begun to copy one, stays.
-/

namespace LiveMigration

namespace Shell

def Command.archive? : Command → Option String
  | .checkpoint _ path => some path
  | _ => none

def Command.destination? : Command → Option String
  | .copy _ path | .secureCopy _ _ path => some path
  | _ => none

section

variable (log : List Execution)

def Captured (name : HostName) (path : String) : Prop :=
  ∃ x ∈ log, x.host.name = name ∧ x.command.archive? = some path ∧ x.succeeded = true

/-- A file was to be copied to a place; all of it or a part may have come there. -/
def Copied (path : String) : Prop := ∃ x ∈ log, x.command.destination? = some path

def Removed (name : HostName) (path : String) : Prop :=
  ∃ x ∈ log, x.host.name = name ∧ x.command = .removeFile path

instance : Decidable (Captured log name path) := inferInstanceAs (Decidable (∃ x ∈ log, _))

instance : Decidable (Copied log path) := inferInstanceAs (Decidable (∃ x ∈ log, _))

instance : Decidable (Removed log name path) := inferInstanceAs (Decidable (∃ x ∈ log, _))

end

namespace Reach

variable {r : Reach} {name : HostName} {host : Host}

theorem starts_removeFile_iff : r.Starts name (.removeFile path) host ↔ r.inventory.get name = .ok host ∧
    (host.isLocal = true ∨ isArgument host.ssh = true) ∧ isArgument path = true := by
  have htext : isArgument (Command.removeFile path).text = isArgument path := by
    have hrm : isArgument "rm" = true ∧ isArgument "-f" = true := by decide
    simp [Command.text, Command.words?, isArgument_lineText, plainWords, valueWord, Piece.text,
      isArgument_quoteString, hrm]
  rw [starts_iff, htext]

theorem starts_of_checkpoint (h : r.Starts name (.checkpoint container path) host) :
    r.Starts name (.removeFile path) host := by
  rw [starts_iff] at h
  refine starts_removeFile_iff.2 ⟨h.1, h.2.1, ?_⟩
  exact isArgument_of_value (w := valueWord path) h.2.2 rfl (by simp) List.mem_cons_self

theorem starts_of_transfer {source target : Host}
    (hc : Hosts.transferCommand? source target from' to' = some command) (h : r.Starts name command source)
    (ht : r.inventory.get name' = .ok target) : r.Starts name' (.removeFile to') target := by
  have htext := (starts_iff.1 h).2.2
  refine starts_removeFile_iff.2 ⟨ht, ?_⟩
  rcases Hosts.transferCommand?_cases hc with ⟨hl, rfl⟩ | rfl
  · exact ⟨.inl hl, isArgument_of_value (w := valueWord to') htext rfl (by simp) List.mem_cons_self⟩
  · have hw : ([.value target.ssh, .plain ":", .value to'] : Word) ∈
        plainWords ["scp", "-q", "-o", "BatchMode=yes"] ++
          [valueWord from', [.value target.ssh, .plain ":", .value to']] := by simp
    exact ⟨.inr (isArgument_of_value htext rfl hw (by simp)), isArgument_of_value htext rfl hw (by simp)⟩

end Reach

end Shell

namespace Hosts

open Shell Session

def Concerns (call : Call) (host : Host) : Command → Prop
  | .checkpoint .. => ∃ e id, call = .capture e id ∧ host.name = e.host
  | .copy .. | .secureCopy .. => ∃ s target, call = .transfer s target
  | .removeFile path => ∃ s, call = .discard s ∧ host.name = s.host ∧ path = s.path
  | _ => True

theorem concerns_carryOut (c : Containers) (now : Timestamp) (call : Call) :
    (carryOut c now call).Sends (Concerns call) := by
  cases call with
  | quiesce e => exact sends_perform fun _ _ => trivial
  | resume e =>
    refine ((Reach.sends_run fun _ _ => trivial).bind fun _ => trivial : (c.isRunning e).Sends _).bind
      fun running => ?_
    split
    · exact (sends_perform fun _ _ => trivial).bind fun _ => sends_perform fun _ _ => trivial
    · exact sends_perform fun _ _ => trivial
  | probe e =>
    exact (Reach.sends_runChecked fun _ _ => trivial).bind fun f => sends_done (readSendQueue f.stdout)
  | capture e id =>
    refine (sends_ofExcept _).bind fun h => ?_
    refine (sends_perform fun host hn => ⟨e, id, rfl, hn⟩).bind fun _ => ?_
    exact (sends_fileSize fun _ _ => trivial).bind fun size => trivial
  | prepare host image =>
    refine (sends_ofExcept _).bind fun h => (sends_perform fun _ _ => trivial).bind fun _ => ?_
    cases image with
    | none => trivial
    | some image => exact sends_perform fun _ _ => trivial
  | transfer s target =>
    refine (sends_ofExcept _).bind fun source => (sends_ofExcept _).bind fun destination => ?_
    dsimp only
    split
    · trivial
    · next command hc =>
      refine (sends_perform fun host _ => ?_).bind fun _ => trivial
      rcases transferCommand?_cases hc with ⟨-, rfl⟩ | rfl
      · exact ⟨s, target, rfl⟩
      · exact ⟨s, target, rfl⟩
  | measure s => exact sends_fileSize fun _ _ => trivial
  | restore s target options =>
    refine (Reach.sends_runBestEffort fun _ _ => trivial).bind fun _ => ?_
    refine (Reach.sends_run fun _ _ => trivial).bind fun f => ?_
    split
    · trivial
    · trivial
  | teardown e => exact sends_perform fun _ _ => trivial
  | reattach e peers =>
    exact (sends_ofExcept _).bind fun h => sends_configure fun _ _ => trivial
  | announce e | detach e => exact sends_configure fun _ _ => trivial
  | discard s => exact sends_perform fun host hn => ⟨s, rfl, hn, rfl⟩

variable {c : Containers} {log : List Execution}

theorem executes_capture {id : String} {o : Outcome Snapshot}
    (h : (carryOut c now (.capture e id)).Executes log o) :
    log = [] ∧ (∀ x, o ≠ .ok x) ∨ ∃ y rest path, log = y :: rest ∧ y.command = .checkpoint e.container path ∧
      c.reach.Starts e.host (.removeFile path) y.host ∧ (∀ z ∈ rest, z.command = .fileSize path) ∧
      ∀ x, o = .ok x → y.succeeded = true ∧ x.host = e.host ∧ x.path = path := by
  rcases Executes.of_host_bind h with ⟨host, -, h⟩ | hnone
  · let path := Path.join host.checkpointDir (archiveName id)
    let told : Session Snapshot := do
      let size ← fileSize c.reach e.host path
      return { id, endpoint := e.addr, host := e.host, path, size, createdAt := now }
    have hsends : told.Sends fun _ command => command = .fileSize path :=
      Sends.bind (p := fileSize c.reach e.host path) (sends_fileSize fun _ _ => rfl) fun _ => trivial
    have hends : told.Ends fun r => ∀ x, r = .ok x → x.host = e.host ∧ x.path = path :=
      ends_bind (fun size x hx => by cases hx; exact ⟨rfl, rfl⟩) nofun nofun
    change (perform c.reach e.host (.checkpoint e.container path) >>= fun _ => told).Executes log o at h
    rcases h.of_bind with ⟨_, before, after, hp, htold, rfl⟩ | ⟨o', hp, -, ho⟩
    · rcases executes_perform hp with ⟨host', output, hs, rfl, hok⟩ | ⟨-, hne, -⟩
      · refine .inr ⟨_, after, path, rfl, rfl, Reach.starts_of_checkpoint hs, hsends.of_executes htold, ?_⟩
        rintro x rfl
        exact ⟨hok rfl, hends.of_executes htold x rfl⟩
      · exact absurd rfl hne
    · rcases executes_perform hp with ⟨host', output, hs, rfl, -⟩ | ⟨rfl, -⟩
      · refine .inr ⟨_, [], path, rfl, rfl, Reach.starts_of_checkpoint hs, nofun, ?_⟩
        exact fun x hx => absurd hx (ho x)
      · exact .inl ⟨rfl, ho⟩
  · exact .inl hnone

theorem destination?_of_transfer {a b : Host} (h : transferCommand? a b path path' = some command) :
    command.destination? = some path' := by
  rcases transferCommand?_cases h with ⟨-, rfl⟩ | rfl
  · rfl
  · rfl

theorem isElsewhere_delivered {i : Inventory} (hs : i.get s.host = .ok a) (ht : i.get target = .ok b) :
    Turn.isElsewhere (s.deliveredTo target path) s = (transferCommand? a b s.path path).isSome := by
  have hsame : Path.same s.path path = Path.same path s.path := by
    simp only [Path.same, eq_comm]
  simp only [Turn.isElsewhere, Snapshot.deliveredTo, transferCommand?, Inventory.name_of_get hs,
    Inventory.name_of_get ht, hsame]
  by_cases hp : s.host = target ∧ Path.same path s.path = true
  · simp [hp]
  · rw [if_neg hp]
    have hne : (decide (target ≠ s.host) || !Path.same path s.path) = true := by
      by_contra hall
      simp only [ne_eq, decide_not, Bool.or_eq_true, Bool.not_eq_eq_eq_not, Bool.not_true,
        decide_eq_false_iff_not, not_or, not_not, Bool.not_eq_false] at hall
      exact hp ⟨hall.1.symm, hall.2⟩
    refine hne.trans ?_
    split
    · rfl
    · rfl

theorem executes_transfer {o : Outcome Snapshot} (h : (carryOut c now (.transfer s target)).Executes log o) :
    log = [] ∧ (∀ d, o = .ok d → Turn.isElsewhere d s = false) ∨
      ∃ y host path, log = [y] ∧ y.command.destination? = some path ∧
        c.reach.Starts target (.removeFile path) host ∧ Turn.isElsewhere (s.deliveredTo target path) s = true ∧
        ∀ d, o = .ok d → d = s.deliveredTo target path := by
  rcases Executes.of_host_bind h with ⟨a, hs, h⟩ | ⟨rfl, ho⟩
  · rcases Executes.of_host_bind h with ⟨b, ht, h⟩ | ⟨rfl, ho⟩
    · let delivered := s.deliveredTo target (destination s b)
      have helse : Turn.isElsewhere delivered s = (transferCommand? a b s.path (destination s b)).isSome :=
        isElsewhere_delivered hs ht
      dsimp only at h
      cases hcommand : transferCommand? a b s.path (destination s b) with
      | none =>
        rw [hcommand] at h helse
        obtain ⟨rfl, ho⟩ := executes_done.1 h
        cases ho
        refine .inl ⟨rfl, ?_⟩
        rintro d ⟨⟩
        exact helse
      | some command =>
        rw [hcommand] at h helse
        obtain ⟨o', hp, hok⟩ : ∃ o', (perform c.reach s.host command).Executes log o' ∧
            ∀ d, o = .ok d → o' = .ok () ∧ d = delivered := by
          rcases h.of_bind with ⟨_, before, after, hp, hdone, rfl⟩ | ⟨o', hp, -, ho⟩
          · obtain ⟨rfl, ho⟩ := executes_done.1 hdone
            cases ho
            rw [List.append_nil]
            refine ⟨.ok (), hp, ?_⟩
            rintro d ⟨⟩
            exact ⟨rfl, rfl⟩
          · exact ⟨o', hp, fun d hd => absurd hd (ho d)⟩
        rcases executes_perform hp with ⟨host, output, hstarts, rfl, -⟩ | ⟨rfl, hne, -⟩
        · cases hs.symm.trans hstarts.1
          exact .inr ⟨_, b, destination s b, rfl, destination?_of_transfer hcommand,
            Reach.starts_of_transfer hcommand hstarts ht, helse, fun d hd => (hok d hd).2⟩
        · exact .inl ⟨rfl, fun d hd => absurd (hok d hd).1 hne⟩
    · exact .inl ⟨rfl, fun d hd => absurd hd (ho d)⟩
  · exact .inl ⟨rfl, fun d hd => absurd hd (ho d)⟩

end Hosts

open Journal Shell

def Occurrence.Executes (c : Hosts.Containers) : Occurrence → List Execution → Prop
  | .answered call o, log => ∃ now, (Hosts.carryOut c now call).Executes log o
  | _, log => log = []

def Occurrence.scripted (c : Hosts.Containers) (now : Timestamp) (script : Call → List (Option Output)) :
    Occurrence → List Execution
  | .answered call _ => ((Hosts.carryOut c now call).execute (script call)).2
  | _ => []

def Occurrence.Follows (c : Hosts.Containers) (now : Timestamp) (script : Call → List (Option Output)) :
    Occurrence → Prop
  | .answered call o => ((Hosts.carryOut c now call).execute (script call)).1 = some o
  | _ => True

instance : DecidablePred (Occurrence.Follows c now script)
  | .answered _ o => inferInstanceAs (Decidable (_ = some o))
  | .accepted _ | .did _ => .isTrue trivial

namespace Plan

variable {p : Plan} {l m : List Occurrence}

def Handles (p : Plan) (l : List Occurrence) : Call → Prop
  | .capture e id => e = p.source ∧ id = p.snapshotId
  | .transfer x host => host = p.target.host ∧ .answered (.capture p.source p.snapshotId) (.ok x) ∈ l
  | _ => True

theorem Handles.mono (h : p.Handles l c) : p.Handles (l ++ m) c := by
  cases c with
  | capture => exact h
  | transfer => exact ⟨h.1, List.mem_append_left m h.2⟩
  | _ => trivial

end Plan

variable {config : Config} {p : Plan} {l : List Occurrence}

theorem Stage.handles_of_awaited {s : Stage} (hs : s.Entered) (h : s.Known config p l)
    (hc : c ∈ s.awaited config p) : p.Handles l c := by
  cases hs with
  | capturing =>
    rcases List.mem_append.1 hc with hc | hc
    · cases List.mem_singleton.1 hc
      exact ⟨rfl, rfl⟩
    · cases List.mem_singleton.1 hc
      trivial
  | transferring x =>
    cases List.mem_singleton.1 hc
    exact ⟨rfl, h⟩
  | _ =>
    cases List.mem_singleton.1 hc
    trivial

namespace Course

theorem handles (h : Course config p P pr j l) : ∀ c ∈ calls l, p.Handles l c := by
  have mono : ∀ {l m : List Occurrence}, (∀ c ∈ calls l, p.Handles l c) →
      (∀ c ∈ calls m, p.Handles (l ++ m) c) → ∀ c ∈ calls (l ++ m), p.Handles (l ++ m) c := by
    intro l m hl hm
    rw [calls_append, List.forall_mem_append]
    exact ⟨fun c hc => (hl c hc).mono, hm⟩
  induction h with
  | accepted => exact nofun
  | entered _ hc _ ih =>
    refine mono ih ?_
    rw [calls_calling]
    exact fun c hm => (Stage.handles_of_awaited (hc.stage_entered rfl) hc.known hm).mono
  | discarding _ _ ih =>
    refine mono ih fun c hm => ?_
    rw [calls_calling] at hm
    obtain ⟨x, -, rfl⟩ := List.mem_map.1 hm
    trivial
  | cancel _ _ ih | started _ ih | cancelled _ _ ih | halfway _ _ ih | captureFailed _ ih | prepareFailed _ ih
  | gathered _ ih | forwardCancelled _ _ ih | kept _ _ ih | moved _ _ ih | unrestored _ _ _ ih
  | unresumed _ _ ih | tidied _ _ ih => exact ih
  | _ =>
    rename_i ih
    exact mono ih (by simp [call?, Plan.Handles])

section

variable (h : Course config p (.waiting .finished) pr j l)

include h

theorem answered_of_called (hc : c ∈ calls l) : ∃ o, .answered c o ∈ l := by
  have hcount : (calls l).count c = (answers l).count c := h.count_calls_eq c
  have hanswer : c ∈ answers l := by
    rw [← List.count_pos_iff, ← hcount, List.count_pos_iff]
    exact hc
  obtain ⟨e, he, ha⟩ := List.mem_filterMap.1 hanswer
  cases e with
  | answered c' o =>
    cases ha
    exact ⟨o, he⟩
  | accepted | did => cases ha

theorem discarded_iff : (∃ o, .answered (.discard x) o ∈ l) ↔ x ∈ copies l := by
  have hcount := h.cleanedUp.discarded x
  constructor
  · rintro ⟨o, ho⟩
    have hpos := List.count_pos_iff.2 (h.called_of_answered ho)
    by_contra hx
    rw [if_neg hx] at hcount
    omega
  · intro hx
    rw [if_pos hx] at hcount
    exact h.answered_of_called (List.count_pos_iff.1 (by omega))

end

theorem copy_cases (h : Course config p P pr j l) (hx : x ∈ copies l) :
    .answered (.capture p.source p.snapshotId) (.ok x) ∈ l ∨
      ∃ s, .answered (.transfer s p.target.host) (.ok x) ∈ l ∧ Turn.isElsewhere x s = true := by
  obtain ⟨e, he, hc⟩ := List.mem_filterMap.1 hx
  cases e with
  | accepted | did => cases hc
  | answered c o =>
    have hh := h.handles c (h.called_of_answered he)
    cases c with
    | capture e id =>
      cases o with
      | ok y =>
        obtain ⟨rfl, rfl⟩ := hh
        cases hc
        exact .inl he
      | failed | expired => cases hc
    | transfer s host =>
      cases o with
      | ok d =>
        obtain ⟨rfl, -⟩ := hh
        simp only [copy?, Option.ite_none_right_eq_some, Option.some.injEq] at hc
        obtain ⟨hd, rfl⟩ := hc
        exact .inr ⟨s, he, hd⟩
      | failed | expired => cases hc
    | _ => cases hc

end Course

namespace Journal

/-- What was run for a migration, each part of it with the occurrence that it led to. -/
structure RunFor (config : Config) (l : List Occurrence) (runs : List (Occurrence × List Execution)) :
    Prop where
  journal : runs.map Prod.fst = l
  executes : ∀ x ∈ runs, x.1.Executes config.containers x.2

/-- Of the archives that a migration made or copied, it removed those of the calls that succeeded. -/
structure Cleared (p : Plan) (l : List Occurrence) (log : List Execution) : Prop where
  captured : ∀ path, Captured log p.source.host path → (Removed log p.source.host path ↔
    ∃ x, .answered (.capture p.source p.snapshotId) (.ok x) ∈ l)
  copied : ∀ path, Copied log path → (Removed log p.target.host path ↔
    ∃ x d, .answered (.transfer x p.target.host) (.ok d) ∈ l)
  only : ∀ name path, Removed log name path →
    name = p.source.host ∧ Captured log name path ∨ name = p.target.host ∧ Copied log path

variable {runs : List (Occurrence × List Execution)}

theorem RunFor.exists_log (h : RunFor config l runs) {o : Outcome c.Reply} (ho : .answered c o ∈ l) :
    ∃ now log, (Hosts.carryOut config.containers now c).Executes log o ∧
      ∀ x ∈ log, x ∈ runs.flatMap Prod.snd := by
  rw [← h.journal] at ho
  obtain ⟨⟨e, log⟩, hm, rfl⟩ := List.mem_map.1 ho
  obtain ⟨now, he⟩ := h.executes _ hm
  exact ⟨now, log, he, fun x hx => List.mem_flatMap.2 ⟨_, hm, hx⟩⟩

theorem RunFor.exists_call (h : RunFor config l runs) (hx : x ∈ runs.flatMap Prod.snd) :
    ∃ (c : Call) (o : Outcome c.Reply) (now : Timestamp) (log : List Execution), .answered c o ∈ l ∧
      (Hosts.carryOut config.containers now c).Executes log o ∧ x ∈ log := by
  obtain ⟨⟨e, log⟩, hm, hx⟩ := List.mem_flatMap.1 hx
  have he := h.executes _ hm
  have hmem : e ∈ l := h.journal ▸ List.mem_map_of_mem hm
  cases e with
  | answered c o =>
    obtain ⟨now, he⟩ := he
    exact ⟨c, o, now, log, hmem, he, hx⟩
  | accepted | did =>
    cases he
    cases hx

theorem runFor_scripted {script : Call → List (Option Output)}
    (h : ∀ e ∈ l, e.Follows config.containers now script) :
    RunFor config l (l.map fun e => (e, e.scripted config.containers now script)) := by
  constructor
  · simp [Function.comp_def]
  · intro x hx
    obtain ⟨e, he, rfl⟩ := List.mem_map.1 hx
    have hf := h e he
    cases e with
    | answered c o => exact ⟨now, script c, Prod.ext hf rfl⟩
    | accepted | did => rfl

end Journal

namespace Course

variable {runs : List (Occurrence × List Execution)} {path : String} {name : HostName}

theorem captured_cases (h : Course config p P pr j l) (hr : RunFor config l runs)
    (hc : Captured (runs.flatMap Prod.snd) name path) : name = p.source.host ∧
      ∃ o host, .answered (.capture p.source p.snapshotId) o ∈ l ∧
        config.containers.reach.Starts name (.removeFile path) host ∧
        ∀ x, o = .ok x → x.host = name ∧ x.path = path := by
  obtain ⟨y, hy, hname, harchive, -⟩ := hc
  obtain ⟨c, o, now, log, ho, he, hy⟩ := hr.exists_call hy
  have hconcerns := (Hosts.concerns_carryOut ..).of_executes he y hy
  obtain ⟨container, hcommand⟩ : ∃ container, y.command = .checkpoint container path := by
    cases hcommand : y.command with
    | checkpoint container archive =>
      rw [hcommand] at harchive
      cases harchive
      exact ⟨container, rfl⟩
    | _ =>
      rw [hcommand] at harchive
      cases harchive
  rw [hcommand] at hconcerns
  obtain ⟨e, id, rfl, hhost⟩ := hconcerns
  obtain ⟨rfl, rfl⟩ := h.handles _ (h.called_of_answered ho)
  have hsource : name = p.source.host := hname.symm.trans hhost
  rcases Hosts.executes_capture he with
    ⟨rfl, -⟩ | ⟨y', rest, path', rfl, hcommand', hs, hrest, hok⟩
  · cases hy
  · have hpath : y = y' ∧ path = path' := by
      rcases List.mem_cons.1 hy with rfl | hy
      · exact ⟨rfl, by cases hcommand.symm.trans hcommand'; rfl⟩
      · cases hcommand.symm.trans (hrest y hy)
    obtain ⟨rfl, rfl⟩ := hpath
    refine ⟨hsource, o, y.host, ho, hsource ▸ hs, fun x hx => ?_⟩
    obtain ⟨-, hxhost, hxpath⟩ := hok x hx
    exact ⟨hxhost.trans hsource.symm, hxpath⟩

theorem copied_cases (h : Course config p P pr j l) (hr : RunFor config l runs)
    (hc : Copied (runs.flatMap Prod.snd) path) : ∃ s o host, .answered (.transfer s p.target.host) o ∈ l ∧
      .answered (.capture p.source p.snapshotId) (.ok s) ∈ l ∧
      config.containers.reach.Starts p.target.host (.removeFile path) host ∧
      Turn.isElsewhere (s.deliveredTo p.target.host path) s = true ∧
      ∀ d, o = .ok d → d = s.deliveredTo p.target.host path := by
  obtain ⟨y, hy, hpath⟩ := hc
  obtain ⟨c, o, now, log, ho, he, hy⟩ := hr.exists_call hy
  have hconcerns := (Hosts.concerns_carryOut ..).of_executes he y hy
  obtain ⟨s, target, rfl⟩ : ∃ s target, c = .transfer s target := by
    cases hcommand : y.command with
    | copy | secureCopy =>
      rw [hcommand] at hconcerns
      exact hconcerns
    | _ =>
      rw [hcommand] at hpath
      cases hpath
  obtain ⟨rfl, hs⟩ := h.handles _ (h.called_of_answered ho)
  rcases Hosts.executes_transfer he with ⟨rfl, -⟩ | ⟨y', host, path', rfl, hpath', hstarts, helse, hok⟩
  · cases hy
  · cases List.mem_singleton.1 hy
    cases hpath.symm.trans hpath'
    exact ⟨s, o, host, ho, hs, hstarts, helse, hok⟩

theorem captured_of_answered {id : String} (hr : RunFor config l runs)
    (hx : .answered (.capture e id) (.ok x) ∈ l) :
    x.host = e.host ∧ Captured (runs.flatMap Prod.snd) x.host x.path := by
  obtain ⟨now, log, he, hlog⟩ := hr.exists_log hx
  rcases Hosts.executes_capture he with ⟨-, hne⟩ | ⟨y, rest, path, rfl, hcommand, hs, -, hok⟩
  · exact absurd rfl (hne x)
  · obtain ⟨hy, hhost, rfl⟩ := hok x rfl
    refine ⟨hhost, y, hlog y List.mem_cons_self, ?_, by rw [hcommand]; rfl, hy⟩
    rw [hhost]
    exact Inventory.name_of_get hs.1

theorem copied_of_answered (hr : RunFor config l runs) (hd : .answered (.transfer s target) (.ok d) ∈ l)
    (helse : Turn.isElsewhere d s = true) : d.host = target ∧ Copied (runs.flatMap Prod.snd) d.path := by
  obtain ⟨now, log, he, hlog⟩ := hr.exists_log hd
  rcases Hosts.executes_transfer he with ⟨-, hsame⟩ | ⟨y, host, path, rfl, hpath, -, -, hok⟩
  · cases helse.symm.trans (hsame d rfl)
  · cases hok d rfl
    exact ⟨rfl, y, hlog y List.mem_cons_self, hpath⟩

section

variable (h : Course config p (.waiting .finished) pr j l) (hr : RunFor config l runs)

include h hr

theorem copy_of_removed (hm : Removed (runs.flatMap Prod.snd) name path) :
    ∃ x ∈ copies l, x.host = name ∧ x.path = path := by
  obtain ⟨y, hy, hname, hcommand⟩ := hm
  obtain ⟨c, o, now, log, ho, he, hy⟩ := hr.exists_call hy
  have hconcerns := (Hosts.concerns_carryOut ..).of_executes he y hy
  rw [hcommand] at hconcerns
  obtain ⟨x, rfl, hhost, rfl⟩ := hconcerns
  exact ⟨x, h.discarded_iff.1 ⟨o, ho⟩, hhost.symm.trans hname, rfl⟩

theorem removed_of_copy (hx : x ∈ copies l)
    (hs : config.containers.reach.Starts x.host (.removeFile x.path) host) :
    Removed (runs.flatMap Prod.snd) x.host x.path := by
  obtain ⟨o, ho⟩ := h.discarded_iff.2 hx
  obtain ⟨now, log, he, hlog⟩ := hr.exists_log ho
  rcases Hosts.executes_perform he with ⟨host', output, hs', rfl, -⟩ | ⟨-, -, hn⟩
  · exact ⟨_, hlog _ List.mem_cons_self, Inventory.name_of_get hs'.1, rfl⟩
  · exact absurd hs (hn host)

theorem cleared : Cleared p l (runs.flatMap Prod.snd) where
  captured := by
    intro path hc
    constructor
    · intro hm
      obtain ⟨x, hx, -⟩ := h.copy_of_removed hr hm
      rcases h.copy_cases hx with hx | ⟨s, hx, -⟩
      · exact ⟨x, hx⟩
      · exact ⟨s, (h.handles _ (h.called_of_answered hx)).2⟩
    · rintro ⟨x, hx⟩
      obtain ⟨-, o, host, ho, hs, hok⟩ := h.captured_cases hr hc
      cases h.answered_inj hx ho rfl rfl
      obtain ⟨hhost, rfl⟩ := hok x rfl
      rw [← hhost] at hs ⊢
      exact h.removed_of_copy hr (List.mem_filterMap.2 ⟨_, hx, rfl⟩) hs
  copied := by
    intro path hc
    obtain ⟨s, o, host, ho, hcapture, hs, helse, hok⟩ := h.copied_cases hr hc
    constructor
    · intro hm
      obtain ⟨x, hx, hhost, rfl⟩ := h.copy_of_removed hr hm
      rcases h.copy_cases hx with hx | ⟨s, hx, -⟩
      · -- The archive itself is not at the place that it is copied to.
        cases h.answered_inj hx hcapture rfl rfl
        rw [← hhost] at helse
        exact absurd rfl (Turn.ne_of_isElsewhere helse)
      · exact ⟨s, x, hx⟩
    · rintro ⟨x, d, hd⟩
      cases h.answered_inj hd ho rfl rfl
      cases hok d rfl
      exact h.removed_of_copy hr (List.mem_filterMap.2 ⟨_, hd, if_pos helse⟩) hs
  only := by
    intro name path hm
    obtain ⟨x, hx, rfl, rfl⟩ := h.copy_of_removed hr hm
    rcases h.copy_cases hx with hx | ⟨s, hx, helse⟩
    · exact .inl (captured_of_answered hr hx)
    · exact .inr (copied_of_answered hr hx helse)

end

end Course

/-- However a history goes, and whatever is run for the calls of a job, the job removes an archive before it
ends if the call that made or copied it was seen to succeed, and else it does not. -/
theorem archives_cleared (config : Config) (s : Store) (inputs : List Input) (id : JobId) (j : Job)
    (runs : List (Occurrence × List Execution))
    (hj : ((Controller.idle config s).watch inputs).controller.job? id = some j)
    (ht : j.isTerminal = true) (hr : RunFor config (((Controller.idle config s).watch inputs).journal id) runs) :
    let l := ((Controller.idle config s).watch inputs).journal id
    l.getLast? = some (.did (.publish j)) ∧ (∀ c ∈ calls l, ∃ o, .answered c o ∈ l) ∧
      ∃ p, l.head? = some (.accepted p) ∧ Cleared p l (runs.flatMap Prod.snd) := by
  intro l
  have hw := Watch.sound_watch config s inputs
  obtain ⟨p, stage, pr, h⟩ := (hw.stands id).course_of_job? hj
  cases h.finished_of_terminal ht
  have hconfig : ((Controller.idle config s).watch inputs).controller.config = config := Watch.config_foldl inputs
  rw [hconfig] at h
  obtain ⟨f, i, before, now, wall, -, -, hl⟩ := h.closed_of_finished rfl
  refine ⟨?_, fun c hc => h.answered_of_called hc, p, h.head?_eq, h.cleared hr⟩
  rw [show l = _ from hl, List.getLast?_concat]

theorem archives_cleared_unprepared :
    let e : Endpoint := ⟨⟨⟨10⟩, ⟨.replicate 6 1⟩⟩, "a", 1, "w"⟩
    let s := Store.empty.act (.write none ⟨[.putEndpoint e]⟩)
    let config := Config.plain [⟨"a", "a", 1, "eth0", "/v"⟩, ⟨"b", "b", 2, "eth0", "/t"⟩] []
    let now : Moment := ⟨0, 0, 0⟩
    let p : Plan := ⟨.ofNat 7, e, e.migrated "b" 2 none, .sameIdentity, .beforeRestore, none⟩
    let path := "/v/" ++ Hosts.archiveName p.snapshotId
    let x : Snapshot := ⟨p.snapshotId, ⟨10⟩, "a", path, 5, now.wall⟩
    let script : Call → List (Option Output)
      | .capture .. => [some .silent, some ⟨[53], [], .code 0⟩]
      | .prepare .. => []
      | _ => List.replicate 3 (some .silent)
    let w := (Controller.idle config s).watch [.submit now.wall p.id ⟨⟨10⟩, "b", none⟩, .start now p.id,
      .answer now p.id (.quiesce e) (.ok ()), .answer now p.id (.probe e) (.ok 0),
      .answer now p.id (.capture e p.snapshotId) (.ok x), .answer now p.id (.prepare "b" none) .expired,
      .answer now p.id (.resume e) (.ok ()), .answer now p.id (.discard x) (.ok ())]
    let runs := (w.journal p.id).map fun e => (e, e.scripted config.containers now.wall script)
    let log := runs.flatMap Prod.snd
    ∃ j, w.controller.job? p.id = some j ∧ j.isTerminal = true ∧ RunFor config (w.journal p.id) runs ∧
      Captured log "a" path ∧ Removed log "a" path := by
  intro e s config now p path x script w runs log
  have hj : (w.controller.job? p.id).any (·.isTerminal) = true := by decide
  obtain ⟨j, hj, ht⟩ := (Option.any_eq_true ..).1 hj
  have key : (∀ e ∈ w.journal p.id, e.Follows config.containers now.wall script) ∧
      Captured log "a" path := by decide +kernel
  have hr : RunFor config (w.journal p.id) runs := runFor_scripted key.1
  obtain ⟨-, -, p', hp, hc⟩ := archives_cleared config s _ p.id j runs hj ht hr
  have hhead : (w.journal p.id).head? = some (.accepted p) := by decide
  cases hp.symm.trans hhead
  have hx : .answered (.capture p.source p.snapshotId) (.ok x) ∈ w.journal p.id := by decide +kernel
  exact ⟨j, hj, ht, hr, key.2, (hc.captured path key.2).2 ⟨x, hx⟩⟩

/-- A transfer that is given up: what has come to the target by then is left there. -/
theorem partial_copy_left :
    let e : Endpoint := ⟨⟨⟨10⟩, ⟨.replicate 6 1⟩⟩, "a", 1, "w"⟩
    let s := Store.empty.act (.write none ⟨[.putEndpoint e]⟩)
    let a : Host := ⟨"a", "a", 1, "eth0", "/v"⟩
    let b : Host := ⟨"b", "b", 2, "eth0", "/t"⟩
    let config := Config.plain [a, b] []
    let now : Moment := ⟨0, 0, 0⟩
    let p : Plan := ⟨.ofNat 7, e, e.migrated "b" 2 none, .sameIdentity, .beforeRestore, none⟩
    let archive := Hosts.archiveName p.snapshotId
    let x : Snapshot := ⟨p.snapshotId, ⟨10⟩, "a", "/v/" ++ archive, 5, now.wall⟩
    let size : Output := ⟨[53], [], .code 0⟩
    let script : Call → List (Option Output)
      | .capture .. => [some .silent, some size]
      | .transfer .. => []
      | _ => List.replicate 3 (some .silent)
    let w := (Controller.idle config s).watch [.submit now.wall p.id ⟨⟨10⟩, "b", none⟩, .start now p.id,
      .answer now p.id (.quiesce e) (.ok ()), .answer now p.id (.probe e) (.ok 0),
      .answer now p.id (.capture e p.snapshotId) (.ok x), .answer now p.id (.prepare "b" none) (.ok ()),
      .answer now p.id (.transfer x "b") .expired, .answer now p.id (.resume e) (.ok ()),
      .answer now p.id (.discard x) (.ok ())]
    let runs := (w.journal p.id).map fun e => (e, e.scripted config.containers now.wall script)
    let log := runs.flatMap Prod.snd
    (w.controller.job? p.id).any (·.isTerminal) = true ∧ RunFor config (w.journal p.id) runs ∧
      Captured log "a" ("/v/" ++ archive) ∧ Removed log "a" ("/v/" ++ archive) ∧
      Copied log ("/t/" ++ archive) ∧ ¬ Removed log "b" ("/t/" ++ archive) := by
  intro e s a b config now p archive x size script w runs log
  have key : (∀ e ∈ w.journal p.id, e.Follows config.containers now.wall script) ∧ log = [
      ⟨a, .signal "w" "SIGUSR1", some .silent⟩, ⟨a, .sendQueue "w", some .silent⟩,
      ⟨a, .checkpoint "w" ("/v/" ++ archive), some .silent⟩, ⟨a, .fileSize ("/v/" ++ archive), some size⟩,
      ⟨b, .makeDir "/t", some .silent⟩, ⟨a, .secureCopy ("/v/" ++ archive) "b" ("/t/" ++ archive), none⟩,
      ⟨a, .inspectRunning "w", some .silent⟩, ⟨a, .restoreInPlace "w", some .silent⟩,
      ⟨a, .signal "w" "SIGUSR2", some .silent⟩, ⟨a, .removeFile ("/v/" ++ archive), some .silent⟩] := by
    decide +kernel
  refine ⟨by decide, runFor_scripted key.1, ?_⟩
  rw [key.2]
  exact ⟨by decide, by decide, by decide, by decide⟩

end LiveMigration
