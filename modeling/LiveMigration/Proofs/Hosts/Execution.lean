import LiveMigration.Proofs.Hosts.Reach

namespace LiveMigration

namespace Shell

/-- A command that was run, with what it put out; with nothing, if it did not end. -/
structure Execution where
  host : Host
  command : Command
  output : Option Output
  deriving DecidableEq, Repr

def Execution.succeeded (x : Execution) : Bool := x.output.any (·.exit = .code 0)

namespace Session

/-- What comes of work whose commands get these answers in turn, if anything, and what is run for it. It is given
up while the command runs that there is no answer for. -/
def execute : List (Option Output) → Session α → Option (Outcome α) × List Execution
  | _, .done r => (Outcome.ofEnding? r, [])
  | [], .run host command _ => (some .expired, [⟨host, command, none⟩])
  | o :: answers, .run host command next =>
    let (r, log) := execute answers (next o)
    (r, ⟨host, command, o⟩ :: log)
termination_by structural _ p => p

def Executes (p : Session α) (log : List Execution) (o : Outcome α) : Prop :=
  ∃ answers, p.execute answers = (some o, log)

variable {Q : Host → Command → Prop} {p : Session α} {log : List Execution} {o : Outcome α}

theorem executes_done : (Session.done r).Executes log o ↔ log = [] ∧ Outcome.ofEnding? r = some o := by
  have hdone (answers : List (Option Output)) : (Session.done r).execute answers = (Outcome.ofEnding? r, []) := by
    cases answers <;> rfl
  simp only [Executes, hdone, Prod.mk.injEq, exists_const]
  exact ⟨fun h => ⟨h.2.symm, h.1⟩, fun h => ⟨h.2, h.1.symm⟩⟩

theorem executes_run : (Session.run host command next).Executes log o ↔
    log = [⟨host, command, none⟩] ∧ o = .expired ∨
      ∃ x rest, log = ⟨host, command, x⟩ :: rest ∧ (next x).Executes rest o := by
  constructor
  · rintro ⟨answers, h⟩
    cases answers with
    | nil =>
      cases h
      exact .inl ⟨rfl, rfl⟩
    | cons x answers =>
      obtain ⟨ho, rfl⟩ := Prod.mk.inj h
      exact .inr ⟨x, _, rfl, answers, Prod.ext ho rfl⟩
  · rintro (⟨rfl, rfl⟩ | ⟨x, rest, rfl, answers, h⟩)
    · exact ⟨[], rfl⟩
    · refine ⟨x :: answers, ?_⟩
      simp only [execute, h]

theorem Executes.of_bind {k : α → Session β} {o : Outcome β} (h : (p >>= k).Executes log o) :
    (∃ a before after, p.Executes before (.ok a) ∧ (k a).Executes after o ∧ log = before ++ after) ∨
      ∃ o', p.Executes log o' ∧ (∀ a, o' ≠ .ok a) ∧ ∀ b, o ≠ .ok b := by
  induction p generalizing log with
  | done r =>
    cases r with
    | ok a => exact .inl ⟨a, [], log, executes_done.2 ⟨rfl, rfl⟩, h, rfl⟩
    | error e =>
      obtain ⟨rfl, ho⟩ := executes_done.1 h
      cases ho
      exact .inr ⟨.failed e, executes_done.2 ⟨rfl, rfl⟩, nofun, nofun⟩
    | crashed => cases (executes_done.1 h).2
  | run host command next ih =>
    rcases executes_run.1 h with ⟨rfl, rfl⟩ | ⟨x, rest, rfl, hrest⟩
    · exact .inr ⟨.expired, executes_run.2 (.inl ⟨rfl, rfl⟩), nofun, nofun⟩
    · rcases ih x hrest with ⟨a, before, after, hp, hk, rfl⟩ | ⟨o', hp, ho⟩
      · exact .inl ⟨a, _ :: before, after, executes_run.2 (.inr ⟨x, before, rfl, hp⟩), hk, rfl⟩
      · exact .inr ⟨o', executes_run.2 (.inr ⟨x, rest, rfl, hp⟩), ho⟩

theorem Executes.of_host_bind {r : Reach} {k : Host → Session α} (h : (r.host name >>= k).Executes log o) :
    (∃ host, r.inventory.get name = .ok host ∧ (k host).Executes log o) ∨ log = [] ∧ ∀ a, o ≠ .ok a := by
  simp only [Reach.host] at h
  cases hi : r.inventory.get name with
  | ok host =>
    rw [hi] at h
    exact .inl ⟨host, rfl, h⟩
  | error e =>
    rw [hi] at h
    obtain ⟨rfl, ho⟩ := executes_done.1 h
    cases ho
    refine .inr ⟨rfl, ?_⟩
    rintro a ⟨⟩

theorem Sends.of_executes (h : p.Sends Q) (he : p.Executes log o) : ∀ x ∈ log, Q x.host x.command := by
  induction p generalizing log with
  | done r =>
    obtain ⟨rfl, -⟩ := executes_done.1 he
    exact nofun
  | run host command next ih =>
    rcases executes_run.1 he with ⟨rfl, -⟩ | ⟨x, rest, rfl, hrest⟩
    · exact List.forall_mem_singleton.2 h.1
    · exact List.forall_mem_cons.2 ⟨h.1, ih x (h.2 x) hrest⟩

theorem Ends.of_executes {Q : Ending α → Prop} (h : p.Ends Q) (he : p.Executes log (.ok a)) :
    Q (.ok a) := by
  induction p generalizing log with
  | done r =>
    obtain ⟨-, hr⟩ := executes_done.1 he
    cases r with
    | ok b =>
      cases hr
      exact h
    | error | crashed => cases hr
  | run host command next ih =>
    rcases executes_run.1 he with ⟨-, ho⟩ | ⟨x, rest, -, hrest⟩
    · cases ho
    · exact ih x (h x) hrest

end Session

theorem isArgument_append (s t : String) : isArgument (s ++ t) = (isArgument s && isArgument t) := by
  simp [isArgument]

theorem isArgument_quoteString (s : String) : isArgument (quoteString s) = isArgument s := by
  have hquote : ∀ c, '\x00' ∈ quoteChar c ↔ '\x00' = c := by
    intro c
    simp only [quoteChar]
    split
    · next hc =>
      subst hc
      decide
    · exact List.mem_singleton
  have hmem : '\x00' ∈ quote s.toList ↔ '\x00' ∈ s.toList := by
    simp only [quote]
    split
    · rfl
    · simp [hquote]
  simp [isArgument, quoteString, hmem]

theorem isArgument_lineText (ws : List Word) :
    isArgument (lineText ws) = ws.all fun w => w.all fun piece => isArgument piece.text := by
  have hword : ∀ w : Word, isArgument w.text = w.all fun piece => isArgument piece.text := by
    intro w
    induction w with
    | nil => rfl
    | cons piece w ih =>
      have hcons : Word.text (piece :: w) = piece.text ++ Word.text w := by
        simp [Word.text, String.join_cons]
      rw [hcons, isArgument_append, ih, List.all_cons]
  have hblank : isArgument " " = true ∧ isArgument "" = true := by decide
  induction ws with
  | nil => rfl
  | cons w ws ih =>
    rw [List.all_cons, ← ih, ← hword]
    cases ws with
    | nil => simp [lineText, hblank]
    | cons w' ws => simp [lineText, isArgument_append, hblank]

theorem isArgument_of_value {command : Command} {w : Word} (h : isArgument command.text = true)
    (hc : command.words? = some ws) (hw : w ∈ ws) (hs : .value s ∈ w) : isArgument s = true := by
  have htext : command.text = lineText ws := by simp only [Command.text, hc]
  rw [htext, isArgument_lineText, List.all_eq_true] at h
  have hpiece := List.all_eq_true.1 (h w hw) (.value s) hs
  rwa [Piece.text, isArgument_quoteString] at hpiece

namespace Reach

variable {r : Reach} {host : Host} {command : Command}

def Starts (r : Reach) (name : HostName) (command : Command) (host : Host) : Prop :=
  r.inventory.get name = .ok host ∧ (invocation host command.text).2.all isArgument = true

theorem starts_iff : r.Starts name command host ↔ r.inventory.get name = .ok host ∧
    (host.isLocal = true ∨ isArgument host.ssh = true) ∧ isArgument command.text = true := by
  have hflags : isArgument "-c" = true ∧ isArgument "-o" = true ∧ isArgument "BatchMode=yes" = true ∧
      isArgument "ConnectTimeout=5" = true := by decide
  simp only [Starts, invocation]
  cases hl : host.isLocal with
  | true => simp [hflags]
  | false => simp [hflags]

end Reach

end Shell

namespace Hosts

open Shell Session

variable {r : Reach} {name : HostName} {command : Command} {log : List Execution} {o : Outcome Unit}

theorem perform_of_starts (h : r.Starts name command host) :
    ∃ next : Option Output → Ending Unit,
      perform r name command = .run host command (fun output => .done (next output)) ∧
        ∀ output, next output = .ok () → output.any (·.exit = .code 0) = true := by
  let finished := Finished.ofOutput name command.text
  refine ⟨fun output => output.elim (.error (.timeout r.timeout)) fun out =>
    if (finished out).success then .ok () else .error (finished out).failure, ?_, ?_⟩
  · simp only [perform, Reach.runChecked, Reach.run, Reach.host, h.1]
    refine (congrArg (fun p : Session Finished => p >>= _ >>= _) (if_pos h.2)).trans ?_
    refine congrArg (Session.run host command) (funext fun output => ?_)
    cases output with
    | none => rfl
    | some out =>
      change Session.bind (if (finished out).success = true then _ else _) _ =
        .done (if (finished out).success = true then _ else _)
      split
      · rfl
      · rfl
  · intro output ho
    cases output with
    | none => cases ho
    | some out =>
      cases hs : (finished out).success with
      | true => exact hs
      | false => simp [hs] at ho

theorem perform_of_not_starts (h : ∀ host, ¬ r.Starts name command host) :
    ∃ e, perform r name command = .done (.error e) := by
  cases hi : r.inventory.get name with
  | error e =>
    refine ⟨e, ?_⟩
    simp only [perform, Reach.runChecked, Reach.run, Reach.host, hi]
    rfl
  | ok host =>
    refine ⟨badArgument, ?_⟩
    have hrun : r.run name command = .done (.error badArgument) := by
      simp only [Reach.run, Reach.host, hi]
      exact if_neg fun ha => h host ⟨hi, ha⟩
    simp only [perform, Reach.runChecked, hrun]
    rfl

theorem executes_perform (h : (perform r name command).Executes log o) :
    (∃ host output, r.Starts name command host ∧ log = [⟨host, command, output⟩] ∧
      (o = .ok () → Execution.succeeded ⟨host, command, output⟩ = true)) ∨
      log = [] ∧ o ≠ .ok () ∧ ∀ host, ¬ r.Starts name command host := by
  by_cases hs : ∃ host, r.Starts name command host
  · obtain ⟨host, hs⟩ := hs
    obtain ⟨next, hp, hnext⟩ := perform_of_starts hs
    rw [hp, executes_run] at h
    rcases h with ⟨rfl, rfl⟩ | ⟨output, rest, rfl, hrest⟩
    · exact .inl ⟨host, none, hs, rfl, nofun⟩
    · obtain ⟨rfl, hr⟩ := executes_done.1 hrest
      refine .inl ⟨host, output, hs, rfl, fun ho => hnext output ?_⟩
      subst ho
      cases hn : next output with
      | ok => rfl
      | error | crashed =>
        rw [hn] at hr
        cases hr
  · obtain ⟨e, hp⟩ := perform_of_not_starts (not_exists.1 hs)
    rw [hp, executes_done] at h
    obtain ⟨rfl, ho⟩ := h
    cases ho
    exact .inr ⟨rfl, nofun, not_exists.1 hs⟩

end Hosts

end LiveMigration
