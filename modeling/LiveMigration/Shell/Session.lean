import LiveMigration.Fleet.Config
import LiveMigration.Shell.Command
import LiveMigration.Text.Utf8

/-!
# Sessions

Work on hosts as the commands that it runs, each depending on what the ones before it put out. Nothing is
sent to a host that the inventory does not know.
-/

namespace LiveMigration.Shell

inductive Exit
  | code (n : UInt8)
  | signal (n : Int)
  deriving DecidableEq, Repr

structure Output where
  stdout : List UInt8
  stderr : List UInt8
  exit : Exit
  deriving DecidableEq, Repr

def Output.silent : Output := ⟨[], [], .code 0⟩

structure Finished where
  host : HostName
  command : String
  success : Bool
  stdout : String
  stderr : String
  exitCode : Option Int
  deriving DecidableEq, Repr

def Finished.ofOutput (host : HostName) (command : String) (o : Output) : Finished where
  host
  command
  success := o.exit = .code 0
  stdout := Text.Utf8.decode o.stdout
  stderr := Text.Utf8.decode o.stderr
  exitCode :=
    match o.exit with
    | .code n => some n.toNat
    | .signal _ => none

def Finished.failure (f : Finished) : HostError :=
  .command f.host f.command f.exitCode (Text.trimString f.stderr)

/-- Commands to run on hosts. A command is answered by its output, or by nothing if it never ends. -/
inductive Session (α : Type)
  | done (result : Ending α)
  | run (host : Host) (command : Command) (next : Option Output → Session α)

namespace Session

def bind (p : Session α) (k : α → Session β) : Session β :=
  match p with
  | .done (.ok a) => k a
  | .done (.error e) => .done (.error e)
  | .done .crashed => .done .crashed
  | .run host command next => .run host command fun o => (next o).bind k

instance : Monad Session where
  pure a := .done (.ok a)
  bind := bind

def fail (e : HostError) : Session α := .done (.error e)

def ofExcept (r : Except HostError α) : Session α := .done (.ofExcept r)

def attempt : Session α → Session (Except HostError α)
  | .done (.ok a) => .done (.ok (.ok a))
  | .done (.error e) => .done (.ok (.error e))
  | .done .crashed => .done .crashed
  | .run host command next => .run host command fun o => (next o).attempt

def play : List (Option Output) → Session α → Ending α × List (Host × Command)
  | _, .done r => (r, [])
  | answers, .run host command next =>
    let (o, rest) := match answers with
      | [] => (some Output.silent, [])
      | o :: rest => (o, rest)
    let (r, log) := play rest (next o)
    (r, (host, command) :: log)
termination_by structural _ p => p

end Session

def invocation (h : Host) (command : String) : String × List String :=
  if h.isLocal then ("sh", ["-c", command])
  else ("ssh", ["-o", "BatchMode=yes", "-o", "ConnectTimeout=5", h.ssh, command])

/-- Whether a program can be started with an argument, which is handed over up to its first NUL. -/
def isArgument (s : String) : Bool := !s.toList.contains '\x00'

def badArgument : HostError := .io "nul byte found in provided data"

structure Reach where
  inventory : Inventory
  timeout : Span
  deriving DecidableEq, Repr

namespace Reach

def host (r : Reach) (name : HostName) : Session Host := .ofExcept (r.inventory.get name)

def run (r : Reach) (name : HostName) (command : Command) : Session Finished := do
  let h ← r.host name
  if (invocation h command.text).2.all isArgument then
    .run h command fun
      | none => .fail (.timeout r.timeout)
      | some o => pure (.ofOutput name command.text o)
  else .fail badArgument

def runChecked (r : Reach) (name : HostName) (command : Command) : Session Finished := do
  let f ← r.run name command
  if f.success then return f else .fail f.failure

def runBestEffort (r : Reach) (name : HostName) (command : Command) : Session Unit := do
  let _ ← (r.run name command).attempt
  return ()

end Reach

end LiveMigration.Shell
