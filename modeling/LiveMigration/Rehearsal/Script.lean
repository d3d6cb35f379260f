import LiveMigration.Migration.Call

namespace LiveMigration.Rehearsal

inductive Kind
  | quiesce | resume | probe | capture | prepare | transfer | measure | restore | teardown | reattach
  | announce | detach | discard
  deriving DecidableEq, Repr

namespace Kind

def all : List Kind := [.quiesce, .resume, .probe, .capture, .prepare, .transfer, .measure, .restore,
  .teardown, .reattach, .announce, .detach, .discard]

def name : Kind → String
  | .quiesce => "quiesce"
  | .resume => "resume"
  | .probe => "queue"
  | .capture => "export"
  | .prepare => "prepare"
  | .transfer => "send"
  | .measure => "verify"
  | .restore => "import"
  | .teardown => "teardown"
  | .reattach => "reattach"
  | .announce => "announce"
  | .detach => "detach"
  | .discard => "discard"

def defaultDelay : Kind → Span
  | .quiesce | .prepare | .teardown | .reattach => 5
  | .restore => 10
  | .transfer => 15
  | .capture => 20
  | .probe | .resume | .measure | .announce | .detach | .discard => 0

end Kind

structure Behaviour where
  delay : Option Span
  host : Option HostName
  on : Option (List Nat)
  hangs : Bool
  error : Option HostError
  values : List UInt64
  size : UInt64
  inPlace : Bool
  path : Option String
  actual : Option UInt64
  deriving DecidableEq, Repr

def Behaviour.default : Behaviour where
  delay := none
  host := none
  on := none
  hangs := false
  error := none
  values := []
  size := 1048576
  inPlace := false
  path := none
  actual := none

structure Script where
  general : List (Kind × Behaviour)
  particular : List (Addr × Kind × Behaviour)
  deriving DecidableEq, Repr

end LiveMigration.Rehearsal

namespace LiveMigration.Call

open Rehearsal

def kind : Call → Kind
  | .quiesce _ => .quiesce
  | .resume _ => .resume
  | .probe _ => .probe
  | .capture .. => .capture
  | .prepare .. => .prepare
  | .transfer .. => .transfer
  | .measure _ => .measure
  | .restore .. => .restore
  | .teardown _ => .teardown
  | .reattach .. => .reattach
  | .announce _ => .announce
  | .detach _ => .detach
  | .discard _ => .discard

def addr? : Call → Option Addr
  | .prepare .. => none
  | .transfer s _ | .measure s | .discard s => some s.endpoint
  | .restore _ target _ => some target.addr
  | .quiesce e | .resume e | .probe e | .capture e _ | .teardown e | .reattach e _ | .announce e
  | .detach e => some e.addr

def host : Call → HostName
  | .prepare host _ => host
  | .transfer _ target => target
  | .measure s | .discard s => s.host
  | .restore _ target _ => target.host
  | .quiesce e | .resume e | .probe e | .capture e _ | .teardown e | .reattach e _ | .announce e
  | .detach e => e.host

def placeText (e : Endpoint) : String := s!"{e.addr.text}@{e.host}"

def archiveText (s : Snapshot) : String := s!"{s.id} {s.host}:{s.path}"

def boolText (b : Bool) : String := if b then "true" else "false"

def neighborText (n : Neighbor) : String := s!"{n.addr.text}/{n.mac.text}"

def changeText : Option IdentityChange → String
  | none => "-"
  | some r => s!"{r.old.text}->{r.new.text}"

def text (c : Call) : String :=
  c.kind.name ++ " " ++
    match c with
    | .quiesce e | .resume e | .probe e | .teardown e | .announce e | .detach e => placeText e
    | .capture e id => s!"{placeText e} {id}"
    | .prepare host image =>
      let image := image.getD "-"
      s!"{host} image={image}"
    | .transfer s target => s!"{archiveText s} -> {target}"
    | .measure s | .discard s => archiveText s
    | .restore s target options =>
      s!"{archiveText s} {placeText target} egress={target.egress.toNat} " ++
        s!"container={target.container} resume={boolText options.resumeTransport} " ++
        s!"rewrite={changeText options.identityChange}"
    | .reattach e peers =>
      let peers := ",".intercalate (peers.map neighborText)
      s!"{placeText e} {e.mac.text} peers=[{peers}]"

end LiveMigration.Call

namespace LiveMigration.Rehearsal

structure Tally where
  made : List ((Kind × Option Addr) × Nat)
  deriving DecidableEq, Repr

namespace Tally

def empty : Tally := ⟨[]⟩

def countOf (k : Kind × Option Addr) : List ((Kind × Option Addr) × Nat) → Nat
  | [] => 0
  | (a, n) :: l => if a = k then n else countOf k l

def increment (k : Kind × Option Addr) :
    List ((Kind × Option Addr) × Nat) → List ((Kind × Option Addr) × Nat)
  | [] => [(k, 1)]
  | (a, n) :: l => if a = k then (a, n + 1) :: l else (a, n) :: increment k l

def count (t : Tally) (c : Call) : Nat := countOf (c.kind, c.addr?) t.made

def add (t : Tally) (c : Call) : Tally := ⟨increment (c.kind, c.addr?) t.made⟩

end Tally

namespace Behaviour

def strikes (b : Behaviour) (c : Call) (number : Nat) : Bool :=
  b.host.all (· = c.host) && b.on.all (·.contains number)

def duration (b : Behaviour) (c : Call) (number : Nat) : Span :=
  b.delay.getD c.kind.defaultDelay + if b.strikes c number && b.hangs then 3600000 else 0

def value (b : Behaviour) (number : Nat) : UInt64 := (b.values[number]? <|> b.values.getLast?).getD 0

def changes (b : Behaviour) : Nat := (b.on.getD []).foldl (fun m n => max m (n + 1)) b.values.length

def reply (b : Behaviour) (number : Nat) (now : Timestamp) : (c : Call) → c.Reply
  | .probe _ => b.value number
  | .capture e id => ⟨id, e.addr, e.host, "/ckpt/" ++ id ++ ".tar", b.size, now⟩
  | .transfer s target => if b.inPlace then s else s.deliveredTo target (b.path.getD s.path)
  | .measure s => b.actual.getD s.size
  | .quiesce _ | .resume _ | .prepare .. | .restore .. | .teardown _ | .reattach .. | .announce _
  | .detach _ | .discard _ => ()

def result (b : Behaviour) (c : Call) (number : Nat) (now : Timestamp) : Except HostError c.Reply :=
  match b.error with
  | some e => if b.strikes c number then .error e else .ok (b.reply number now c)
  | none => .ok (b.reply number now c)

end Behaviour

def Script.behaviour (s : Script) (c : Call) : Behaviour :=
  let own := s.particular.find? fun (a, k, _) => some a = c.addr? && k = c.kind
  let common := s.general.find? (·.1 = c.kind)
  (own.map (·.2.2) <|> common.map (·.2)).getD .default

end LiveMigration.Rehearsal
