import LiveMigration.Error
import LiveMigration.Text.Escaped

namespace LiveMigration.Hosts

def readCount? (s : List Char) : Option UInt64 := (Text.unsigned? 10 UInt64.size s).map UInt64.ofNat

def readSize (stdout : String) : Except HostError UInt64 :=
  let s := Text.trim stdout.toList
  match readCount? s with
  | some n => .ok n
  | none => .error (.unreadable s!"unexpected stat output: {String.ofList (Text.escaped s)}")

def sendColumn? (line : List Char) : Option UInt64 :=
  let columns := match Text.words line with
    | [] => []
    | w :: ws => if (readCount? w).isSome then w :: ws else ws
  match columns with
  | _ :: send :: _ => readCount? send
  | _ => none

/-- The sum of the send columns of some lines, in 64 bits. -/
def addSendColumns (total : UInt64) : List (List Char) → Ending UInt64
  | [] => .ok total
  | line :: rest =>
    match sendColumn? line with
    | some n => if total.toNat + n.toNat < UInt64.size then addSendColumns (total + n) rest else .crashed
    | none => .error (.unreadable s!"unexpected ss line: {String.ofList (Text.escaped line)}")

def readSendQueue (stdout : String) : Ending UInt64 :=
  addSendColumns 0 ((Text.lines stdout.toList).filter fun line => Text.trim line ≠ [])

def replayPatterns : List String :=
  ["sk-tcp", "queue data", "tcp_repair", "Can't restore TCP", "restore_tcp_conn"]

def classify (log : String) : RestoreFailure :=
  if replayPatterns.any fun p => Text.contains p.toList log.toList then .replayRejected else .other

end LiveMigration.Hosts
