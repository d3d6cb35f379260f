import LiveMigration.Net.Endpoint
import LiveMigration.Shell.Quote

namespace LiveMigration.Shell

/-- A piece of a word: harmless text as it stands, or a value to be quoted. -/
inductive Piece
  | plain (s : String)
  | value (s : String)
  deriving DecidableEq, Repr

def Piece.text : Piece → String
  | .plain s => s
  | .value s => quoteString s

def Piece.meaning : Piece → String
  | .plain s => s
  | .value s => s

abbrev Word := List Piece

def Word.text (w : Word) : String := String.join (w.map Piece.text)

def Word.meaning (w : Word) : String := String.join (w.map Piece.meaning)

def plainWords (l : List String) : List Word := l.map fun s => [.plain s]

def valueWord (s : String) : Word := [.value s]

def lineText (l : List Word) : String := " ".intercalate (l.map Word.text)

def arguments (l : List Word) : List String := l.map Word.meaning

inductive Connector
  | andThen
  | orElse
  deriving DecidableEq, Repr

def Connector.text : Connector → String
  | .andThen => " && "
  | .orElse => " || "

structure Chain where
  first : String
  rest : List (Connector × String)
  deriving DecidableEq, Repr

def Chain.text (c : Chain) : String :=
  c.first ++ String.join (c.rest.map fun (k, command) => k.text ++ command)

def linkName (a : Addr) : String := String.ofList ('f' :: 'y' :: Text.hex 8 a.word.toNat)

inductive Command
  | signal (container name : String)
  | inspectRunning (container : String)
  | restoreInPlace (container : String)
  | sendQueue (container : String)
  | checkpoint (container archive : String)
  | restore (archive container : String) (resumeTransport : Bool) (identity : Option Identity)
  | removeContainer (container : String)
  | removeLeftover (container : String)
  | imageExists (image : String)
  | fileSize (path : String)
  | makeDir (path : String)
  | removeFile (path : String)
  | copy (source target : String)
  | secureCopy (source ssh target : String)
  | bindLink (identity : Identity) (uplink : String) (peers : List Neighbor)
  | announce (addr : Addr)
  | unbindLink (addr : Addr)
  | line (text : String)
  deriving DecidableEq, Repr

namespace Command

def bindChain (i : Identity) (uplink : String) (peers : List Neighbor) : Chain where
  first := s!"ip link del {linkName i.addr} 2>/dev/null"
  rest := (.orElse, "true") ::
    (.andThen, s!"ip link add link {quoteString uplink} name {linkName i.addr} " ++
      s!"address {i.mac.text} type macvlan mode bridge") ::
    (.andThen, s!"ip addr replace {i.addr.text}/32 dev {linkName i.addr}") ::
    (.andThen, s!"ip link set {linkName i.addr} up") ::
    (.andThen, "ip route flush cache") ::
    peers.map fun p => (.andThen,
      s!"ip neigh replace {p.addr.text} lladdr {p.mac.text} dev {linkName i.addr} nud permanent")

def unbindChain (a : Addr) : Chain where
  first := s!"ip link del {linkName a} 2>/dev/null"
  rest := [(.orElse, "true")]

def words? : Command → Option (List Word)
  | .signal container name =>
    some (plainWords ["podman", "kill", "--signal"] ++ [valueWord name, valueWord container])
  | .inspectRunning container =>
    some (plainWords ["podman", "container", "inspect", "-f"] ++
      [valueWord "\x7b\x7b.State.Running\x7d\x7d", valueWord container])
  | .restoreInPlace container =>
    some (plainWords ["podman", "container", "restore", "--tcp-established"] ++ [valueWord container])
  | .checkpoint container archive =>
    some (plainWords ["podman", "container", "checkpoint", "--tcp-established", "--keep", "--export"] ++
      [valueWord archive, valueWord container])
  | .restore archive container resumeTransport identity =>
    some (plainWords ["podman", "container", "restore", "--import"] ++ [valueWord archive] ++
      plainWords ["--name"] ++ [valueWord container] ++ plainWords ["--keep"] ++
      (if resumeTransport then plainWords ["--tcp-established"] else []) ++
      match identity with
      | none => []
      | some i => plainWords ["--ip", i.addr.text, "--mac-address", i.mac.text])
  | .removeContainer container =>
    some (plainWords ["podman", "rm", "-f"] ++ [valueWord container])
  | .removeLeftover container =>
    some (plainWords ["podman", "rm", "-f", "--ignore"] ++ [valueWord container])
  | .imageExists image => some (plainWords ["podman", "image", "exists"] ++ [valueWord image])
  | .fileSize path => some (plainWords ["stat", "-c", "%s"] ++ [valueWord path])
  | .makeDir path => some (plainWords ["mkdir", "-p"] ++ [valueWord path])
  | .removeFile path => some (plainWords ["rm", "-f"] ++ [valueWord path])
  | .copy source target => some (plainWords ["cp"] ++ [valueWord source, valueWord target])
  | .secureCopy source ssh target =>
    some (plainWords ["scp", "-q", "-o", "BatchMode=yes"] ++
      [valueWord source, [.value ssh, .plain ":", .value target]])
  | .announce addr =>
    some (plainWords ["arping", "-U", "-c", "1", "-I", linkName addr, addr.text])
  | .sendQueue _ | .bindLink .. | .unbindLink _ | .line _ => none

def text (c : Command) : String :=
  match c.words? with
  | some l => lineText l
  | none =>
    match c with
    | .sendQueue container =>
      "nsenter -t \"$(podman container inspect -f '\x7b\x7b.State.Pid\x7d\x7d' " ++
        quoteString container ++ ")\" -n ss -tnH state established"
    | .bindLink i uplink peers => (bindChain i uplink peers).text
    | .unbindLink a => (unbindChain a).text
    | .line text => text
    | _ => ""

end Command

end LiveMigration.Shell
