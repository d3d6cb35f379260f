import LiveMigration.Path

/-!
# Disks

The files and directories below a working directory, and the steps that write to them. Paths are followed
piece by piece, so what leads along a path has to be there even if the path turns back. A step that cannot be
done changes nothing.
-/

namespace LiveMigration

inductive Entry
  | directory
  | file (text : String)
  deriving DecidableEq, Repr

/-- A place on a disk: the names that lead to it from the working directory, from a directory so many `..`
above that, or from the root. -/
abbrev Place := List String

namespace Place

def root : Place := ["/"]

def isGiven (p : Place) : Bool := p = root || p.all (· = "..")

def up (p : Place) : Place :=
  if p = root then root else if p.isGiven then p ++ [".."] else p.dropLast

def start (path : String) : Place := if Path.isAbsolute path then root else []

def isBelow (p : Place) : Bool := p.head?.any fun s => s ≠ ".." && s ≠ "/"

end Place

structure Disk where
  entries : List (Place × Entry)
  deriving DecidableEq, Repr

namespace Disk

def empty : Disk := ⟨[]⟩

def get? (d : Disk) (p : Place) : Option Entry :=
  if p.isGiven then some .directory else (d.entries.find? (·.1 = p)).map (·.2)

def isDirectory (d : Disk) (p : Place) : Bool := d.get? p = some .directory

def erase (d : Disk) (p : Place) : Disk := ⟨d.entries.filter (·.1 ≠ p)⟩

def set (d : Disk) (p : Place) (e : Entry) : Disk := ⟨(d.erase p).entries ++ [(p, e)]⟩

def inside (d : Disk) : List (Place × Entry) := d.entries.filter (·.1.isBelow)

inductive Fault
  | missing
  | present
  | notDirectory
  | isDirectory
  | nameTooLong
  | nulByte
  deriving DecidableEq, Repr

def Fault.message : Fault → String
  | .missing => "No such file or directory (os error 2)"
  | .present => "File exists (os error 17)"
  | .notDirectory => "Not a directory (os error 20)"
  | .isDirectory => "Is a directory (os error 21)"
  | .nameTooLong => "File name too long (os error 36)"
  | .nulByte => "file name contained an unexpected NUL byte"

def maxName : Nat := 255

def maxPath : Nat := 4095

def flaw? (p : String) : Option Fault :=
  if p.toList.contains '\x00' then some .nulByte
  else if maxPath < p.utf8ByteSize then some .nameTooLong
  else none

def enter (d : Disk) (dir : Place) (piece : String) : Except Fault Place :=
  if !d.isDirectory dir then .error .notDirectory
  else if !Path.isPart piece then .ok dir
  else if piece = ".." then .ok dir.up
  else if maxName < piece.utf8ByteSize then .error .nameTooLong
  else if (d.get? (dir ++ [piece])).isNone then .error .missing
  else .ok (dir ++ [piece])

def follow (d : Disk) (p : String) : Except Fault Place :=
  match flaw? p with
  | some e => .error e
  | none => (Path.pieces p).foldlM d.enter (Place.start p)

def site (d : Disk) (p : String) : Except Fault Place := do
  if let some e := flaw? p then throw e
  let dir ← (Path.pieces p).dropLast.foldlM d.enter (Place.start p)
  let name := (Path.pieces p).getLast?.getD ""
  if !d.isDirectory dir then throw .notDirectory
  if !Path.isPart name || name = ".." then throw .isDirectory
  if maxName < name.utf8ByteSize then throw .nameTooLong
  return dir ++ [name]

def read (d : Disk) (p : String) : Except Fault String := do
  match d.get? (← d.follow p) with
  | some (.file text) => return text
  | some .directory => throw .isDirectory
  | none => throw .missing

def leadsToDirectory (d : Disk) (p : String) : Bool :=
  match d.follow p with
  | .ok place => d.isDirectory place
  | .error _ => false

def makeDir (d : Disk) (p : String) : Except Fault Disk := do
  let place ← d.site (Path.ofPieces (Path.dropLastWhile (· = "") (Path.pieces p)))
  if (d.get? place).isSome then throw .present
  return d.set place .directory

def ensureDir (d : Disk) (p : String) : Except Fault Disk :=
  if d.leadsToDirectory p then .ok d else d.makeDir p

def create (d : Disk) (p : String) : Except Fault Disk := do
  let place ← d.site p
  if d.isDirectory place then throw .isDirectory
  return d.set place (.file "")

def fill (d : Disk) (p text : String) : Except Fault Disk := do
  let place ← d.site p
  let _ ← d.read p
  return d.set place (.file text)

def rename (d : Disk) (p target : String) : Except Fault Disk := do
  let place ← d.site p
  let text ← d.read p
  let goal ← d.site target
  if d.isDirectory goal then throw .isDirectory
  return (d.erase place).set goal (.file text)

inductive Action
  | ensureDir (p : String)
  | create (p : String)
  | fill (p text : String)
  | rename (p target : String)
  deriving DecidableEq, Repr

def act (d : Disk) : Action → Except Fault Disk
  | .ensureDir p => d.ensureDir p
  | .create p => d.create p
  | .fill p text => d.fill p text
  | .rename p target => d.rename p target

def actAll (d : Disk) : List Action → Disk
  | [] => d
  | a :: rest =>
    match d.act a with
    | .ok d => d.actAll rest
    | .error _ => d

def dirActions (p : String) : List Action :=
  (if (flaw? p).isSome then [p] else Path.steps p).map .ensureDir

def writeActions (p text : String) : List Action := [.create p, .fill p text]

end Disk

end LiveMigration
