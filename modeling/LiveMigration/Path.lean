import LiveMigration.Text.Blank

namespace LiveMigration.Path

/-- Whether a path starts at the root, and its components; `.` counts only at the start of a relative
path. -/
structure Components where
  absolute : Bool
  parts : List String
  deriving DecidableEq, Repr

def pieces (p : String) : List String := (Text.splitAt (· = '/') p.toList).map String.ofList

def ofPieces (ps : List String) : String := "/".intercalate ps

def isAbsolute (p : String) : Bool := p.toList.head? = some '/'

def isPart (s : String) : Bool := s ≠ "" && s ≠ "."

def components (p : String) : Components :=
  let dot := !isAbsolute p && (pieces p).head? = some "."
  ⟨isAbsolute p, (if dot then ["."] else []) ++ (pieces p).filter isPart⟩

def same (p q : String) : Bool := components p = components q

def fileName? (p : String) : Option String :=
  (components p).parts.getLast?.filter fun s => s ≠ "." ∧ s ≠ ".."

def join (dir p : String) : String :=
  if isAbsolute p || dir = "" then p
  else if dir.toList.getLast? = some '/' then dir ++ p
  else dir ++ "/" ++ p

def dropLastWhile (f : String → Bool) (l : List String) : List String := (l.reverse.dropWhile f).reverse

def steps (p : String) : List String :=
  let fronts := (List.range (pieces p).length).map fun n => (pieces p).take (n + 1)
  let ends := fronts.filter fun front => front.getLast?.any isPart
  ends.dropLast.map ofPieces ++ [p]

def parent (p : String) : String := (steps p).dropLast.getLast?.getD ""

def cutName (name : String) : String × Option String :=
  let back := name.toList.reverse
  let rest := back.dropWhile (· ≠ '.')
  if rest.length ≤ 1 then (name, none)
  else (String.ofList rest.tail.reverse, some (String.ofList (back.takeWhile (· ≠ '.')).reverse))

def dropExtension (p : String) : String :=
  match (fileName? p).bind fun name => (cutName name).2 with
  | none => p
  | some extension => String.ofList (p.toList.take (p.length - extension.length))

def setExtension (p extension : String) : String :=
  match fileName? p with
  | none => p
  | some name =>
    ofPieces ((dropLastWhile (fun s => !isPart s) (pieces p)).dropLast ++
      [(cutName name).1 ++ "." ++ extension])

/-- A path with another extension. A name of two points and an extension, such as `..x`, is left with the
points alone, which name no file. -/
def withExtension (p extension : String) : String := setExtension (dropExtension p) extension

end LiveMigration.Path
