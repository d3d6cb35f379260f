import LiveMigration.Text.Blank
import LiveMigration.Text.Digits

namespace LiveMigration.Text

abbrev Scan := StateT (List Char) Option

namespace Scan

def refuse : Scan α := fun _ => none

def all? (p : Scan α) (s : List Char) : Option α :=
  match p s with
  | some (a, []) => some a
  | _ => none

def peek : Scan (Option Char) := fun s => some (s.head?, s)

def char (c : Char) : Scan Unit := fun s =>
  match s with
  | d :: r => if d = c then some ((), r) else none
  | [] => none

def oneOf (p : Char → Bool) : Scan Char := fun s =>
  match s with
  | d :: r => if p d then some (d, r) else none
  | [] => none

def skipWhile (p : Char → Bool) : Scan Unit := fun s => some ((), s.dropWhile p)

def skipBlanks : Scan Unit := skipWhile isBlank

def digitRow (most : Nat) : Scan (List Char) := fun s =>
  let row := (s.take most).takeWhile Char.isDigit
  if row = [] then none else some (row, s.drop row.length)

def number (most : Nat) : Scan Nat := do
  return Nat.ofDigitChars 10 (← digitRow most) 0

def longNumber : Scan Nat := fun s => number s.length s

end Scan

end LiveMigration.Text
