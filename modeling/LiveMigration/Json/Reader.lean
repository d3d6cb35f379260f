import LiveMigration.Json.Basic

namespace LiveMigration.Json

def isSpace (c : Char) : Bool := c = ' ' || c = '\t' || c = '\n' || c = '\r'

def skip (s : List Char) : List Char := s.dropWhile isSpace

def shortEscape? : Char → Option Char
  | '"' => some '"'
  | '\\' => some '\\'
  | '/' => some '/'
  | 'b' => some '\x08'
  | 'f' => some '\x0c'
  | 'n' => some '\n'
  | 'r' => some '\r'
  | 't' => some '\t'
  | _ => none

def codePoints : List Char → Option (List Nat × List Char)
  | [] => none
  | '"' :: r => some ([], r)
  | '\\' :: 'u' :: a :: b :: c :: d :: r => do
    let n ← Text.digits? 16 [a, b, c, d]
    let (l, r) ← codePoints r
    return (n :: l, r)
  | '\\' :: c :: r => do
    let c ← shortEscape? c
    let (l, r) ← codePoints r
    return (c.toNat :: l, r)
  | c :: r =>
    if c.toNat < 0x20 then none
    else do
      let (l, r) ← codePoints r
      return (c.toNat :: l, r)

def joinPairs : List Nat → Option (List Char)
  | [] => some []
  | hi :: lo :: l =>
    if 0xD800 ≤ hi ∧ hi < 0xDC00 then
      if 0xDC00 ≤ lo ∧ lo < 0xE000 then
        (joinPairs l).map (Char.ofNat (0x10000 + (hi - 0xD800) * 0x400 + (lo - 0xDC00)) :: ·)
      else none
    else if 0xDC00 ≤ hi ∧ hi < 0xE000 then none
    else (joinPairs (lo :: l)).map (Char.ofNat hi :: ·)
  | [n] => if 0xD800 ≤ n ∧ n < 0xE000 then none else some [Char.ofNat n]

def readText (s : List Char) : Option (Option String × List Char) :=
  (codePoints s).map fun (l, r) => ((joinPairs l).map String.ofList, r)

def isPlain (s : List Char) : Bool := !(s.takeWhile (· ≠ '"')).contains '\\'

def readKey (s : List Char) : Option (Key × List Char) :=
  (readText s).map fun (t, r) => (⟨t, isPlain s⟩, r)

def digitRun (s : List Char) : Option (List Char × List Char) :=
  let row := s.takeWhile Char.isDigit
  if row = [] then none else some (row, s.dropWhile Char.isDigit)

def readWhole (s : List Char) : Option (Nat × List Char) := do
  let (row, r) ← digitRun s
  if row.head? = some '0' ∧ row ≠ ['0'] then none else return (Nat.ofDigitChars 10 row 0, r)

def readFraction : List Char → Option (List Nat × List Char)
  | '.' :: s => (digitRun s).map fun (row, r) => (row.map fun c => c.toNat - '0'.toNat, r)
  | s => some ([], s)

def readPower (sign : Int) (s : List Char) : Option (Option Int × List Char) :=
  (digitRun s).map fun (row, r) => (some (sign * Nat.ofDigitChars 10 row 0), r)

def readExponent : List Char → Option (Option Int × List Char)
  | c :: s =>
    if c = 'e' ∨ c = 'E' then
      match s with
      | '+' :: s => readPower 1 s
      | '-' :: s => readPower (-1) s
      | s => readPower 1 s
    else some (none, c :: s)
  | [] => some (none, [])

def readNumeral (s : List Char) : Option (Numeral × List Char) := do
  let (negative, s) := match s with
    | '-' :: r => (true, r)
    | r => (false, r)
  let (whole, s) ← readWhole s
  let (fraction, s) ← readFraction s
  let (exponent, s) ← readExponent s
  return (⟨negative, whole, fraction, exponent⟩, s)

mutual

def readValue : (fuel : Nat) → List Char → Option (Json × List Char)
  | 0, _ => none
  | fuel + 1, s =>
    match skip s with
    | 'n' :: 'u' :: 'l' :: 'l' :: r => some (.null, r)
    | 't' :: 'r' :: 'u' :: 'e' :: r => some (.bool true, r)
    | 'f' :: 'a' :: 'l' :: 's' :: 'e' :: r => some (.bool false, r)
    | '"' :: r => (readText r).map fun (t, r) => (.string t, r)
    | '[' :: r =>
      match skip r with
      | ']' :: r => some (.array [], r)
      | r => (readItems fuel r).map fun (l, r) => (.array l, r)
    | '\x7b' :: r =>
      match skip r with
      | '\x7d' :: r => some (.object [], r)
      | r => (readMembers fuel r).map fun (l, r) => (.object l, r)
    | r => (readNumeral r).map fun (n, r) => (.number n, r)

def readItems : (fuel : Nat) → List Char → Option (List Json × List Char)
  | 0, _ => none
  | fuel + 1, s => do
    let (j, r) ← readValue fuel s
    match skip r with
    | ',' :: r =>
      let (l, r) ← readItems fuel r
      return (j :: l, r)
    | ']' :: r => return ([j], r)
    | _ => none

def readMembers : (fuel : Nat) → List Char → Option (List (Key × Json) × List Char)
  | 0, _ => none
  | fuel + 1, s => do
    match skip s with
    | '"' :: r =>
      let (k, r) ← readKey r
      match skip r with
      | ':' :: r =>
        let (j, r) ← readValue fuel r
        match skip r with
        | ',' :: r =>
          let (l, r) ← readMembers fuel r
          return ((k, j) :: l, r)
        | '\x7d' :: r => return ([(k, j)], r)
        | _ => none
      | _ => none
    | _ => none

end

def ofFront? (s : List Char) : Option (Json × List Char) := readValue (2 * s.length + 2) s

def ofText? (s : String) : Option Json := do
  let (j, r) ← ofFront? s.toList
  if skip r = [] then return j else none

end LiveMigration.Json
