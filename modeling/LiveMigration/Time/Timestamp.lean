import LiveMigration.Text.Scan

namespace LiveMigration

/-- An instant: whole seconds since 1970-01-01 and nanoseconds; during a leap second the nanoseconds
count on past a thousand million. -/
structure Timestamp where
  seconds : Int
  nanos : Nat
  deriving DecidableEq, Inhabited, Repr

namespace Timestamp

def ofMillis (ms : Int) : Timestamp := ⟨ms / 1000, (ms % 1000).toNat * 1000000⟩

def before (s t : Timestamp) : Bool :=
  s.seconds < t.seconds || (s.seconds = t.seconds && s.nanos < t.nanos)

def minYear : Int := -262143

def maxYear : Int := 262142

def isLeapYear (y : Int) : Bool := y % 4 = 0 && (y % 100 ≠ 0 || y % 400 = 0)

def monthLength (y : Int) : Nat → Nat
  | 2 => if isLeapYear y then 29 else 28
  | 4 | 6 | 9 | 11 => 30
  | _ => 31

def daysOfDate (y : Int) (m d : Nat) : Int :=
  let y := if m ≤ 2 then y - 1 else y
  let era := y / 400
  let yearOfEra := y % 400
  let dayOfYear : Int := (153 * ((m + 9) % 12) + 2) / 5 + d - 1
  era * 146097 + (yearOfEra * 365 + yearOfEra / 4 - yearOfEra / 100 + dayOfYear) - 719468

def dateOfDays (n : Int) : Int × Nat × Nat :=
  let z := n + 719468
  let era := z / 146097
  let doe := z % 146097
  let yoe := (doe - doe / 1460 + doe / 36524 - doe / 146096) / 365
  let doy := doe - (365 * yoe + yoe / 4 - yoe / 100)
  let mp := (5 * doy + 2) / 153
  let d := doy - (153 * mp + 2) / 5 + 1
  let m := if mp < 10 then mp + 3 else mp - 9
  (yoe + era * 400 + (if m ≤ 2 then 1 else 0), m.toNat, d.toNat)

def yearText (y : Int) : List Char :=
  if 0 ≤ y ∧ y ≤ 9999 then Text.padZeros 4 (Text.decimal y.toNat)
  else (if y < 0 then '-' else '+') :: Text.padZeros 4 (Text.decimal y.natAbs)

def fractionText (n : Nat) : List Char :=
  if n = 0 then []
  else if n % 1000000 = 0 then '.' :: Text.padZeros 3 (Text.decimal (n / 1000000))
  else if n % 1000 = 0 then '.' :: Text.padZeros 6 (Text.decimal (n / 1000))
  else '.' :: Text.padZeros 9 (Text.decimal n)

def two (n : Nat) : List Char := Text.padZeros 2 (Text.decimal n)

def text (t : Timestamp) : String :=
  let (y, m, d) := dateOfDays (t.seconds / 86400)
  let s := (t.seconds % 86400).toNat
  let leap := t.nanos / 1000000000
  String.ofList <| yearText y ++ '-' :: two m ++ '-' :: two d ++ 'T' :: two (s / 3600) ++
    ':' :: two (s / 60 % 60) ++ ':' :: two (s % 60 + leap) ++
    fractionText (t.nanos % 1000000000) ++ ['Z']

open Text.Scan

def scanYear : Text.Scan Int := do
  match ← peek with
  | some '-' => char '-'; return -(← longNumber)
  | some '+' => char '+'; return ← longNumber
  | _ => return ← number 4

def scanPart (lo hi : Nat) : Text.Scan Nat := do
  skipBlanks
  let n ← number 2
  if lo ≤ n ∧ n ≤ hi then return n else refuse

def scanFraction : Text.Scan Nat := do
  if (← peek) = some '.' then
    char '.'
    let row ← digitRow 9
    skipWhile Char.isDigit
    return Nat.ofDigitChars 10 row 0 * Nat.pow 10 (9 - row.length)
  else return 0

def scanTwoDigits : Text.Scan Nat := do
  let a ← oneOf Char.isDigit
  let b ← oneOf Char.isDigit
  return Nat.ofDigitChars 10 [a, b] 0

def scanOffset : Text.Scan Int := fun s =>
  if (s.take 3).map Char.toUpper = ['U', 'T', 'C'] then some (0, s.drop 3)
  else StateT.run (s := s) do
    match ← peek with
    | some 'Z' | some 'z' => let _ ← oneOf fun _ => true; return 0
    | _ =>
      let sign ← oneOf fun c => c = '+' || c = '-' || c = '\u2212'
      let h ← scanTwoDigits
      skipWhile fun c => c = ':' || Text.isBlank c
      let m ← scanTwoDigits
      if 60 ≤ m then refuse
      let n : Int := h * 3600 + m * 60
      if 86400 ≤ n then refuse
      return if sign = '+' then n else -n

def inCalendar (t : Timestamp) : Bool :=
  let year := (dateOfDays (t.seconds / 86400)).1
  minYear ≤ year && year ≤ maxYear

/-- A date and a time of day there, and how far ahead of universal time that place is. Both the date and
that of the instant must lie in the calendar. -/
def scan : Text.Scan Timestamp := do
  skipBlanks
  let y ← scanYear
  skipBlanks
  char '-'
  let m ← scanPart 1 12
  skipBlanks
  char '-'
  let d ← scanPart 1 31
  let _ ← oneOf fun c => c = 'T' || c = 't' || c = ' '
  let h ← scanPart 0 23
  skipBlanks
  char ':'
  let min ← scanPart 0 59
  skipBlanks
  char ':'
  let s ← scanPart 0 60
  let nanos ← scanFraction
  skipBlanks
  let offset ← scanOffset
  skipBlanks
  if y < minYear ∨ maxYear < y ∨ monthLength y m < d then refuse
  let leap := if s = 60 then 1 else 0
  let t : Timestamp := ⟨daysOfDate y m d * 86400 + h * 3600 + min * 60 + (s - leap : Nat) - offset,
    nanos + leap * 1000000000⟩
  if t.inCalendar then return t else refuse

def ofText? (s : String) : Option Timestamp := scan.all? s.toList

end Timestamp

end LiveMigration
