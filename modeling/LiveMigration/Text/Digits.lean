namespace LiveMigration.Text

def digit? (c : Char) : Option Nat :=
  if '0' ≤ c ∧ c ≤ '9' then some (c.toNat - '0'.toNat)
  else if 'a' ≤ c ∧ c ≤ 'z' then some (c.toNat - 'a'.toNat + 10)
  else if 'A' ≤ c ∧ c ≤ 'Z' then some (c.toNat - 'A'.toNat + 10)
  else none

def digitBelow? (base : Nat) (c : Char) : Option Nat := (digit? c).filter (· < base)

def digitsFrom? (base : Nat) : Nat → List Char → Option Nat
  | sofar, [] => some sofar
  | sofar, c :: s => (digitBelow? base c).bind fun d => digitsFrom? base (base * sofar + d) s

def digits? (base : Nat) : List Char → Option Nat
  | [] => none
  | s => digitsFrom? base 0 s

/-- A number below `bound`, with any leading zeros and at most one plus sign. -/
def unsigned? (base bound : Nat) (s : List Char) : Option Nat :=
  (digits? base (match s with
    | '+' :: s => s
    | s => s)).filter (· < bound)

def decimal (n : Nat) : List Char := Nat.toDigits 10 n

def hex : (width : Nat) → Nat → List Char
  | 0, _ => []
  | width + 1, n => hex width (n / 16) ++ [Nat.digitChar (n % 16)]

def hexShort (n : Nat) : List Char := Nat.toDigits 16 n

@[simp] theorem length_hex (width n : Nat) : (hex width n).length = width := by
  induction width generalizing n with
  | zero => rfl
  | succ width ih => simp [hex, ih]

def padZeros (width : Nat) (s : List Char) : List Char :=
  List.replicate (width - s.length) '0' ++ s

end LiveMigration.Text
