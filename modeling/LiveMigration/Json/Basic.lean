import LiveMigration.Number.Binary64

/-!
# JSON values

Syntax trees of JSON text. Numbers keep how they were written, since a record tells whole numbers from
others, and the keys of objects whether they held escapes, since a number as a key holds none; a string that
holds an unpaired surrogate denotes no text and is kept as `none`.
-/

namespace LiveMigration

structure Numeral where
  negative : Bool
  whole : Nat
  fraction : List Nat
  exponent : Option Int
  deriving DecidableEq, Repr

structure Json.Key where
  text? : Option String
  isPlain : Bool
  deriving DecidableEq, Repr

inductive Json
  | null
  | bool (b : Bool)
  | number (n : Numeral)
  | string (s : Option String)
  | array (items : List Json)
  | object (members : List (Json.Key × Json))
  deriving Repr

namespace Numeral

def ofNat (n : Nat) : Numeral := ⟨false, n, [], none⟩

def toNat? (n : Numeral) : Option Nat :=
  if n.negative ∨ n.fraction ≠ [] ∨ n.exponent.isSome then none else some n.whole

@[simp] theorem toNat?_ofNat (n : Nat) : (ofNat n).toNat? = some n := rfl

def isWhole (n : Numeral) : Bool := n.fraction = [] && n.exponent.isNone

structure Leading where
  value : Nat
  taken : Nat
  dropped : Nat

def Leading.push (l : Leading) (d : Nat) : Leading :=
  if l.dropped = 0 ∧ l.value * 10 + d < UInt64.size then { l with value := l.value * 10 + d, taken := l.taken + 1 }
  else { l with dropped := l.dropped + 1 }

def wholeDigits (n : Nat) : List Nat := (Text.decimal n).map fun c => c.toNat - '0'.toNat

/-- The significand in 64 bits and the exponent of ten that goes with it. Digits that do not fit are left
out, those of the whole part still counting as places. -/
def significand (n : Numeral) : Nat × Int :=
  let whole := (wholeDigits n.whole).foldl Leading.push ⟨0, 0, 0⟩
  let all := n.fraction.foldl Leading.push ⟨whole.value, 0, 0⟩
  (all.value, (whole.dropped : Int) - all.taken)

/-- The number scaled by a power of ten: one rounding for the power, one for the product or quotient.
A negative power beyond 308 is divided out in steps. -/
def scale : (fuel : Nat) → Binary64 → Int → Option Binary64
  | 0, x, _ => some x
  | fuel + 1, x, e =>
    if e.natAbs ≤ 308 then do
      let p ← Binary64.ofNat (Nat.pow 10 e.natAbs)
      if 0 ≤ e then x.mul p else x.div p
    else if x.mantissa = 0 then some x
    else if 0 ≤ e then none
    else do scale fuel (← x.div (← Binary64.ofNat (Nat.pow 10 308))) (e + 308)

def toBinary64? (n : Numeral) : Option Binary64 := do
  let (value, places) := n.significand
  let e := n.exponent.getD 0
  let x ← Binary64.ofNat value
  let y ←
    if 2147483648 ≤ e.natAbs then
      if value ≠ 0 ∧ 0 ≤ e then none else some ⟨false, 0, 0⟩
    else scale 4 x (places + e)
  return if n.negative then y.neg else y

def ofBinary64 (x : Binary64) : Numeral :=
  let (num, den) := x.ratio
  let places := max 1 (den.log2)
  let unit := Nat.pow 10 places
  let n := num * unit / den
  let digits := wholeDigits (n % unit)
  ⟨x.negative, n / unit, List.replicate (places - digits.length) 0 ++ digits, none⟩

end Numeral

namespace Json

def str (s : String) : Json := .string (some s)

def nat (n : Nat) : Json := .number (.ofNat n)

def real (x : Binary64) : Json := .number (.ofBinary64 x)

def Key.ofString (s : String) : Key := ⟨some s, true⟩

def Key.is (k : Key) (s : String) : Bool := k.text? = some s

def record (members : List (String × Option Json)) : Json :=
  .object (members.filterMap fun (k, v) => v.map fun v => (.ofString k, v))

def ofOption (f : α → Json) : Option α → Json
  | none => .null
  | some a => f a

def list (f : α → Json) (l : List α) : Json := .array (l.map f)

mutual

def depth : Json → Nat
  | .array l => depthItems l + 1
  | .object l => depthMembers l + 1
  | _ => 0

def depthItems : List Json → Nat
  | [] => 0
  | j :: l => max j.depth (depthItems l)

def depthMembers : List (Key × Json) → Nat
  | [] => 0
  | (_, j) :: l => max j.depth (depthMembers l)

end

mutual

def denotes : Json → Bool
  | .number n => n.isWhole && n.whole < UInt64.size || n.toBinary64?.isSome
  | .string s => s.isSome
  | .array l => denoteItems l
  | .object l => denoteMembers l
  | _ => true

def denoteItems : List Json → Bool
  | [] => true
  | j :: l => j.denotes && denoteItems l

def denoteMembers : List (Key × Json) → Bool
  | [] => true
  | (k, j) :: l => k.text?.isSome && j.denotes && denoteMembers l

end

end Json

end LiveMigration
