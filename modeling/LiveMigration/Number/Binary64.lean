import LiveMigration.Text.Digits

/-!
# Binary64

Finite binary floating-point numbers of 64 bits, held exactly as a sign, a mantissa and an exponent of two.
Every operation is exact arithmetic followed by one rounding to nearest, ties to even.
-/

namespace LiveMigration

/-- The number `mantissa * 2 ^ exponent`, negated if `negative`. -/
structure Binary64 where
  negative : Bool
  mantissa : Nat
  exponent : Int
  deriving DecidableEq, Repr

namespace Binary64

/-- The quotient rounded to nearest, ties to even. -/
def roundDiv (num den : Nat) : Nat :=
  let q := num / den
  let r := num % den
  if 2 * r < den then q
  else if den < 2 * r then q + 1
  else if q % 2 = 0 then q else q + 1

theorem roundDiv_mul_self {n den : Nat} (h : 0 < den) : roundDiv (n * den) den = n := by
  simp [roundDiv, Nat.mul_div_cancel _ h, h]

def log2Ratio (num den : Nat) : Int :=
  let k : Int := (num.log2 : Int) - den.log2
  let atLeast : Bool := if 0 ≤ k then den <<< k.toNat ≤ num else den ≤ num <<< (-k).toNat
  if atLeast then k else k - 1

def ofRatio (negative : Bool) (num den : Nat) : Option Binary64 :=
  if num = 0 then some ⟨negative, 0, 0⟩
  else
    let e := max (-1074) (log2Ratio num den - 52)
    let m := if 0 ≤ e then roundDiv num (den <<< e.toNat) else roundDiv (num <<< (-e).toNat) den
    if 971 < e ∨ (e = 971 ∧ 1 <<< 53 ≤ m) then none else some ⟨negative, m, e⟩

def ofNat (n : Nat) : Option Binary64 := ofRatio false n 1

def ratio (x : Binary64) : Nat × Nat :=
  if 0 ≤ x.exponent then (x.mantissa <<< x.exponent.toNat, 1)
  else (x.mantissa, 1 <<< (-x.exponent).toNat)

def mul (x y : Binary64) : Option Binary64 :=
  ofRatio (x.negative != y.negative) (x.ratio.1 * y.ratio.1) (x.ratio.2 * y.ratio.2)

def div (x y : Binary64) : Option Binary64 :=
  ofRatio (x.negative != y.negative) (x.ratio.1 * y.ratio.2) (x.ratio.2 * y.ratio.1)

def neg (x : Binary64) : Binary64 := { x with negative := !x.negative }

def fixed (places : Nat) (x : Binary64) : List Char :=
  let n := roundDiv (x.ratio.1 * Nat.pow 10 places) x.ratio.2
  let digits := Text.padZeros (places + 1) (Text.decimal n)
  let split := digits.length - places
  (if x.negative then ['-'] else []) ++ digits.take split ++
    if places = 0 then [] else '.' :: digits.drop split

end Binary64

def Binary64.ofMicros (us : Nat) : Binary64 :=
  let thousand : Binary64 := ⟨false, 1000, 0⟩
  (((ofNat us).bind fun x => x.div thousand).getD ⟨false, 0, 0⟩)

def milliseconds (us : UInt64) : Binary64 := .ofMicros us.toNat

end LiveMigration
