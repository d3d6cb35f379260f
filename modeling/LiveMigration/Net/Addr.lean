import LiveMigration.Table
import LiveMigration.Text.Digits
import LiveMigration.Text.Blank

namespace LiveMigration

/-- An IPv4 address as its 32 bits, first octet highest. -/
structure Addr where
  word : UInt32
  deriving DecidableEq, Inhabited, Repr

namespace Addr

instance : Ranked Addr where
  rank a := a.word.toNat
  rank_inj {a b} h := by cases a; cases b; simp_all [UInt32.toNat_inj]

def octet (a : Addr) (weight : Nat) : Nat := a.word.toNat >>> (8 * weight) % 256

def octets (a : Addr) : List Nat := [a.octet 3, a.octet 2, a.octet 1, a.octet 0]

def ofOctets (a b c d : Nat) : Addr := ⟨UInt32.ofNat (((a * 256 + b) * 256 + c) * 256 + d)⟩

theorem octet_lt (a : Addr) (weight : Nat) : a.octet weight < 256 := Nat.mod_lt _ (by decide)

theorem ofOctets_octet (a : Addr) : ofOctets (a.octet 3) (a.octet 2) (a.octet 1) (a.octet 0) = a := by
  cases a with
  | mk w =>
    have h := w.toNat_lt
    simp only [ofOctets, octet]
    congr
    rw [← UInt32.toNat_inj, UInt32.toNat_ofNat']
    omega

def joined (separator : Char) (a : Addr) : List Char :=
  Text.decimal (a.octet 3) ++ separator :: Text.decimal (a.octet 2) ++
    separator :: Text.decimal (a.octet 1) ++ separator :: Text.decimal (a.octet 0)

def chars (a : Addr) : List Char := a.joined '.'

def text (a : Addr) : String := String.ofList a.chars

def readOctet? (s : List Char) : Option Nat :=
  if s.length ≤ 3 ∧ (s.head? = some '0' → s.length = 1) then
    (Text.digits? 10 s).filter (· < 256)
  else none

def ofChars? (s : List Char) : Option Addr :=
  match Text.splitAt (· = '.') s with
  | [a, b, c, d] => do
    return ofOctets (← readOctet? a) (← readOctet? b) (← readOctet? c) (← readOctet? d)
  | _ => none

def ofText? (s : String) : Option Addr := ofChars? s.toList

end Addr

end LiveMigration
