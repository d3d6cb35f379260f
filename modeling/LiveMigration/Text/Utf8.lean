namespace LiveMigration.Text.Utf8

structure Partial where
  bits : Nat
  left : Nat
  lo : Nat
  hi : Nat
  deriving DecidableEq, Repr

inductive Lead
  | whole (c : Char)
  | more (p : Partial)
  | bad
  deriving DecidableEq, Repr

def replacement : Char := '\ufffd'

/-- The bounds that keep out overlong forms, surrogates and what lies beyond the last code point. -/
def lead (b : Nat) : Lead :=
  if b < 0x80 then .whole (Char.ofNat b)
  else if b < 0xC2 then .bad
  else if b < 0xE0 then .more ⟨b % 32, 1, 0x80, 0xBF⟩
  else if b = 0xE0 then .more ⟨b % 16, 2, 0xA0, 0xBF⟩
  else if b = 0xED then .more ⟨b % 16, 2, 0x80, 0x9F⟩
  else if b < 0xF0 then .more ⟨b % 16, 2, 0x80, 0xBF⟩
  else if b = 0xF0 then .more ⟨b % 8, 3, 0x90, 0xBF⟩
  else if b < 0xF4 then .more ⟨b % 8, 3, 0x80, 0xBF⟩
  else if b = 0xF4 then .more ⟨b % 8, 3, 0x80, 0x8F⟩
  else .bad

def decodeAfter : Option Partial → List UInt8 → List Char
  | none, [] => []
  | some _, [] => [replacement]
  | none, b :: s =>
    match lead b.toNat with
    | .whole c => c :: decodeAfter none s
    | .more p => decodeAfter (some p) s
    | .bad => replacement :: decodeAfter none s
  | some p, b :: s =>
    if p.lo ≤ b.toNat ∧ b.toNat ≤ p.hi then
      let bits := p.bits * 64 + b.toNat % 64
      if p.left = 1 then Char.ofNat bits :: decodeAfter none s
      else decodeAfter (some ⟨bits, p.left - 1, 0x80, 0xBF⟩) s
    else
      replacement ::
        match lead b.toNat with
        | .whole c => c :: decodeAfter none s
        | .more p => decodeAfter (some p) s
        | .bad => replacement :: decodeAfter none s

def decode (s : List UInt8) : String := String.ofList (decodeAfter none s)

end LiveMigration.Text.Utf8
