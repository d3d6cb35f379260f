import LiveMigration.Table
import LiveMigration.Text.Digits

namespace LiveMigration

structure JobId where
  bits : BitVec 128
  deriving DecidableEq, Inhabited, Repr

namespace JobId

instance : Ranked JobId where
  rank i := i.bits.toNat
  rank_inj {a b} h := by cases a; cases b; simp_all [BitVec.toNat_inj]

def ofNat (n : Nat) : JobId := ⟨BitVec.ofNat 128 n⟩

def chars (i : JobId) : List Char :=
  let s := Text.hex 32 i.bits.toNat
  s.take 8 ++ '-' :: (s.drop 8).take 4 ++ '-' :: (s.drop 12).take 4 ++ '-' :: (s.drop 16).take 4 ++
    '-' :: s.drop 20

def text (i : JobId) : String := String.ofList i.chars

def readPlain? (s : List Char) : Option JobId :=
  if s.length = 32 then (Text.digits? 16 s).map ofNat else none

def readHyphenated? (s : List Char) : Option JobId :=
  if s.length = 36 ∧ ∀ i ∈ [8, 13, 18, 23], s[i]? = some '-' then
    readPlain? (s.take 8 ++ (s.drop 9).take 4 ++ (s.drop 14).take 4 ++ (s.drop 19).take 4 ++ s.drop 24)
  else none

def urnPrefix : List Char := "urn:uuid:".toList

/-- An identifier with hyphens, which may stand in braces or after `urn:uuid:`, or without them. -/
def ofChars? (s : List Char) : Option JobId :=
  match s with
  | '\x7b' :: r => if r.getLast? = some '\x7d' then readHyphenated? r.dropLast else none
  | s =>
    if urnPrefix.isPrefixOf (s.map Char.toLower) then readHyphenated? (s.drop urnPrefix.length)
    else readPlain? s <|> readHyphenated? s

def ofText? (s : String) : Option JobId := ofChars? s.toList

end JobId

end LiveMigration
