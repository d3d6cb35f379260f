import LiveMigration.Text.Digits
import LiveMigration.Text.Unprintable

namespace LiveMigration.Text

def escapedChar (c : Char) : List Char :=
  if c = '"' then ['\\', '"']
  else if c = '\\' then ['\\', '\\']
  else if c = '\n' then ['\\', 'n']
  else if c = '\r' then ['\\', 'r']
  else if c = '\t' then ['\\', 't']
  else if c = '\x00' then ['\\', '0']
  else if isUnprintable c then ['\\', 'u', '{'] ++ hexShort c.toNat ++ ['}']
  else [c]

def escaped (s : List Char) : List Char := '"' :: s.flatMap escapedChar ++ ['"']

end LiveMigration.Text
