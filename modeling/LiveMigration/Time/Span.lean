import LiveMigration.Text.Digits

namespace LiveMigration

abbrev Span := Nat

namespace Span

def fraction (ms : Nat) : List Char :=
  ((Text.padZeros 3 (Text.decimal ms)).reverse.dropWhile (· = '0')).reverse

def text (s : Span) : String :=
  String.ofList <|
    if s = 0 then "0ns".toList
    else if s < 1000 then Text.decimal s ++ "ms".toList
    else if s % 1000 = 0 then Text.decimal (s / 1000) ++ ['s']
    else Text.decimal (s / 1000) ++ '.' :: fraction (s % 1000) ++ ['s']

end Span

end LiveMigration
