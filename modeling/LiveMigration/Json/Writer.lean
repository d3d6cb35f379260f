import LiveMigration.Json.Reader

namespace LiveMigration.Json

def escapeLetter? : Char → Option Char
  | '"' => some '"'
  | '\\' => some '\\'
  | '\x08' => some 'b'
  | '\x0c' => some 'f'
  | '\n' => some 'n'
  | '\r' => some 'r'
  | '\t' => some 't'
  | _ => none

def escapeChar (c : Char) : List Char :=
  match escapeLetter? c with
  | some letter => ['\\', letter]
  | none => if c.toNat < 0x20 then '\\' :: 'u' :: Text.hex 4 c.toNat else [c]

def textChars (s : String) : List Char := '"' :: s.toList.flatMap escapeChar ++ ['"']

/-- A string; one that denotes no text has no other form than an unpaired surrogate. -/
def stringChars : Option String → List Char
  | some s => textChars s
  | none => "\"\\ud800\"".toList

end LiveMigration.Json

namespace LiveMigration.Numeral

def chars (n : Numeral) : List Char :=
  (if n.negative then ['-'] else []) ++ Text.decimal n.whole ++
    (if n.fraction = [] then [] else '.' :: n.fraction.flatMap Text.decimal) ++
    match n.exponent with
    | none => []
    | some e => 'e' :: (if e < 0 then ['-'] else []) ++ Text.decimal e.natAbs

end LiveMigration.Numeral

namespace LiveMigration.Json

mutual

def chars : Json → List Char
  | .null => "null".toList
  | .bool true => "true".toList
  | .bool false => "false".toList
  | .number n => n.chars
  | .string s => stringChars s
  | .array [] => ['[', ']']
  | .array (j :: l) => '[' :: j.chars ++ itemChars l
  | .object [] => ['\x7b', '\x7d']
  | .object ((k, j) :: l) => '\x7b' :: stringChars k.text? ++ ':' :: j.chars ++ memberChars l

def itemChars : List Json → List Char
  | [] => [']']
  | j :: l => ',' :: j.chars ++ itemChars l

def memberChars : List (Key × Json) → List Char
  | [] => ['\x7d']
  | (k, j) :: l => ',' :: stringChars k.text? ++ ':' :: j.chars ++ memberChars l

end

def text (j : Json) : String := String.ofList j.chars

end LiveMigration.Json
