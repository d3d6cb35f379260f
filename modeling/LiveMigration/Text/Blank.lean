namespace LiveMigration.Text

def isBlank (c : Char) : Bool :=
  let n := c.toNat
  (9 ≤ n ∧ n ≤ 13) ∨ n = 0x20 ∨ n = 0x85 ∨ n = 0xA0 ∨ n = 0x1680 ∨ (0x2000 ≤ n ∧ n ≤ 0x200A) ∨
    n = 0x2028 ∨ n = 0x2029 ∨ n = 0x202F ∨ n = 0x205F ∨ n = 0x3000

def trimStart (s : List Char) : List Char := s.dropWhile isBlank

def trim (s : List Char) : List Char := (trimStart (trimStart s).reverse).reverse

def joinFirst (c : Char) : List (List Char) → List (List Char)
  | [] => [[c]]
  | w :: ws => (c :: w) :: ws

def splitAt (p : Char → Bool) : List Char → List (List Char)
  | [] => [[]]
  | c :: s => if p c then [] :: splitAt p s else joinFirst c (splitAt p s)

def words (s : List Char) : List (List Char) := (splitAt isBlank s).filter (· ≠ [])

def dropReturn (s : List Char) : List Char :=
  match s.reverse with
  | '\r' :: r => r.reverse
  | _ => s

/-- The lines of a text, each ended by a line feed or a carriage return and a line feed; what follows
the last line feed is a line if it is not empty. -/
def lines (s : List Char) : List (List Char) :=
  let pieces := splitAt (· = '\n') s
  pieces.dropLast.map dropReturn ++
    match pieces.getLast? with
    | none | some [] => []
    | some last => [last]

def trimString (s : String) : String := String.ofList (trim s.toList)

def contains (pattern : List Char) : List Char → Bool
  | [] => pattern.isEmpty
  | c :: s => pattern.isPrefixOf (c :: s) || contains pattern s

end LiveMigration.Text
