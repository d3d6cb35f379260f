import LiveMigration.Text.Blank

namespace LiveMigration.Api.MediaType

def isToken (c : Char) : Bool := c.isAlphanum || "!#$%&'*+-.^_`|~".toList.contains c

def isPrintable (c : Char) : Bool := 0x20 ≤ c.toNat && c.toNat < 0x7F

inductive Place
  | start
  | name
  | valueStart
  | value
  | quoteStart
  | quote
  | quoteEnd
  deriving DecidableEq, Repr

def Place.next? (p : Place) (c : Char) : Option Place :=
  match p with
  | .start => if c = ' ' then some .start else if isToken c then some .name else none
  | .name => if c = '=' then some .valueStart else if isToken c then some .name else none
  | .valueStart => if c = '"' then some .quoteStart else if isToken c then some .value else none
  | .value => if c = ';' then some .start else if isToken c then some .value else none
  | .quoteStart => if isPrintable c then some .quote else none
  | .quote => if c = '"' then some .quoteEnd else if isPrintable c then some .quote else none
  | .quoteEnd => if c = ';' then some .start else if c = ' ' then some .quoteEnd else none

def Place.mayEnd : Place → Bool
  | .start | .valueStart | .value | .quoteEnd => true
  | .name | .quoteStart | .quote => false

def areParameters (s : List Char) : Bool := ((s.foldlM Place.next? .start).map Place.mayEnd).getD false

def cutSuffix (s : List Char) : List Char × Option (List Char) :=
  let back := s.reverse.takeWhile (· ≠ '+')
  let front := s.take (s.length - back.length - 1)
  if back.length = s.length ∨ front = [] then (s, none) else (front, some back.reverse)

def isJsonType (essence : List Char) : Bool :=
  match Text.splitAt (· = '/') (essence.map Char.toLower) with
  | [type, subtype] =>
    let (base, suffix) := cutSuffix subtype
    type = "application".toList && subtype.all isToken &&
      (base = "json".toList || suffix = some "json".toList)
  | _ => false

def isJson (s : String) : Bool :=
  let essence := s.toList.takeWhile (· ≠ ';')
  isJsonType essence && areParameters (s.toList.drop (essence.length + 1))

end LiveMigration.Api.MediaType
