import LiveMigration.Net.Addr

namespace LiveMigration

abbrev Addr6 := Vector UInt16 8

inductive SocketAddr
  | v4 (addr : Addr) (port : UInt16)
  | v6 (addr : Addr6) (scope : UInt32) (port : UInt16)
  deriving DecidableEq, Repr

namespace Addr6

def readGroup? (s : List Char) : Option UInt16 :=
  if s.length ≤ 4 then (Text.digits? 16 s).map UInt16.ofNat else none

def groupsOfAddr (a : Addr) : List UInt16 :=
  [UInt16.ofNat (a.word.toNat / 65536), UInt16.ofNat (a.word.toNat % 65536)]

def readGroups? (dotted : Bool) : List (List Char) → Option (List UInt16)
  | [] => some []
  | [s] => ((readGroup? s).map fun g => [g]) <|>
      if dotted then (Addr.ofChars? s).map groupsOfAddr else none
  | s :: rest => do return (← readGroup? s) :: (← readGroups? dotted rest)

def cutAtPair : List Char → Option (List Char × List Char)
  | ':' :: ':' :: s => some ([], s)
  | c :: s => (cutAtPair s).map fun (a, b) => (c :: a, b)
  | [] => none

def readPart? (dotted : Bool) (s : List Char) : Option (List UInt16) :=
  if s = [] then some [] else readGroups? dotted (Text.splitAt (· = ':') s)

def ofGroups? (l : List UInt16) : Option Addr6 :=
  if h : l.length = 8 then some ⟨l.toArray, by simpa using h⟩ else none

def ofChars? (s : List Char) : Option Addr6 :=
  match cutAtPair s with
  | none => (readPart? true s).bind ofGroups?
  | some (a, b) => do
    let head ← readPart? false a
    let tail ← readPart? true b
    let filled := head.length + tail.length
    if filled < 8 then ofGroups? (head ++ List.replicate (8 - filled) 0 ++ tail) else none

def zeroRun (l : List UInt16) : Nat := (l.takeWhile (· = 0)).length

def longestZeros (i : Nat) : List UInt16 → Nat × Nat
  | [] => (i, 0)
  | g :: l =>
    let rest := longestZeros (i + 1) l
    let here := zeroRun (g :: l)
    if rest.2 ≤ here then (i, here) else rest

def joinGroups (l : List UInt16) : List Char :=
  [':'].intercalate (l.map fun g => Text.hexShort g.toNat)

def chars (a : Addr6) : List Char :=
  match a.toList with
  | [0, 0, 0, 0, 0, 0xffff, hi, lo] =>
    "::ffff:".toList ++ (Addr.mk (UInt32.ofNat (hi.toNat * 65536 + lo.toNat))).chars
  | l =>
    let (start, length) := longestZeros 0 l
    if 1 < length then joinGroups (l.take start) ++ "::".toList ++ joinGroups (l.drop (start + length))
    else joinGroups l

end Addr6

namespace SocketAddr

def text : SocketAddr → String
  | .v4 a port => String.ofList (a.chars ++ ':' :: Text.decimal port.toNat)
  | .v6 a scope port =>
    let zone := if scope = 0 then [] else '%' :: Text.decimal scope.toNat
    String.ofList ('[' :: a.chars ++ zone ++ "]:".toList ++ Text.decimal port.toNat)

def readPort? (s : List Char) : Option UInt16 :=
  ((Text.digits? 10 s).filter (· < UInt16.size)).map UInt16.ofNat

def readZoned? (s : List Char) : Option (Addr6 × UInt32) :=
  match Text.splitAt (· = '%') s with
  | [a] => (Addr6.ofChars? a).map (·, 0)
  | [a, scope] => do
    let n ← (Text.digits? 10 scope).filter (· < UInt32.size)
    return (← Addr6.ofChars? a, UInt32.ofNat n)
  | _ => none

def ofText? (s : String) : Option SocketAddr :=
  match s.toList with
  | '[' :: r =>
    match Text.splitAt (· = ']') r with
    | [inner, ':' :: port] => do
      let (a, scope) ← readZoned? inner
      return .v6 a scope (← readPort? port)
    | _ => none
  | r =>
    match Text.splitAt (· = ':') r with
    | [a, port] => do return .v4 (← Addr.ofChars? a) (← readPort? port)
    | _ => none

end SocketAddr

end LiveMigration
