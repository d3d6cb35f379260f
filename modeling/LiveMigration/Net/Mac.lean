import LiveMigration.Text.Digits
import LiveMigration.Text.Blank

namespace LiveMigration

structure Mac where
  octets : Vector UInt8 6
  deriving DecidableEq, Repr

namespace Mac

inductive Fault
  | tooShort (text : String)
  | octet (part text : String)
  | tooLong (text : String)
  deriving DecidableEq, Repr

def Fault.message : Fault → String
  | .tooShort text => s!"MAC address too short: {text}"
  | .octet part text => s!"invalid MAC octet '{part}' in {text}"
  | .tooLong text => s!"MAC address too long: {text}"

def chars (m : Mac) : List Char :=
  [':'].intercalate (m.octets.toList.map fun b => Text.hex 2 b.toNat)

def text (m : Mac) : String := String.ofList m.chars

/-- A number below 256 in hexadecimal; zeros and one plus sign may stand in front. -/
def readOctet? (s : List Char) : Option UInt8 := (Text.unsigned? 16 256 s).map UInt8.ofNat

def readOctets (text : String) : (n : Nat) → List (List Char) →
    Except Fault (Vector UInt8 n × List (List Char))
  | 0, parts => .ok (#v[], parts)
  | n + 1, parts => do
    let (octets, rest) ← readOctets text n parts
    match rest with
    | [] => .error (.tooShort text)
    | part :: rest =>
      match readOctet? part with
      | none => .error (.octet (String.ofList part) text)
      | some b => .ok (octets.push b, rest)

def parse (text : String) : Except Fault Mac := do
  let (octets, rest) ← readOctets text 6 (Text.splitAt (fun c => c = ':' || c = '-') text.toList)
  if rest = [] then .ok ⟨octets⟩ else .error (.tooLong text)

def ofText? (s : String) : Option Mac := (parse s).toOption

end Mac

end LiveMigration
