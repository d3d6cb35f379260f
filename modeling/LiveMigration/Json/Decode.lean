import LiveMigration.Json.Basic
import LiveMigration.Net.Endpoint
import LiveMigration.Net.SocketAddr
import LiveMigration.Time.Timestamp
import LiveMigration.JobId

/-!
# Records in JSON

How values of the domain are read from JSON values. A record is an object whose known members occur once
each, others being ignored, or an array of its fields in order.
-/

namespace LiveMigration

class Jsonable (α : Type) where
  ofJson? : Json → Option α
  toJson : α → Json

export Jsonable (ofJson? toJson)

namespace Json

structure Fields where
  positional : Bool
  found : List (String × Json)

def known? (names : List String) : List (Key × Json) → Option (List (String × Json))
  | [] => some []
  | (k, j) :: l => do
    let k ← k.text?
    let rest ← known? names l
    if names.contains k then
      if rest.any (·.1 = k) then none else return (k, j) :: rest
    else return rest

def fields? (names : List String) : Json → Option Fields
  | .object l => (known? names l).map fun found => ⟨false, found⟩
  | .array l => if l.length ≤ names.length then some ⟨true, names.zip l⟩ else none
  | _ => none

namespace Fields

def get? (f : Fields) (name : String) : Option Json := (f.found.find? (·.1 = name)).map (·.2)

def required [Jsonable α] (f : Fields) (name : String) : Option α := (f.get? name).bind ofJson?

def defaulted [Jsonable α] (f : Fields) (name : String) (d : α) : Option α :=
  match f.get? name with
  | none => some d
  | some j => ofJson? j

/-- A value or null; a member may be left out, an array element may not. -/
def optional [Jsonable α] (f : Fields) (name : String) : Option (Option α) :=
  match f.get? name with
  | none => if f.positional then none else some none
  | some .null => some none
  | some j => (ofJson? j).map some

end Fields

def word? : Json → Option String
  | .string s => s
  | .object [(k, .null)] => k.text?
  | _ => none

end Json

instance : Jsonable Bool where
  ofJson?
    | .bool b => some b
    | _ => none
  toJson := .bool

def natBelow? (bound : Nat) : Json → Option Nat
  | .number n => n.toNat?.filter (· < bound)
  | _ => none

instance : Jsonable UInt8 where
  ofJson? j := (natBelow? UInt8.size j).map UInt8.ofNat
  toJson n := .nat n.toNat

instance : Jsonable UInt16 where
  ofJson? j := (natBelow? UInt16.size j).map UInt16.ofNat
  toJson n := .nat n.toNat

instance : Jsonable UInt32 where
  ofJson? j := (natBelow? UInt32.size j).map UInt32.ofNat
  toJson n := .nat n.toNat

instance : Jsonable UInt64 where
  ofJson? j := (natBelow? UInt64.size j).map UInt64.ofNat
  toJson n := .nat n.toNat

instance : Jsonable Binary64 where
  ofJson?
    | .number n => n.toBinary64?
    | _ => none
  toJson := .real

instance : Jsonable String where
  ofJson?
    | .string s => s
    | _ => none
  toJson := .str

instance [Jsonable α] : Jsonable (Option α) where
  ofJson?
    | .null => some none
    | j => (ofJson? j).map some
  toJson := .ofOption toJson

def readAll (f : Json → Option α) : List Json → Option (List α)
  | [] => some []
  | j :: l => do return (← f j) :: (← readAll f l)

instance [Jsonable α] : Jsonable (List α) where
  ofJson?
    | .array l => readAll ofJson? l
    | _ => none
  toJson := .list toJson

abbrev Jsonable.ofText (read : String → Option α) (write : α → String) : Jsonable α where
  ofJson?
    | .string (some s) => read s
    | _ => none
  toJson a := .str (write a)

abbrev Jsonable.ofWords (all : List α) (name : α → String) : Jsonable α where
  ofJson? j := j.word?.bind fun w => all.find? (name · = w)
  toJson a := .str (name a)

instance : Jsonable Addr := .ofText Addr.ofText? Addr.text
instance : Jsonable Mac := .ofText Mac.ofText? Mac.text
instance : Jsonable SocketAddr := .ofText SocketAddr.ofText? SocketAddr.text
instance : Jsonable JobId := .ofText JobId.ofText? JobId.text
instance : Jsonable Timestamp := .ofText Timestamp.ofText? Timestamp.text

class JsonKey (κ : Type) where
  ofKey? : Json.Key → Option κ
  text : κ → String

instance : JsonKey Addr where
  ofKey? k := k.text?.bind Addr.ofText?
  text := Addr.text

def portOfText? (s : String) : Option UInt16 :=
  let n := (Text.digits? 10 s.toList).filter fun n => n < UInt16.size ∧ Text.decimal n = s.toList
  n.map UInt16.ofNat

instance : JsonKey UInt16 where
  ofKey? k := if k.isPlain then k.text?.bind portOfText? else none
  text n := String.ofList (Text.decimal n.toNat)

def readEntries [JsonKey κ] [Jsonable ν] : List (Json.Key × Json) → Option (List (κ × ν))
  | [] => some []
  | (k, j) :: l => do return (← JsonKey.ofKey? k, ← ofJson? j) :: (← readEntries l)

instance {κ ν : Type} [Ranked κ] [JsonKey κ] [Jsonable ν] : Jsonable (Table κ ν) where
  ofJson?
    | .object l => (readEntries l).map Table.ofList
    | _ => none
  toJson t := .object (t.entries.map fun (k, x) => (.ofString (JsonKey.text k), toJson x))

instance : Jsonable Identity where
  ofJson? j := do
    let f ← j.fields? ["addr", "mac"]
    return { addr := ← f.required "addr", mac := ← f.required "mac" }
  toJson i := .record [("addr", toJson i.addr), ("mac", toJson i.mac)]

instance : Jsonable Neighbor where
  ofJson? j := do
    let f ← j.fields? ["addr", "mac"]
    return { addr := ← f.required "addr", mac := ← f.required "mac" }
  toJson n := .record [("addr", toJson n.addr), ("mac", toJson n.mac)]

instance : Jsonable Endpoint where
  ofJson? j := do
    let f ← j.fields? ["identity", "host", "egress", "container"]
    return {
      identity := ← f.required "identity", host := ← f.required "host"
      egress := ← f.required "egress", container := ← f.required "container" }
  toJson e := .record [("identity", toJson e.identity), ("host", toJson e.host),
    ("egress", toJson e.egress), ("container", toJson e.container)]

end LiveMigration
