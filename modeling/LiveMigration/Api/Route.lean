import LiveMigration.JobId
import LiveMigration.Text.Blank
import LiveMigration.Text.Utf8

namespace LiveMigration.Api

inductive Route
  | migrate
  | reattach
  | jobs
  | job (segment : List Char)
  | cancel (segment : List Char)
  | cleanup
  | health
  deriving DecidableEq, Repr

inductive Method
  | get
  | post
  deriving DecidableEq, Repr

namespace Route

def method : Route → Method
  | .jobs | .job _ | .health => .get
  | .migrate | .reattach | .cancel _ | .cleanup => .post

def isSchemeChar (c : Char) : Bool := c.isAlphanum || c = '+' || c = '-' || c = '.'

def endsAuthority (c : Char) : Bool := c = '/' || c = '?' || c = '#'

def relative (target : List Char) : List Char :=
  match target.dropWhile isSchemeChar with
  | ':' :: '/' :: '/' :: r => r.dropWhile fun c => !endsAuthority c
  | _ => target

def segments (target : String) : List (List Char) :=
  Text.splitAt (· = '/') ((relative target.toList).takeWhile fun c => c ≠ '?' && c ≠ '#')

def ofTarget? (target : String) : Option Route :=
  match segments target with
  | [[], a] =>
    match String.ofList a with
    | "migrate" => some .migrate
    | "reattach" => some .reattach
    | "jobs" => some .jobs
    | "cleanup" => some .cleanup
    | "health" => some .health
    | _ => none
  | [[], a, s] => if a = "jobs".toList ∧ s ≠ [] then some (.job s) else none
  | [[], a, s, b] =>
    if a = "jobs".toList ∧ b = "cancel".toList then some (.cancel s) else none
  | _ => none

def decodePercent : List Char → List UInt8
  | '%' :: a :: b :: s =>
    match Text.digits? 16 [a, b] with
    | some n => UInt8.ofNat n :: decodePercent s
    | none => utf8 '%' ++ decodePercent (a :: b :: s)
  | c :: s => utf8 c ++ decodePercent s
  | [] => []
where
  utf8 (c : Char) : List UInt8 := (String.singleton c).toUTF8.toList

def jobId? (segment : List Char) : Option JobId :=
  JobId.ofText? (Text.Utf8.decode (decodePercent segment))

end Route

end LiveMigration.Api
