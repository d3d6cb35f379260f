import LiveMigration.Fleet.Codec
import LiveMigration.Forwarding.Codec
import LiveMigration.Forwarding.Provision
import LiveMigration.Json.Writer

namespace LiveMigration

def checkConfig (path : String) (content : Except String ByteArray) : String × UInt32 :=
  match Config.ofFile path content >>= Config.provision with
  | .ok s => ((toJson s.tables).text, 0)
  | .error e => (e.message, 1)

end LiveMigration

open LiveMigration in
def main (args : List String) : IO UInt32 := do
  match args with
  | ["check", path] =>
    let content ← try pure (.ok (← IO.FS.readBinFile path)) catch e => pure (.error (toString e))
    let (text, code) := checkConfig path content
    IO.println text
    return code
  | _ =>
    IO.eprintln "usage: check FILE"
    return 2
