import LiveMigration.Fleet.Config
import LiveMigration.Job.Report
import LiveMigration.Telemetry.Disk

namespace LiveMigration

namespace TelemetryPaths

def disabled : TelemetryPaths := ⟨none, none⟩

def recordName (j : Job) : String := j.id.text ++ ".timing"

def stagingPath (flag : String) : String := Path.withExtension flag "tmp"

def recordActions (j : Job) (dir : String) : List Disk.Action :=
  Disk.dirActions dir ++ Disk.writeActions (Path.join dir (recordName j)) j.sampleText

def flagActions (j : Job) (flag : String) : List Disk.Action :=
  Disk.dirActions (Path.parent flag) ++ Disk.writeActions (stagingPath flag) j.sampleText ++
    [.rename (stagingPath flag) flag]

def actions (t : TelemetryPaths) (j : Job) : List Disk.Action :=
  (t.recordDir.map (recordActions j)).getD [] ++
    if j.status = .succeeded then (t.flagFile.map (flagActions j)).getD [] else []

/-- Publish a job; what cannot be written is passed over together with all that would come after it. -/
def publish (t : TelemetryPaths) (j : Job) (d : Disk) : Disk := d.actAll (t.actions j)

end TelemetryPaths

end LiveMigration
