import LiveMigration.Fleet.Config
import LiveMigration.Json.Reader

namespace LiveMigration

instance : Jsonable Host where
  ofJson? j := do
    let f ← j.fields? ["name", "ssh", "egress", "uplink", "checkpoint_dir"]
    return {
      name := ← f.required "name"
      ssh := ← f.defaulted "ssh" "localhost"
      egress := ← f.required "egress"
      uplink := ← f.defaulted "uplink" "eth0"
      checkpointDir := ← f.defaulted "checkpoint_dir" "/var/lib/ferry/checkpoints" }
  toJson h := .record [("name", toJson h.name), ("ssh", toJson h.ssh), ("egress", toJson h.egress),
    ("uplink", toJson h.uplink), ("checkpoint_dir", toJson h.checkpointDir)]

instance : Jsonable Node where
  ofJson? j := do
    let f ← j.fields? ["ipv4", "mac", "host", "container", "member_index", "is_lb_node"]
    return {
      addr := ← f.required "ipv4"
      mac := ← f.required "mac"
      host := ← f.required "host"
      container := ← f.defaulted "container" "server"
      memberIndex := ← f.defaulted "member_index" none
      isMember := ← f.defaulted "is_lb_node" true }
  toJson n := .record [("ipv4", toJson n.addr), ("mac", toJson n.mac), ("host", toJson n.host),
    ("container", toJson n.container), ("member_index", toJson n.memberIndex),
    ("is_lb_node", toJson n.isMember)]

instance : Jsonable MigrationKnobs where
  ofJson? j := do
    let f ← j.fields? ["drain_poll_interval_ms", "drain_ceiling_ms", "agent_timeout_ms",
      "transfer_timeout_ms", "command_timeout_ms", "teardown_policy", "image", "quiesce_signal",
      "resume_signal"]
    let d := MigrationKnobs.default
    return {
      drainPoll := ← f.defaulted "drain_poll_interval_ms" d.drainPoll
      drainCeiling := ← f.defaulted "drain_ceiling_ms" d.drainCeiling
      agentTimeout := ← f.defaulted "agent_timeout_ms" d.agentTimeout
      transferTimeout := ← f.defaulted "transfer_timeout_ms" d.transferTimeout
      commandTimeout := ← f.defaulted "command_timeout_ms" d.commandTimeout
      teardownPolicy := ← f.defaulted "teardown_policy" d.teardownPolicy
      image := ← f.defaulted "image" d.image
      quiesceSignal := ← f.defaulted "quiesce_signal" d.quiesceSignal
      resumeSignal := ← f.defaulted "resume_signal" d.resumeSignal }
  toJson m := .record [("drain_poll_interval_ms", toJson m.drainPoll),
    ("drain_ceiling_ms", toJson m.drainCeiling), ("agent_timeout_ms", toJson m.agentTimeout),
    ("transfer_timeout_ms", toJson m.transferTimeout), ("command_timeout_ms", toJson m.commandTimeout),
    ("teardown_policy", toJson m.teardownPolicy), ("image", toJson m.image),
    ("quiesce_signal", toJson m.quiesceSignal), ("resume_signal", toJson m.resumeSignal)]

instance : Jsonable TelemetryPaths where
  ofJson? j := do
    let f ← j.fields? ["record_dir", "flag_file"]
    let d := TelemetryPaths.default
    return {
      recordDir := ← f.defaulted "record_dir" d.recordDir
      flagFile := ← f.defaulted "flag_file" d.flagFile }
  toJson t := .record [("record_dir", toJson t.recordDir), ("flag_file", toJson t.flagFile)]

instance : Jsonable Config where
  ofJson? j := do
    let f ← j.fields? ["listen_addr", "vip", "service_port", "group_capacity",
      "suppress_nat_on_same_identity", "hosts", "nodes", "always_on_peers", "migration", "telemetry",
      "log_dir"]
    return {
      listenAddr := ← f.defaulted "listen_addr" (.v4 (.ofOctets 127 0 0 1) 5000)
      vip := ← f.required "vip"
      servicePort := ← f.defaulted "service_port" 8080
      slots := ← f.defaulted "group_capacity" none
      suppressNat := ← f.defaulted "suppress_nat_on_same_identity" true
      hosts := ← f.required "hosts"
      nodes := ← f.defaulted "nodes" []
      peers := ← f.defaulted "always_on_peers" []
      migration := ← f.defaulted "migration" .default
      telemetry := ← f.defaulted "telemetry" .default
      logDir := ← f.defaulted "log_dir" "logs" }
  toJson c := .record [("listen_addr", toJson c.listenAddr), ("vip", toJson c.vip),
    ("service_port", toJson c.servicePort), ("group_capacity", toJson c.slots),
    ("suppress_nat_on_same_identity", toJson c.suppressNat), ("hosts", toJson c.hosts),
    ("nodes", toJson c.nodes), ("always_on_peers", toJson c.peers), ("migration", toJson c.migration),
    ("telemetry", toJson c.telemetry), ("log_dir", toJson c.logDir)]

namespace Config

def parse (raw : String) : Except Error Config :=
  match (Json.ofText? raw).bind ofJson? with
  | none => .error .json
  | some c =>
    match Config.validate c with
    | .ok () => .ok c
    | .error fault => .error (.config fault)

def ofFile (path : String) (content : Except String ByteArray) : Except Error Config :=
  match content with
  | .error reason => .error (.config (.unreadable path reason))
  | .ok bytes =>
    match String.fromUTF8? bytes with
    | none => .error (.config (.unreadable path "stream did not contain valid UTF-8"))
    | some raw => parse raw

end Config

end LiveMigration
