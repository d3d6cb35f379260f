import LiveMigration.Forwarding.Tables

namespace LiveMigration

instance : Jsonable FiveTuple where
  ofJson? j := do
    let f ← j.fields? ["src_addr", "dst_addr", "protocol", "src_port", "dst_port"]
    return {
      srcAddr := ← f.required "src_addr", dstAddr := ← f.required "dst_addr"
      protocol := ← f.required "protocol", srcPort := ← f.required "src_port"
      dstPort := ← f.required "dst_port" }
  toJson t := .record [("src_addr", toJson t.srcAddr), ("dst_addr", toJson t.dstAddr),
    ("protocol", toJson t.protocol), ("src_port", toJson t.srcPort), ("dst_port", toJson t.dstPort)]

instance : Jsonable Member where
  ofJson? j := do
    let f ← j.fields? ["index", "endpoint", "active"]
    return {
      index := ← f.required "index", endpoint := ← f.required "endpoint"
      active := ← f.required "active" }
  toJson m := .record [("index", toJson m.index), ("endpoint", toJson m.endpoint),
    ("active", toJson m.active)]

instance : Jsonable Group where
  ofJson? j := do
    let f ← j.fields? ["vip", "slots"]
    return { vip := ← f.required "vip", slots := ← f.required "slots" }
  toJson g := .record [("vip", toJson g.vip), ("slots", toJson g.slots)]

instance : Jsonable Rule where
  ofJson? j := do
    let f ← j.fields? ["destination", "egress", "hw_rewrite"]
    return {
      destination := ← f.required "destination", egress := ← f.required "egress"
      mac := ← f.optional "hw_rewrite" }
  toJson r := .record [("destination", toJson r.destination), ("egress", toJson r.egress),
    ("hw_rewrite", toJson r.mac)]

instance : Jsonable Resolution where
  ofJson? j := do
    let f ← j.fields? ["vip", "member_index", "endpoint", "egress", "hw_rewrite"]
    return {
      vip := ← f.optional "vip", memberIndex := ← f.optional "member_index"
      endpoint := ← f.required "endpoint", egress := ← f.required "egress"
      mac := ← f.optional "hw_rewrite" }
  toJson r := .record [("vip", toJson r.vip), ("member_index", toJson r.memberIndex),
    ("endpoint", toJson r.endpoint), ("egress", toJson r.egress), ("hw_rewrite", toJson r.mac)]

instance : Jsonable Tables where
  ofJson? j := do
    let f ← j.fields? ["groups", "endpoints", "forwards", "nat"]
    return {
      groups := ← f.required "groups", endpoints := ← f.required "endpoints"
      rules := ← f.required "forwards", nat := ← f.required "nat" }
  toJson t := .record [("groups", toJson t.groups), ("endpoints", toJson t.endpoints),
    ("forwards", toJson t.rules), ("nat", toJson t.nat)]

namespace Op

def name : Op → String
  | .createGroup .. => "create_group"
  | .deleteGroup _ => "delete_group"
  | .putEndpoint _ => "upsert_endpoint"
  | .removeEndpoint _ => "remove_endpoint"
  | .bind .. => "bind_member"
  | .unbind .. => "unbind_member"
  | .setActive .. => "set_active"
  | .putRule _ => "upsert_forward"
  | .removeRule _ => "remove_forward"
  | .putNat .. => "upsert_nat"
  | .deleteNat _ => "delete_nat"

def content : Op → List (String × Option Json)
  | .createGroup vip capacity => [("vip", toJson vip), ("capacity", toJson capacity)]
  | .deleteGroup vip => [("vip", toJson vip)]
  | .putEndpoint e => [("endpoint", toJson e)]
  | .removeEndpoint addr => [("addr", toJson addr)]
  | .bind vip index e => [("vip", toJson vip), ("index", toJson index), ("endpoint", toJson e)]
  | .unbind vip index => [("vip", toJson vip), ("index", toJson index)]
  | .setActive vip index active =>
    [("vip", toJson vip), ("index", toJson index), ("active", toJson active)]
  | .putRule r => [("destination", toJson r.destination), ("egress", toJson r.egress),
    ("hw_rewrite", toJson r.mac)]
  | .removeRule destination => [("destination", toJson destination)]
  | .putNat port vip => [("service_port", toJson port), ("vip", toJson vip)]
  | .deleteNat port => [("service_port", toJson port)]

def ofContent? (name : String) (j : Json) : Option Op :=
  match name with
  | "create_group" => do
    let f ← j.fields? ["vip", "capacity"]
    return .createGroup (← f.required "vip") (← f.required "capacity")
  | "delete_group" => do
    let f ← j.fields? ["vip"]
    return .deleteGroup (← f.required "vip")
  | "upsert_endpoint" => do
    let f ← j.fields? ["endpoint"]
    return .putEndpoint (← f.required "endpoint")
  | "remove_endpoint" => do
    let f ← j.fields? ["addr"]
    return .removeEndpoint (← f.required "addr")
  | "bind_member" => do
    let f ← j.fields? ["vip", "index", "endpoint"]
    return .bind (← f.required "vip") (← f.required "index") (← f.required "endpoint")
  | "unbind_member" => do
    let f ← j.fields? ["vip", "index"]
    return .unbind (← f.required "vip") (← f.required "index")
  | "set_active" => do
    let f ← j.fields? ["vip", "index", "active"]
    return .setActive (← f.required "vip") (← f.required "index") (← f.required "active")
  | "upsert_forward" => do
    let f ← j.fields? ["destination", "egress", "hw_rewrite"]
    return .putRule ⟨← f.required "destination", ← f.required "egress", ← f.optional "hw_rewrite"⟩
  | "remove_forward" => do
    let f ← j.fields? ["destination"]
    return .removeRule (← f.required "destination")
  | "upsert_nat" => do
    let f ← j.fields? ["service_port", "vip"]
    return .putNat (← f.required "service_port") (← f.required "vip")
  | "delete_nat" => do
    let f ← j.fields? ["service_port"]
    return .deleteNat (← f.required "service_port")
  | _ => none

def untag? : Json → Option (String × Json)
  | .object l =>
    match l.partition (·.1.is "op") with
    | ([(_, .string (some name))], rest) => some (name, .object rest)
    | _ => none
  | .array (.string (some name) :: rest) => some (name, .array rest)
  | _ => none

def maxDepth : Nat := 127

/-- The operation of a JSON value that stands inside `outer` arrays and objects. -/
def ofJsonWithin? (outer : Nat) (j : Json) : Option Op :=
  if j.denotes ∧ outer + j.depth ≤ maxDepth then do
    let (name, rest) ← untag? j
    ofContent? name rest
  else none

instance : Jsonable Op where
  ofJson? := ofJsonWithin? 0
  toJson op := .record (("op", toJson op.name) :: op.content)

end Op

instance : Jsonable Batch where
  ofJson? j := do
    let f ← j.fields? ["ops"]
    match f.get? "ops" with
    | some (.array l) => return ⟨← readAll (Op.ofJsonWithin? 2) l⟩
    | _ => none
  toJson b := .record [("ops", toJson b.ops)]

end LiveMigration
