import Mathlib
import LiveMigration.Proofs.Json.OrderFree
import LiveMigration.Proofs.Json.Text

namespace LiveMigration

namespace Json

class Lossless (α : Type) [Jsonable α] : Prop where
  ofJson?_toJson (a : α) : ofJson? (toJson a) = some a
  written (a : α) : (toJson a).Written

attribute [simp] Lossless.ofJson?_toJson Lossless.written

class Solid (α : Type) [Jsonable α] : Prop where
  toJson_ne_null (a : α) : toJson a ≠ .null

instance : Lossless Bool where
  ofJson?_toJson _ := rfl
  written b := .bool b

theorem natBelow?_nat {bound n : Nat} (h : n < bound) : natBelow? bound (nat n) = some n := by
  change (Numeral.ofNat n).toNat?.filter (· < bound) = some n
  simp [Option.filter_some, h]

instance : Lossless UInt16 where
  ofJson?_toJson n := by
    change (natBelow? UInt16.size (nat n.toNat)).map UInt16.ofNat = some n
    rw [natBelow?_nat n.toNat_lt_size, Option.map_some, UInt16.ofNat_toNat]
  written n := .nat (Nat.lt_trans n.toNat_lt_size (by decide))

instance : Lossless UInt64 where
  ofJson?_toJson n := by
    change (natBelow? UInt64.size (nat n.toNat)).map UInt64.ofNat = some n
    rw [natBelow?_nat n.toNat_lt_size, Option.map_some, UInt64.ofNat_toNat]
  written n := .nat n.toNat_lt_size

instance : Lossless String where
  ofJson?_toJson _ := rfl
  written s := .str s

instance : Lossless Addr where
  ofJson?_toJson a := a.ofText?_text
  written a := .str a.text

instance : Lossless Mac where
  ofJson?_toJson m := m.ofText?_text
  written m := .str m.text

instance : Lossless SocketAddr where
  ofJson?_toJson s := s.ofText?_text
  written s := .str s.text

instance : Lossless TeardownPolicy where
  ofJson?_toJson p := by cases p <;> decide
  written p := .str p.name

instance : Solid UInt16 := ⟨nofun⟩
instance : Solid String := ⟨nofun⟩
instance : Solid Mac := ⟨nofun⟩
instance : Solid Identity := ⟨nofun⟩
instance : Solid Member := ⟨nofun⟩

@[simp] theorem ofJson?_some [Jsonable α] [Lossless α] [Solid α] (a : α) :
    (ofJson? (toJson a) : Option (Option α)) = some (some a) := by
  rw [ofJson?_option (Solid.toJson_ne_null a), Lossless.ofJson?_toJson, Option.map_some]

instance [Jsonable α] [Lossless α] [Solid α] : Lossless (Option α) where
  ofJson?_toJson
    | none => rfl
    | some a => ofJson?_some a
  written
    | none => .null
    | some a => Lossless.written a

theorem readAll_map {f : Json → Option α} {g : α → Json} (h : ∀ a, f (g a) = some a) (l : List α) :
    readAll f (l.map g) = some l := by
  induction l with
  | nil => rfl
  | cons a l ih => simp [readAll, h, ih]

instance [Jsonable α] [Lossless α] : Lossless (List α) where
  ofJson?_toJson l := readAll_map Lossless.ofJson?_toJson l
  written l := .array fun j hj => by
    obtain ⟨a, -, rfl⟩ := List.mem_map.1 hj
    exact Lossless.written a

section Records

variable {ms : List (String × Option Json)} {names : List String}

def present (ms : List (String × Option Json)) : List (String × Json) :=
  ms.filterMap fun e => e.2.map fun j => (e.1, j)

theorem record_eq (ms : List (String × Option Json)) : record ms = .object (members (present ms)) := by
  simp [record, members, present, List.map_filterMap, Function.comp_def]

theorem present_cons (k : String) (v : Option Json) (ms : List (String × Option Json)) :
    present ((k, v) :: ms) = (v.map fun j => (k, j)).toList ++ present ms := by
  cases v <;> rfl

theorem mem_of_mem_present {e : String × Json} (h : e ∈ present ms) : (e.1, some e.2) ∈ ms := by
  obtain ⟨⟨k, v⟩, hm, hv⟩ := List.mem_filterMap.1 h
  obtain ⟨j, rfl, rfl⟩ := Option.map_eq_some_iff.1 hv
  exact hm

theorem keys_present (ms : List (String × Option Json)) :
    ((present ms).map Prod.fst).Sublist (ms.map Prod.fst) := by
  induction ms with
  | nil => exact .refl _
  | cons e ms ih =>
    obtain ⟨k, v⟩ := e
    cases v with
    | none => exact ih.cons k
    | some j => exact ih.cons_cons k

theorem known?_members {l : List (String × Json)} (hn : (l.map Prod.fst).Nodup) (hk : ∀ e ∈ l, e.1 ∈ names) :
    known? names (members l) = some l := by
  induction l with
  | nil => rfl
  | cons e l ih =>
    obtain ⟨k, j⟩ := e
    rw [List.forall_mem_cons] at hk
    obtain ⟨hnew, hn⟩ := List.nodup_cons.1 hn
    have hany : l.any (·.1 = k) = false := by
      simp only [List.any_eq_false, decide_eq_true_eq]
      intro e hm he
      exact hnew (List.mem_map.2 ⟨e, hm, he⟩)
    have hcontains : names.contains k = true := by simpa using hk.1
    have hkeep : keep names k j l = some ((k, j) :: l) := by
      rw [keep, if_pos hcontains, hany]
      rfl
    change known? names ((Key.ofString k, j) :: members l) = _
    rw [known?_cons_of_some (k := Key.ofString k) rfl, ih hn hk.2]
    exact hkeep

theorem pick_present (hn : (ms.map Prod.fst).Nodup) {e : String × Option Json} (he : e ∈ ms) :
    pick (present ms) e.1 = e.2 := by
  induction ms with
  | nil => cases he
  | cons d ms ih =>
    obtain ⟨k, v⟩ := d
    obtain ⟨hnew, hrest⟩ := List.nodup_cons.1 hn
    rcases List.mem_cons.1 he with rfl | hm
    · cases v with
      | some j => simp [present_cons, pick_cons]
      | none =>
        have hnone : pick (present ms) k = none := by
          simp only [pick, Option.map_eq_none_iff, List.find?_eq_none, decide_eq_true_eq]
          intro d hd hk
          exact hnew (List.mem_map.2 ⟨_, mem_of_mem_present hd, hk⟩)
        exact hnone
    · have hne : k ≠ e.1 := fun hk => hnew (List.mem_map.2 ⟨e, hm, hk.symm⟩)
      cases v with
      | none => exact ih hrest hm
      | some j => simpa [present_cons, pick_cons, hne] using ih hrest hm

theorem bind_fields?_record (hnames : ms.map Prod.fst = names) (hn : names.Nodup) {a : α}
    {build : Fields → Option α} (hb : ∀ f : Fields, (∀ e ∈ ms, f.get? e.1 = e.2) → build f = some a) :
    ((record ms).fields? names).bind build = some a := by
  subst hnames
  have hknown : known? (ms.map Prod.fst) (members (present ms)) = some (present ms) := by
    refine known?_members (hn.sublist (keys_present ms)) fun e he => ?_
    exact List.mem_map.2 ⟨_, mem_of_mem_present he, rfl⟩
  rw [record_eq, fields?, hknown]
  exact hb _ fun e he => pick_present hn he

theorem written_record (hk : ∀ e ∈ ms, Unescaped e.1) (h : ∀ e ∈ ms, ∀ j, e.2 = some j → j.Written) :
    (record ms).Written := by
  rw [record_eq]
  exact .object (fun e he => hk _ (mem_of_mem_present he)) fun e he => h _ (mem_of_mem_present he) _ rfl

theorem Lossless.of_record [Jsonable α] {ms : α → List (String × Option Json)} {build : Fields → Option α}
    (hto : ∀ a : α, toJson a = record (ms a)) (hof : ∀ j, ofJson? j = (j.fields? names).bind build)
    (hnames : ∀ a, (ms a).map Prod.fst = names) (hn : names.Nodup) (hk : ∀ k ∈ names, Unescaped k)
    (hb : ∀ a (f : Fields), (∀ e ∈ ms a, f.get? e.1 = e.2) → build f = some a)
    (hw : ∀ a, ∀ e ∈ ms a, ∀ j, e.2 = some j → j.Written) : Lossless α where
  ofJson?_toJson a := by
    rw [hto, hof]
    exact bind_fields?_record (hnames a) hn (hb a)
  written a := by
    rw [hto]
    exact written_record (fun e he => hk _ (hnames a ▸ List.mem_map.2 ⟨e, he, rfl⟩)) (hw a)

theorem Fields.defaulted_of_skipped [Jsonable α] [Lossless α] [Solid α] {f : Fields} {name : String}
    {x : Option α} (h : f.get? name = x.map toJson) : f.defaulted name none = some x := by
  rw [Fields.defaulted, h]
  cases x with
  | none => rfl
  | some a => exact ofJson?_some a

end Records

instance : Lossless Identity := .of_record (fun _ => rfl) (fun _ => rfl) (fun _ => rfl) (by decide) (by decide)
  (fun i f hf => by simp_all [Fields.required]) (fun i => by simp)

instance : Lossless Neighbor := .of_record (fun _ => rfl) (fun _ => rfl) (fun _ => rfl) (by decide) (by decide)
  (fun n f hf => by simp_all [Fields.required]) (fun n => by simp)

instance : Lossless Endpoint := .of_record (fun _ => rfl) (fun _ => rfl) (fun _ => rfl) (by decide) (by decide)
  (fun e f hf => by simp_all [Fields.required]) (fun e => by simp)

instance : Lossless Member := .of_record (fun _ => rfl) (fun _ => rfl) (fun _ => rfl) (by decide) (by decide)
  (fun m f hf => by simp_all [Fields.required]) (fun m => by simp)

instance : Lossless Group := .of_record (fun _ => rfl) (fun _ => rfl) (fun _ => rfl) (by decide) (by decide)
  (fun g f hf => by simp_all [Fields.required]) (fun g => by simp)

instance : Lossless Rule := .of_record (fun _ => rfl) (fun _ => rfl) (fun _ => rfl) (by decide) (by decide)
  (fun r f hf => by simp_all [Fields.required, Fields.optional_eq, Fields.defaulted]) (fun r => by simp)

class LosslessKey (κ : Type) [JsonKey κ] : Prop where
  ofKey?_text (a : κ) : JsonKey.ofKey? (.ofString (JsonKey.text a)) = some a
  unescaped (a : κ) : Unescaped (JsonKey.text a)

theorem escapeChar_eq_self {c : Char} (hq : c ≠ '"') (hb : c ≠ '\\') (hc : ¬ c.toNat < 0x20) :
    escapeChar c = [c] := by
  unfold escapeChar
  split
  · next letter h =>
    unfold escapeLetter? at h
    split at h
    all_goals first | exact absurd rfl hq | exact absurd rfl hb | exact absurd (by decide) hc | cases h
  · exact if_neg hc

theorem escapeChar_of_isAlphanum {c : Char} (h : c.isAlphanum = true) : escapeChar c = [c] := by
  have hne (d : Char) (hd : d.isAlphanum = false) : c ≠ d := by
    rintro rfl
    cases h.symm.trans hd
  refine escapeChar_eq_self (hne _ rfl) (hne _ rfl) fun hc => ?_
  have hcontrol : ∀ n < 0x20, (Char.ofNat n).isAlphanum = false := by decide
  exact hne _ (hcontrol _ hc) c.ofNat_toNat.symm

instance : LosslessKey Addr where
  ofKey?_text a := by
    have hkey (s : String) : (JsonKey.ofKey? (.ofString s) : Option Addr) = Addr.ofText? s := rfl
    rw [hkey]
    exact a.ofText?_text
  unescaped a c hc := by
    replace hc : c ∈ a.chars := by simpa [JsonKey.text, Addr.text] using hc
    rcases Addr.isAlphanum_of_mem_chars hc with h | rfl
    · exact escapeChar_of_isAlphanum h
    · decide

instance : LosslessKey UInt16 where
  ofKey?_text n := by
    have hn : (Text.digits? 10 (Text.decimal n.toNat)).filter
        (fun m => m < UInt16.size ∧ Text.decimal m = Text.decimal n.toNat) = some n.toNat := by
      simp [Option.filter_some, n.toNat_lt_size]
    change portOfText? (String.ofList (Text.decimal n.toNat)) = some n
    simp only [portOfText?, String.toList_ofList, hn, Option.map_some, UInt16.ofNat_toNat]
  unescaped n c hc := by
    replace hc : c ∈ Text.decimal n.toNat := by simpa [JsonKey.text] using hc
    exact escapeChar_of_isAlphanum (Text.isAlphanum_of_mem_decimal hc)

section Tables

variable {κ ν : Type} [JsonKey κ] [Jsonable ν]

theorem toJson_table [Ranked κ] (t : Table κ ν) :
    toJson t = .object (members (t.entries.map fun e => (JsonKey.text e.1, toJson e.2))) := by
  change Json.object (t.entries.map fun e => (Key.ofString (JsonKey.text e.1), toJson e.2)) = _
  simp [members]

variable [LosslessKey κ] [Lossless ν]

theorem readEntries_members (l : List (κ × ν)) :
    readEntries (members (l.map fun e => (JsonKey.text e.1, toJson e.2))) = some l := by
  induction l with
  | nil => rfl
  | cons e l ih =>
    rw [List.map_cons, members, List.map_cons, readEntries_cons, ← members, ih]
    simp [LosslessKey.ofKey?_text]

instance [Ranked κ] : Lossless (Table κ ν) where
  ofJson?_toJson t := by
    rw [toJson_table]
    change (readEntries (members _)).map _ = _
    rw [readEntries_members, Option.map_some, Table.ofList_entries]
  written t := by
    rw [toJson_table]
    refine .object (List.forall_mem_map.2 fun e _ => LosslessKey.unescaped e.1) ?_
    exact List.forall_mem_map.2 fun e _ => Lossless.written e.2

end Tables

instance : Lossless Tables := .of_record (fun _ => rfl) (fun _ => rfl) (fun _ => rfl) (by decide) (by decide)
  (fun t f hf => by simp_all [Fields.required]) (fun t => by simp)

theorem denoteItems_of_forall {l : List Json} (h : ∀ j ∈ l, j.denotes = true) : denoteItems l = true := by
  induction l with
  | nil => rfl
  | cons j l ih =>
    rw [List.forall_mem_cons] at h
    rw [denoteItems, h.1, ih h.2]
    rfl

theorem denoteMembers_of_forall {l : List (String × Json)} (h : ∀ e ∈ l, e.2.denotes = true) :
    denoteMembers (members l) = true := by
  induction l with
  | nil => rfl
  | cons e l ih =>
    rw [List.forall_mem_cons] at h
    change ((Key.ofString e.1).text?.isSome && e.2.denotes && denoteMembers (members l)) = true
    rw [h.1, ih h.2]
    rfl

theorem Written.denotes {j : Json} (h : j.Written) : j.denotes = true := by
  induction h with
  | null => rfl
  | bool b => rfl
  | nat h => simp [Json.nat, Json.denotes, Numeral.isWhole, Numeral.ofNat, h]
  | str s => rfl
  | array _ ih => exact denoteItems_of_forall ih
  | object _ _ ih => exact denoteMembers_of_forall ih

theorem depth_op (op : Op) : (toJson op).depth ≤ 3 := by
  cases op
  case putRule r =>
    obtain ⟨addr, egress, mac⟩ := r
    cases mac <;> exact Nat.le_of_ble_eq_true rfl
  all_goals exact Nat.le_of_ble_eq_true rfl

theorem ofContent?_content (op : Op) : Op.ofContent? op.name (record op.content) = some op := by
  cases op
  all_goals
    unfold Op.name Op.ofContent?
    refine bind_fields?_record ?names ?nodup fun f hf => ?read
    case names => rfl
    case nodup => decide
    case read => simp_all [Op.content, Fields.required, Fields.optional_eq, Fields.defaulted]

theorem ne_op_of_mem_content {op : Op} {e : String × Option Json} (h : e ∈ op.content) : e.1 ≠ "op" := by
  revert e
  cases op <;> simp [Op.content]

theorem untag?_toJson (op : Op) : Op.untag? (toJson op) = some (op.name, record op.content) := by
  have hto : toJson op = .object ((Key.ofString "op", str op.name) :: members (present op.content)) :=
    record_eq (("op", some (str op.name)) :: op.content)
  have hkeys : ∀ e ∈ members (present op.content), e.1.is "op" = false := by
    refine List.forall_mem_map.2 fun e he => ?_
    simpa [Key.is, Key.ofString] using ne_op_of_mem_content (mem_of_mem_present he)
  have htags : (members (present op.content)).filter (·.1.is "op") = [] :=
    List.filter_eq_nil_iff.2 fun e he => by simp [hkeys e he]
  have hrest : (members (present op.content)).filter (!·.1.is "op") = members (present op.content) :=
    List.filter_eq_self.2 fun e he => by simp [hkeys e he]
  have hop : (Key.ofString "op").is "op" = true := by decide
  rw [hto, untag?_object, record_eq]
  simp only [List.filter_cons, hop, htags, hrest, if_pos, Bool.not_true, Bool.false_eq_true, if_false]
  rfl

theorem written_op (op : Op) : (toJson op).Written := by
  refine written_record ?keys ?values
  case keys =>
    refine List.forall_mem_cons.2 ⟨(by decide : Unescaped "op"), ?_⟩
    cases op <;> simp only [Op.content, List.forall_mem_cons] <;> decide
  case values =>
    refine List.forall_mem_cons.2 ⟨?_, ?_⟩
    · rintro j ⟨⟩
      exact .str op.name
    · cases op <;> simp [Op.content]

theorem ofJsonWithin?_toJson {outer : Nat} (h : outer + 3 ≤ Op.maxDepth) (op : Op) :
    Op.ofJsonWithin? outer (toJson op) = some op := by
  have hdepth := depth_op op
  rw [Op.ofJsonWithin?, if_pos ⟨(written_op op).denotes, by omega⟩, untag?_toJson]
  exact ofContent?_content op

instance : Lossless Op where
  ofJson?_toJson := ofJsonWithin?_toJson (by decide)
  written := written_op

instance : Lossless Batch := .of_record (fun _ => rfl) batch_ofJson? (fun _ => rfl) (by decide) (by decide)
  (fun b f hf => by
    have hops : ops? (toJson b.ops) = some b.ops := readAll_map (ofJsonWithin?_toJson (by decide)) b.ops
    simp_all) (fun b => by simp)

instance : Lossless MigrationRequest := .of_record (fun _ => rfl) (fun _ => rfl) (fun _ => rfl) (by decide)
  (by decide) (fun r f hf => by simp_all [Fields.required, Fields.defaulted]) (fun r => by simp)

instance : Lossless Api.MigrateRequest := .of_record (fun _ => rfl) (fun _ => rfl) (fun _ => rfl) (by decide)
  (by decide) (fun r f hf => by
    simp only [List.forall_mem_cons] at hf
    simp [Fields.required, Fields.defaulted_of_skipped hf.2.2.1, hf]) (fun r => by simp)

instance : Lossless Api.ReattachRequest := .of_record (fun _ => rfl) (fun _ => rfl) (fun _ => rfl) (by decide)
  (by decide) (fun r f hf => by
    simp only [List.forall_mem_cons] at hf
    simp [Fields.required, Fields.defaulted_of_skipped hf.2.2.1, Fields.defaulted_of_skipped hf.2.2.2.1, hf])
  (fun r => by simp)

instance : Lossless Host := .of_record (fun _ => rfl) (fun _ => rfl) (fun _ => rfl) (by decide) (by decide)
  (fun h f hf => by simp_all [Fields.required, Fields.defaulted]) (fun h => by simp)

instance : Lossless Node := .of_record (fun _ => rfl) (fun _ => rfl) (fun _ => rfl) (by decide) (by decide)
  (fun n f hf => by simp_all [Fields.required, Fields.defaulted]) (fun n => by simp)

instance : Lossless MigrationKnobs := .of_record (fun _ => rfl) (fun _ => rfl) (fun _ => rfl) (by decide)
  (by decide) (fun m f hf => by simp_all [Fields.defaulted]) (fun m => by simp)

instance : Lossless TelemetryPaths := .of_record (fun _ => rfl) (fun _ => rfl) (fun _ => rfl) (by decide)
  (by decide) (fun t f hf => by simp_all [Fields.defaulted]) (fun t => by simp)

instance : Lossless Config := .of_record (fun _ => rfl) (fun _ => rfl) (fun _ => rfl) (by decide) (by decide)
  (fun c f hf => by simp_all [Fields.required, Fields.defaulted]) (fun c => by simp)

end Json

def decode? [Jsonable α] (raw : String) : Option α := (Json.ofText? raw).bind ofJson?

def encode [Jsonable α] (a : α) : String := (toJson a).text

/-- Values that are exchanged as text: nothing is lost, and the order of members does not matter. -/
structure Exchanged (α : Type) [Jsonable α] : Prop where
  decode?_encode (a : α) : decode? (encode a) = some a
  decode?_reordered {raw raw' : String} {j j' : Json} (hj : Json.ofText? raw = some j)
    (hj' : Json.ofText? raw' = some j') (h : j.Reordered j') : (decode? raw : Option α) = decode? raw'

theorem exchanged (α : Type) [Jsonable α] [Json.Lossless α] [Json.OrderFree α] : Exchanged α where
  decode?_encode a := by
    rw [decode?, encode, (Json.Lossless.written a).ofText?_text, Option.bind_some, Json.Lossless.ofJson?_toJson]
  decode?_reordered hj hj' h := by
    rw [decode?, decode?, hj, hj', Option.bind_some, Option.bind_some, Json.OrderFree.ofJson?_eq h]

/-- Operations, requests and configurations survive being written and read again, and are read in any order of
members. -/
theorem messages_exchanged : Exchanged Op ∧ Exchanged Batch ∧ Exchanged Tables ∧ Exchanged MigrationRequest ∧
    Exchanged Api.MigrateRequest ∧ Exchanged Api.ReattachRequest ∧ Exchanged Host ∧ Exchanged Node ∧
    Exchanged MigrationKnobs ∧ Exchanged TelemetryPaths ∧ Exchanged Config :=
  ⟨exchanged _, exchanged _, exchanged _, exchanged _, exchanged _, exchanged _, exchanged _, exchanged _,
    exchanged _, exchanged _, exchanged _⟩

theorem messages_exchanged_with_tag_last :
    let raw := "\x7b\"service_port\": 80, \"op\" : \"delete_nat\"\x7d"
    encode (Op.deleteNat 80) = "\x7b\"op\":\"delete_nat\",\"service_port\":80\x7d" ∧
      decode? raw = some (Op.deleteNat 80) := by
  intro raw
  let tag : Json.Key × Json := (.ofString "op", .str "delete_nat")
  let port : Json.Key × Json := (.ofString "service_port", .nat 80)
  have hraw : Json.ofText? raw = some (.object [port, tag]) := by cbv
  have hencoded : Json.ofText? (encode (Op.deleteNat 80)) = some (.object [tag, port]) :=
    (Json.Lossless.written (Op.deleteNat 80)).ofText?_text
  have hkeys : ¬ port.1.Clashes tag.1 := by
    rintro ⟨s, hport, htag⟩
    simp only [Json.Key.is, decide_eq_true_eq] at hport htag
    exact absurd (hport.trans htag.symm) (by decide)
  refine ⟨by decide +kernel, ?_⟩
  have hreordered : (Json.object [port, tag]).Reordered (.object [tag, port]) :=
    .of_perm (.swap tag port []) (by simpa using hkeys)
  rw [messages_exchanged.1.decode?_reordered hraw hencoded hreordered,
    messages_exchanged.1.decode?_encode]

end LiveMigration
