import LiveMigration.Api.Message
import LiveMigration.Controller.Request
import LiveMigration.Fleet.Codec
import LiveMigration.Forwarding.Codec
import LiveMigration.Proofs.Json.Order
import LiveMigration.Proofs.Net.Text

namespace LiveMigration

namespace Json

class OrderFree (α : Type) [Jsonable α] : Prop where
  ofJson?_eq {i j : Json} (h : Reordered i j) : (ofJson? i : Option α) = ofJson? j

theorem Fields.defaulted_eq_elim [Jsonable α] (f : Fields) (name : String) (d : α) :
    f.defaulted name d = (f.get? name).elim (some d) ofJson? := by
  rw [defaulted]
  cases f.get? name <;> rfl

namespace Fields.Alike

variable [Jsonable α] [OrderFree α] {f g : Fields}

theorem get? (h : f.Alike g) (name : String) : Option.Rel Reordered (f.get? name) (g.get? name) := h.found name

theorem required (h : f.Alike g) (name : String) : (f.required name : Option α) = g.required name :=
  rel_congr (f := (·.bind ofJson?)) (h.get? name) fun _ _ => OrderFree.ofJson?_eq

theorem defaulted (h : f.Alike g) (name : String) (d : α) : f.defaulted name d = g.defaulted name d := by
  rw [defaulted_eq_elim, defaulted_eq_elim]
  exact rel_congr (f := (·.elim (some d) ofJson?)) (h.get? name) fun _ _ => OrderFree.ofJson?_eq

end Fields.Alike

theorem Reordered.bind_fields? {i j : Json} (h : Reordered i j) {names : List String}
    {build : Fields → Option α} (hb : ∀ f g : Fields, f.Alike g → build f = build g) :
    (i.fields? names).bind build = (j.fields? names).bind build :=
  rel_congr (f := (·.bind build)) (h.fields? names) hb

theorem ofJson?_option [Jsonable α] {j : Json} (hj : j ≠ .null) :
    (ofJson? j : Option (Option α)) = (ofJson? j : Option α).map some := by
  cases j <;> first | rfl | exact absurd rfl hj

instance [Jsonable α] [OrderFree α] : OrderFree (Option α) where
  ofJson?_eq {i j} h := by
    by_cases hi : i = .null
    · rw [hi, h.eq_null_iff.1 hi]
    · rw [ofJson?_option hi, ofJson?_option (mt h.eq_null_iff.2 hi), OrderFree.ofJson?_eq h]

theorem Fields.optional_eq [Jsonable α] (f : Fields) (name : String) : (f.optional name : Option (Option α)) =
    if (f.get? name).isNone && f.positional then none else f.defaulted name none := by
  rw [Fields.optional, Fields.defaulted]
  cases hj : f.get? name with
  | none => rfl
  | some j => cases j <;> rfl

theorem Fields.Alike.optional [Jsonable α] [OrderFree α] {f g : Fields} (h : f.Alike g) (name : String) :
    (f.optional name : Option (Option α)) = g.optional name := by
  have hnone : (f.get? name).isNone = (g.get? name).isNone := rel_congr (h.get? name) fun _ _ _ => rfl
  rw [Fields.optional_eq, Fields.optional_eq, hnone, h.positional, h.defaulted]

instance : OrderFree Bool := ⟨Reordered.congr_leaf (fun _ => rfl) fun _ => rfl⟩
instance : OrderFree UInt16 := ⟨Reordered.congr_leaf (fun _ => rfl) fun _ => rfl⟩
instance : OrderFree UInt64 := ⟨Reordered.congr_leaf (fun _ => rfl) fun _ => rfl⟩
instance : OrderFree String := ⟨Reordered.congr_leaf (fun _ => rfl) fun _ => rfl⟩
instance : OrderFree Addr := ⟨Reordered.congr_leaf (fun _ => rfl) fun _ => rfl⟩
instance : OrderFree Mac := ⟨Reordered.congr_leaf (fun _ => rfl) fun _ => rfl⟩
instance : OrderFree SocketAddr := ⟨Reordered.congr_leaf (fun _ => rfl) fun _ => rfl⟩

instance : OrderFree Identity where
  ofJson?_eq h := h.bind_fields? fun f g hf => by simp only [hf.required]

instance : OrderFree Neighbor where
  ofJson?_eq h := h.bind_fields? fun f g hf => by simp only [hf.required]

instance : OrderFree Endpoint where
  ofJson?_eq h := h.bind_fields? fun f g hf => by simp only [hf.required]

instance : OrderFree Member where
  ofJson?_eq h := h.bind_fields? fun f g hf => by simp only [hf.required]

instance : OrderFree Rule where
  ofJson?_eq h := h.bind_fields? fun f g hf => by simp only [hf.required, hf.optional]

theorem readAll_item [Jsonable α] {f : Json → Option α} (hf : ∀ i j, Reordered i j → f i = f j) {i j : Json}
    (h : Reordered i j) (l m : List Json) : readAll f (l ++ i :: m) = readAll f (l ++ j :: m) := by
  induction l with
  | nil => simp [readAll, hf i j h]
  | cons a l ih => simp only [List.cons_append, readAll, ih]

theorem Reordered.readAll [Jsonable α] {f : Json → Option α} {g : Json → Option (List α)}
    (ha : ∀ l, g (.array l) = readAll f l) (ho : ∀ l, g (.object l) = none)
    (hf : ∀ i j, Reordered i j → f i = f j) {i j : Json} (h : Reordered i j) : g i = g j := by
  induction h with
  | refl j => rfl
  | trans _ _ ih ih' => exact ih.trans ih'
  | swap _ l m => rw [ho, ho]
  | item h l m => rw [ha, ha, readAll_item hf h l m]
  | member _ k l m => rw [ho, ho]

instance [Jsonable α] [OrderFree α] : OrderFree (List α) where
  ofJson?_eq h := h.readAll (fun _ => rfl) (fun _ => rfl) fun _ _ => OrderFree.ofJson?_eq

theorem eq_nil_of_length_eq_one {l m : List α} {a : α} (h : (l ++ a :: m).length = 1) : l = [] ∧ m = [] := by
  rw [List.length_append, List.length_cons] at h
  exact ⟨List.length_eq_zero_iff.1 (by omega), List.length_eq_zero_iff.1 (by omega)⟩

theorem word?_eq_none {l : List (Key × Json)} (h : l.length ≠ 1) : word? (.object l) = none := by
  unfold word?
  split
  · next he => cases he
  · next he =>
    cases he
    exact absurd rfl h
  · rfl

theorem word?_of_ne_null (k : Key) {j : Json} (h : j ≠ .null) : word? (.object [(k, j)]) = none := by
  cases j <;> first | rfl | exact absurd rfl h

theorem Reordered.word? {i j : Json} (h : Reordered i j) : i.word? = j.word? := by
  induction h with
  | refl j => rfl
  | trans _ _ ih ih' => exact ih.trans ih'
  | swap _ l m => rw [word?_eq_none (by simp; omega), word?_eq_none (by simp; omega)]
  | item _ l m => rfl
  | @member i j h k l m =>
    by_cases hlen : (l ++ (k, i) :: m).length = 1
    · obtain ⟨rfl, rfl⟩ := eq_nil_of_length_eq_one hlen
      by_cases hi : i = .null
      · rw [hi, h.eq_null_iff.1 hi]
      · rw [List.nil_append, List.nil_append, word?_of_ne_null k hi,
          word?_of_ne_null k (mt h.eq_null_iff.2 hi)]
    · rw [word?_eq_none hlen, word?_eq_none (by simpa using hlen)]

instance : OrderFree TeardownPolicy where
  ofJson?_eq {i j} h := by
    change i.word?.bind _ = j.word?.bind _
    rw [h.word?]

instance : OrderFree Group where
  ofJson?_eq h := h.bind_fields? fun f g hf => by simp only [hf.required]

class Canonical (κ : Type) [JsonKey κ] : Prop where
  text?_of_ofKey? {k : Key} {a : κ} (h : JsonKey.ofKey? k = some a) : k.text? = some (JsonKey.text a)

instance : Canonical Addr where
  text?_of_ofKey? {k a} h := by
    obtain ⟨s, hs, ha⟩ := Option.bind_eq_some_iff.1 h
    rw [hs, Addr.eq_text_of_ofText? ha]
    rfl

instance : Canonical UInt16 where
  text?_of_ofKey? {k a} h := by
    simp only [JsonKey.ofKey?] at h
    split at h
    · obtain ⟨s, hs, ha⟩ := Option.bind_eq_some_iff.1 h
      obtain ⟨n, hn, rfl⟩ := Option.map_eq_some_iff.1 ha
      obtain ⟨-, hn⟩ := Option.filter_eq_some_iff.1 hn
      obtain ⟨hlt, hn⟩ : n < UInt16.size ∧ Text.decimal n = s.toList := by simpa using hn
      simp [hs, JsonKey.text, UInt16.toNat_ofNat_of_lt' hlt, hn]
    · cases h

theorem ne_of_not_clashes {κ : Type} [JsonKey κ] [Canonical κ] {k k' : Key} {a a' : κ}
    (h : ¬ k.Clashes k') (ha : JsonKey.ofKey? k = some a) (ha' : JsonKey.ofKey? k' = some a') : a ≠ a' := by
  rintro rfl
  refine h ⟨JsonKey.text a, ?_, ?_⟩
  · simp [Key.is, Canonical.text?_of_ofKey? ha]
  · simp [Key.is, Canonical.text?_of_ofKey? ha']

section Tables

variable {κ ν : Type} [JsonKey κ] [Jsonable ν]

theorem readEntries_cons (e : Key × Json) (l : List (Key × Json)) :
    (readEntries (e :: l) : Option (List (κ × ν))) = (JsonKey.ofKey? e.1).bind fun a =>
      (ofJson? e.2).bind fun x => (readEntries l).map fun es => (a, x) :: es := by
  cases ha : (JsonKey.ofKey? e.1 : Option κ) <;> cases hx : (ofJson? e.2 : Option ν) <;>
    cases hl : (readEntries l : Option (List (κ × ν))) <;> simp [readEntries, ha, hx, hl]

theorem readEntries_append (l m : List (Key × Json)) :
    (readEntries (l ++ m) : Option (List (κ × ν))) =
      (readEntries l).bind fun es => (readEntries m).map fun fs => es ++ fs := by
  induction l with
  | nil => simp [readEntries]
  | cons e l ih =>
    rw [List.cons_append, readEntries_cons, readEntries_cons, ih]
    cases (JsonKey.ofKey? e.1 : Option κ) with
    | none => rfl
    | some a =>
      cases (ofJson? e.2 : Option ν) with
      | none => rfl
      | some x => cases (readEntries l : Option (List (κ × ν))) <;> simp [Function.comp_def]

variable [Ranked κ] [Canonical κ]

theorem table_swap {a b : Key × Json} (h : ¬ a.1.Clashes b.1) (l m : List (Key × Json)) :
    (ofJson? (.object (l ++ a :: b :: m)) : Option (Table κ ν)) = ofJson? (.object (l ++ b :: a :: m)) := by
  change (readEntries _).map _ = (readEntries _).map _
  rw [readEntries_append, readEntries_append]
  simp only [readEntries_cons]
  cases (readEntries l : Option (List (κ × ν))) <;>
    cases ha : (JsonKey.ofKey? a.1 : Option κ) <;> cases (ofJson? a.2 : Option ν) <;>
    cases hb : (JsonKey.ofKey? b.1 : Option κ) <;> cases (ofJson? b.2 : Option ν) <;>
    cases (readEntries m : Option (List (κ × ν))) <;> try rfl
  -- Both members are read. Their keys are different, so they can be put in either order.
  next es _ x _ y fs =>
    have hne := ne_of_not_clashes h ha hb
    simp [Table.ofList, Table.insert_comm hne]

instance [OrderFree ν] : OrderFree (Table κ ν) where
  ofJson?_eq {i j} h := by
    induction h with
    | refl j => rfl
    | trans _ _ ih ih' => exact ih.trans ih'
    | swap h l m => exact table_swap h l m
    | item _ l m => rfl
    | member h k l m =>
      change (readEntries _).map _ = (readEntries _).map _
      simp only [readEntries_append, readEntries_cons, OrderFree.ofJson?_eq h]

end Tables

instance : OrderFree Tables where
  ofJson?_eq h := h.bind_fields? fun f g hf => by simp only [hf.required]

def tagName? : List (Key × Json) → Option String
  | [(_, j)] => ofJson? j
  | _ => none

theorem tagName?_eq_none {l : List (Key × Json)} (h : l.length ≠ 1) : tagName? l = none := by
  unfold tagName?
  split
  · exact absurd rfl h
  · rfl

theorem untag?_object (l : List (Key × Json)) : Op.untag? (.object l) =
    (tagName? (l.filter (·.1.is "op"))).map fun name => (name, .object (l.filter (!·.1.is "op"))) := by
  have hpartition : l.partition (·.1.is "op") = (l.filter (·.1.is "op"), l.filter (!·.1.is "op")) := by
    rw [List.partition_eq_filter_filter]
    rfl
  rw [Op.untag?, hpartition]
  generalize l.filter (!·.1.is "op") = rest
  generalize l.filter (·.1.is "op") = tags
  rcases tags with _ | ⟨⟨k, j⟩, _ | ⟨e, tags⟩⟩
  · rfl
  all_goals rcases j with _ | _ | _ | (_ | _) | _ | _ <;> rfl

theorem untag?_array (j : Json) (l : List Json) : Op.untag? (.array (j :: l)) =
    (ofJson? j : Option String).map fun name => (name, .array l) := by
  rcases j with _ | _ | _ | (_ | _) | _ | _ <;> rfl

theorem Reordered.tagName? {i j : Json} (h : Reordered i j) (k : Key) (l m : List (Key × Json)) :
    Json.tagName? (l ++ (k, i) :: m) = Json.tagName? (l ++ (k, j) :: m) := by
  by_cases hlen : (l ++ (k, i) :: m).length = 1
  · obtain ⟨rfl, rfl⟩ := eq_nil_of_length_eq_one hlen
    exact (OrderFree.ofJson?_eq h : (ofJson? i : Option String) = ofJson? j)
  · rw [tagName?_eq_none hlen, tagName?_eq_none (by simpa using hlen)]

def Tagged (a b : String × Json) : Prop := a.1 = b.1 ∧ Reordered a.2 b.2

theorem Reordered.untag? {i j : Json} (h : Reordered i j) : Option.Rel Tagged (Op.untag? i) (Op.untag? j) := by
  have hsame (x : Option String) {l m : List (Key × Json)} (h : Reordered (.object l) (.object m)) :
      Option.Rel Tagged (x.map fun name => (name, .object l)) (x.map fun name => (name, .object m)) :=
    rel_map (rel_refl (r := Eq) (fun _ => rfl) x) fun _ _ hname => ⟨hname, h⟩
  induction h with
  | refl j => exact rel_refl (fun _ => ⟨rfl, .refl _⟩) _
  | trans _ _ ih ih' => exact rel_trans (fun _ _ _ h h' => ⟨h.1.trans h'.1, h.2.trans h'.2⟩) ih ih'
  | @swap a b hab l m =>
    rw [untag?_object, untag?_object]
    simp only [List.filter_append, List.filter_cons]
    cases ha : a.1.is "op" <;> cases hb : b.1.is "op"
    · exact hsame _ (.swap hab _ _)
    · exact hsame _ (.refl _)
    · exact hsame _ (.refl _)
    · exact absurd ⟨"op", ha, hb⟩ hab
  | item h l m =>
    cases l with
    | nil =>
      rw [List.nil_append, List.nil_append, untag?_array, untag?_array, OrderFree.ofJson?_eq h]
      exact rel_refl (fun _ => ⟨rfl, .refl _⟩) _
    | cons a l =>
      rw [List.cons_append, List.cons_append, untag?_array, untag?_array]
      exact rel_map (rel_refl (r := Eq) (fun _ => rfl) _) fun _ _ hname => ⟨hname, .item h l m⟩
  | @member i j h k l m =>
    rw [untag?_object, untag?_object]
    simp only [List.filter_append, List.filter_cons]
    cases hk : k.is "op"
    · exact hsame _ (.member h k _ _)
    · simp only [if_true, h.tagName? k]
      exact hsame _ (.refl _)

theorem Reordered.ofContent? {i j : Json} (h : Reordered i j) (name : String) :
    Op.ofContent? name i = Op.ofContent? name j := by
  unfold Op.ofContent?
  split
  all_goals first
    | rfl
    | exact h.bind_fields? fun f g hf => by simp only [hf.required, hf.optional]

theorem Reordered.ofJsonWithin? {i j : Json} (h : Reordered i j) (outer : Nat) :
    Op.ofJsonWithin? outer i = Op.ofJsonWithin? outer j := by
  rw [Op.ofJsonWithin?, Op.ofJsonWithin?, h.denotes_eq, h.depth_eq]
  split
  · refine rel_congr (f := (·.bind fun p => Op.ofContent? p.1 p.2)) h.untag? ?_
    rintro ⟨name, i⟩ ⟨name', j⟩ ⟨hname, hrest⟩
    obtain rfl : name = name' := hname
    exact hrest.ofContent? name
  · rfl

instance : OrderFree Op where
  ofJson?_eq h := h.ofJsonWithin? 0

def ops? : Json → Option (List Op)
  | .array l => readAll (Op.ofJsonWithin? 2) l
  | _ => none

theorem batch_ofJson? (j : Json) : (ofJson? j : Option Batch) =
    (j.fields? ["ops"]).bind fun f => ((f.get? "ops").bind ops?).map Batch.mk := by
  change ((j.fields? ["ops"]).bind fun f => _) = _
  congr
  funext f
  cases f.get? "ops" with
  | none => rfl
  | some j =>
    cases j
    case array l => exact (Option.map_eq_bind (x := readAll (Op.ofJsonWithin? 2) l)).symm
    all_goals rfl

instance : OrderFree Batch where
  ofJson?_eq {i j} h := by
    rw [batch_ofJson?, batch_ofJson?]
    refine h.bind_fields? fun f g hf => rel_congr (f := fun x => (x.bind ops?).map Batch.mk) (hf.get? "ops") ?_
    intro i j h
    have heq := h.readAll (g := ops?) (fun _ => rfl) (fun _ => rfl) fun _ _ h => h.ofJsonWithin? 2
    rw [Option.bind_some, Option.bind_some, heq]

instance : OrderFree MigrationRequest where
  ofJson?_eq h := h.bind_fields? fun f g hf => by simp only [hf.required, hf.defaulted]

instance : OrderFree Api.MigrateRequest where
  ofJson?_eq h := h.bind_fields? fun f g hf => by simp only [hf.required, hf.defaulted]

instance : OrderFree Api.ReattachRequest where
  ofJson?_eq h := h.bind_fields? fun f g hf => by simp only [hf.required, hf.defaulted]

instance : OrderFree Host where
  ofJson?_eq h := h.bind_fields? fun f g hf => by simp only [hf.required, hf.defaulted]

instance : OrderFree Node where
  ofJson?_eq h := h.bind_fields? fun f g hf => by simp only [hf.required, hf.defaulted]

instance : OrderFree MigrationKnobs where
  ofJson?_eq h := h.bind_fields? fun f g hf => by simp only [hf.defaulted]

instance : OrderFree TelemetryPaths where
  ofJson?_eq h := h.bind_fields? fun f g hf => by simp only [hf.defaulted]

instance : OrderFree Config where
  ofJson?_eq h := h.bind_fields? fun f g hf => by simp only [hf.required, hf.defaulted]

end Json

end LiveMigration
