import Mathlib.Data.List.Nodup
import LiveMigration.Job.Report
import LiveMigration.Proofs.Controller.History
import LiveMigration.Proofs.Net.Text
import LiveMigration.Proofs.Text.Lines

namespace LiveMigration

/-- Whether a text comes back from a line that ends with it. -/
def FitsLine (x : String) : Prop := '\n' ∉ x.toList ∧ x.toList.getLast? ≠ some '\r'

instance (x : String) : Decidable (FitsLine x) := inferInstanceAs (Decidable (_ ∧ _))

theorem FitsLine.of_forall {x : String} (h : ∀ c ∈ x.toList, c.isAlphanum = true ∨ c ∈ ['.', ':', '-', '_']) :
    FitsLine x :=
  ⟨fun hc => absurd (h _ hc) (by decide), fun hc => absurd (h _ (List.mem_of_getLast? hc)) (by decide)⟩

@[simp] theorem fitsLine_repr (n : Nat) : FitsLine n.repr := by
  refine .of_forall fun c hc => .inl (Text.isAlphanum_of_mem_decimal (n := n) ?_)
  simpa [Text.decimal] using hc

theorem JobId.isAlphanum_of_mem_chars {i : JobId} {c : Char} (h : c ∈ i.chars) :
    c.isAlphanum = true ∨ c = '-' := by
  let digits := Text.hex 32 i.bits.toNat
  let groups := [digits.take 8, (digits.drop 8).take 4, (digits.drop 12).take 4, (digits.drop 16).take 4,
    digits.drop 20]
  have hchars : i.chars = ['-'].intercalate groups := by
    simp [chars, groups, digits, List.intercalate_cons_cons]
  have hgroups : ∀ s ∈ groups, s ⊆ digits := by
    have htake (k n : Nat) : (digits.drop n).take k ⊆ digits :=
      List.Subset.trans (List.take_subset _ _) (List.drop_subset _ _)
    simp only [groups, List.forall_mem_cons, List.not_mem_nil, false_implies, implies_true, and_true]
    exact ⟨List.take_subset _ _, htake _ _, htake _ _, htake _ _, List.drop_subset _ _⟩
  rw [hchars] at h
  rcases Text.mem_intercalate h with rfl | ⟨s, hs, hc⟩
  · exact .inr rfl
  · exact .inl (Text.isAlphanum_of_mem_hex (hgroups s hs hc))

@[simp] theorem JobId.fitsLine_text (i : JobId) : FitsLine i.text := by
  refine .of_forall fun c hc => ?_
  rw [text, String.toList_ofList] at hc
  rcases isAlphanum_of_mem_chars hc with h | rfl
  · exact .inl h
  · exact .inr (by decide)

@[simp] theorem Addr.fitsLine_text (a : Addr) : FitsLine a.text := by
  refine .of_forall fun c hc => ?_
  rw [text, String.toList_ofList] at hc
  rcases isAlphanum_of_mem_chars hc with h | rfl
  · exact .inl h
  · exact .inr (by decide)

@[simp] theorem Mac.fitsLine_text (m : Mac) : FitsLine m.text := by
  refine .of_forall fun c hc => ?_
  rw [text, String.toList_ofList] at hc
  rcases isAlphanum_of_mem_chars hc with h | rfl
  · exact .inl h
  · exact .inr (by decide)

@[simp] theorem Binary64.fitsLine_fixed (places : Nat) (x : Binary64) :
    FitsLine (String.ofList (x.fixed places)) := by
  let n := roundDiv (x.ratio.1 * Nat.pow 10 places) x.ratio.2
  have hdigits : ∀ c ∈ Text.padZeros (places + 1) (Text.decimal n), c.isAlphanum = true := by
    intro c hc
    rcases List.mem_append.1 hc with hc | hc
    · rw [List.eq_of_mem_replicate hc]
      rfl
    · exact Text.isAlphanum_of_mem_decimal hc
  refine .of_forall fun c hc => ?_
  rw [String.toList_ofList, fixed, List.mem_append, List.mem_append] at hc
  rcases hc with (hc | hc) | hc
  · split at hc
    · rw [List.mem_singleton.1 hc]
      exact .inr (by decide)
    · cases hc
  · exact .inl (hdigits c (List.mem_of_mem_take hc))
  · split at hc
    · cases hc
    · rcases List.mem_cons.1 hc with rfl | hc
      · exact .inr (by decide)
      · exact .inl (hdigits c (List.mem_of_mem_drop hc))

@[simp] theorem JobStatus.fitsLine_name (s : JobStatus) : FitsLine s.name := by cases s <;> decide

@[simp] theorem Mode.fitsLine_name (m : Mode) : FitsLine m.name := by cases m <;> decide

@[simp] theorem TeardownPolicy.fitsLine_name (p : TeardownPolicy) : FitsLine p.name := by cases p <;> decide

@[simp] theorem DrainStatus.fitsLine_name (s : DrainStatus) : FitsLine s.name := by cases s <;> decide

@[simp] theorem Phase.fitsLine_name (p : Phase) : FitsLine p.name := by cases p <;> decide

@[simp] theorem ErrorKind.fitsLine_name (k : ErrorKind) : FitsLine k.name := by cases k <;> decide

namespace Job

@[simp] theorem fitsLine_boolText (b : Bool) : FitsLine (boolText b) := by cases b <;> decide

/-- The keys and values of a record, as a sampler reads them. -/
def readSample (text : String) : List (String × String) :=
  (Text.lines text.toList).filterMap fun line =>
    (Text.cutAtEquals line).map fun (key, value) => (String.ofList key, String.ofList value)

def sampleTable (j : Job) : List (String × Option String) :=
  [("job_id", some j.id.text), ("status", some j.status.name), ("mode", some j.mode.name),
    ("source_ip", some j.source.addr.text), ("source_mac", some j.source.mac.text),
    ("source_host", some j.source.host), ("target_host", some j.targetHost),
    ("target_ip", j.newIdentity.map (·.addr.text)), ("target_mac", j.newIdentity.map (·.mac.text)),
    ("teardown_policy", some j.teardownPolicy.name),
    ("snapshot_bytes", j.snapshotBytes.map (toString ·.toNat)),
    ("drain_status", j.drain.map (·.status.name)),
    ("drain_last_queue_bytes", (j.drain.bind (·.lastQueue)).map (toString ·.toNat))] ++
  j.timings.named.map (fun (name, x) => (name, x.map fun x => String.ofList (x.fixed 3))) ++
  [("failed_phase", j.diagnostic.map (·.phase.name)), ("error_kind", j.diagnostic.map (·.kind.name)),
    ("source_removed", j.diagnostic.map (boolText ·.sourceRemoved))]

variable {j : Job} {key value text : String} {fields : List (String × String)}

theorem sampleFields_eq (j : Job) :
    j.sampleFields = j.sampleTable.filterMap fun (name, x) => x.map fun x => (name, x) := by
  simp only [sampleTable, List.filterMap_append, List.filterMap_map, Function.comp_def, Option.map_map, sampleFields]
  cases j.newIdentity <;> cases j.snapshotBytes <;> cases j.diagnostic <;> cases j.drain with
  | none => rfl
  | some d => cases h : d.lastQueue <;> simp [h]

theorem mem_sampleFields : (key, value) ∈ j.sampleFields ↔ (key, some value) ∈ j.sampleTable := by
  simp [sampleFields_eq]

theorem nodup_sampleTable (j : Job) : (j.sampleTable.map Prod.fst).Nodup := by
  simp [sampleTable, Timings.named]

theorem fitsLine_of_mem_sampleTable (h : (key, some value) ∈ j.sampleTable) (hs : FitsLine j.source.host)
    (ht : FitsLine j.targetHost) : FitsLine value := by
  have hall : ∀ e ∈ j.sampleTable, ∀ x, e.2 = some x → FitsLine x := by
    simp only [sampleTable, List.forall_mem_append, List.forall_mem_cons, List.forall_mem_map]
    simp [hs, ht, Option.bind_eq_some_iff]
    rintro _ d - n - rfl
    exact fitsLine_repr _
  exact hall _ h value rfl

def sampleLines (fields : List (String × String)) : String :=
  String.join (fields.map fun (name, x) => name ++ "=" ++ x ++ "\n")

theorem sampleLines_break (front back : List (String × String)) (name x name' x' : String) :
    sampleLines (front ++ (name, x ++ "\n" ++ name' ++ "=" ++ x') :: back) =
      sampleLines (front ++ (name, x) :: (name', x') :: back) := by
  simp [sampleLines, String.join_append, String.join_cons, String.append_assoc]

theorem readSample_sampleLines
    (hkeys : ∀ f ∈ fields, '=' ∉ f.1.toList ∧ '\n' ∉ f.1.toList) (hvalues : ∀ f ∈ fields, '\n' ∉ f.2.toList) :
    readSample (sampleLines fields) =
      fields.map fun (name, x) => (name, String.ofList (Text.dropReturn x.toList)) := by
  induction fields with
  | nil => rfl
  | cons f fields ih =>
    obtain ⟨name, x⟩ := f
    rw [List.forall_mem_cons] at hkeys hvalues
    obtain ⟨⟨hequals, hname⟩, hkeys⟩ := hkeys
    obtain ⟨hx, hvalues⟩ := hvalues
    have hline : '\n' ∉ name.toList ++ '=' :: x.toList := by simp_all
    have htext : (sampleLines ((name, x) :: fields)).toList =
        (name.toList ++ '=' :: x.toList) ++ '\n' :: (sampleLines fields).toList := by
      simp [sampleLines, String.join_cons]
    have hreturn := Text.dropReturn_append_cons (r := x.toList) name.toList (show '=' ≠ '\r' by decide)
    rw [readSample, htext, Text.lines_append_cons hline, hreturn, List.filterMap_cons,
      Text.cutAtEquals_append_cons hequals, List.map_cons, ← ih hkeys hvalues]
    simp [readSample]

theorem not_mem_of_mem_readSample (h : (key, value) ∈ readSample text) : '\n' ∉ value.toList := by
  obtain ⟨line, hline, h⟩ := List.mem_filterMap.1 h
  obtain ⟨⟨k, v⟩, hcut, h⟩ := Option.map_eq_some_iff.1 h
  cases h
  have hne := Text.not_mem_of_mem_lines hline
  rw [Text.eq_append_of_cutAtEquals hcut] at hne
  simp_all

theorem plain_of_mem_sampleFields {f : String × String} (h : f ∈ j.sampleFields) :
    '=' ∉ f.1.toList ∧ '\n' ∉ f.1.toList := by
  have hall : ∀ name ∈ j.sampleTable.map Prod.fst, '=' ∉ name.toList ∧ '\n' ∉ name.toList := by
    simp only [sampleTable, Timings.named, List.map_append, List.map_cons, List.map_nil]
    decide
  exact hall _ (List.mem_map_of_mem (mem_sampleFields.1 h))

theorem nodup_sampleFields (j : Job) : (j.sampleFields.map Prod.fst).Nodup := by
  have hsub (l : List (String × Option String)) :
      ((l.filterMap fun (name, x) => x.map fun x => (name, x)).map Prod.fst).Sublist (l.map Prod.fst) := by
    induction l with
    | nil => exact .slnil
    | cons e l ih =>
      obtain ⟨name, _ | x⟩ := e
      · exact ih.cons _
      · exact ih.cons_cons _
  rw [sampleFields_eq]
  exact j.nodup_sampleTable.sublist (hsub _)

theorem readSample_sampleText (h : ∀ f ∈ j.sampleFields, '\n' ∉ f.2.toList) :
    readSample j.sampleText =
      j.sampleFields.map fun (name, x) => (name, String.ofList (Text.dropReturn x.toList)) :=
  readSample_sampleLines (fun _ => plain_of_mem_sampleFields) h

/-- A sampler finds each field of a record that is present, with its text, and nothing else, just if the names of
both hosts fit on a line. -/
theorem record_read_back_iff (j : Job) :
    (((readSample j.sampleText).map Prod.fst).Nodup ∧
      ∀ key value, (key, value) ∈ readSample j.sampleText ↔ (key, some value) ∈ j.sampleTable) ↔
    FitsLine j.source.host ∧ FitsLine j.targetHost := by
  constructor
  · rintro ⟨-, hread⟩
    have hbreak : ∀ f ∈ j.sampleFields, '\n' ∉ f.2.toList := fun f hf =>
      not_mem_of_mem_readSample ((hread f.1 f.2).2 (mem_sampleFields.1 hf))
    have hfits {key x} (h : (key, some x) ∈ j.sampleTable) : FitsLine x := by
      have hx : (key, x) ∈ j.sampleFields := mem_sampleFields.2 h
      refine ⟨hbreak _ hx, Text.dropReturn_eq_self_iff.1 ?_⟩
      have hmem := (hread key x).2 h
      rw [readSample_sampleText hbreak, List.mem_map] at hmem
      obtain ⟨⟨name, y⟩, hy, heq⟩ := hmem
      obtain ⟨rfl, hdrop⟩ : name = key ∧ String.ofList (Text.dropReturn y.toList) = x := Prod.mk.inj heq
      -- Each key is there once, so the line is that of the field itself.
      obtain ⟨-, rfl⟩ := Prod.mk.inj (List.inj_on_of_nodup_map j.nodup_sampleFields hy hx rfl)
      simpa using congrArg String.toList hdrop
    have hsource : ("source_host", some j.source.host) ∈ j.sampleTable := by simp [sampleTable]
    have htarget : ("target_host", some j.targetHost) ∈ j.sampleTable := by simp [sampleTable]
    exact ⟨hfits hsource, hfits htarget⟩
  · rintro ⟨hs, ht⟩
    have hfits {f} (hf : f ∈ j.sampleFields) : FitsLine f.2 :=
      fitsLine_of_mem_sampleTable (mem_sampleFields.1 hf) hs ht
    have hread : readSample j.sampleText = j.sampleFields := by
      rw [readSample_sampleText fun f hf => (hfits hf).1]
      refine (List.map_congr_left fun f hf => ?_).trans (List.map_id _)
      simp [Text.dropReturn_eq_self_iff.2 (hfits hf).2]
    rw [hread]
    exact ⟨j.nodup_sampleFields, fun key value => mem_sampleFields⟩

end Job

namespace Controller

/-- A host may have any name. Its line break makes the record of a cancelled job tell of a success too, and takes
the rest of the name away. -/
theorem record_tells_name_as_field :
    let name := "b\nstatus=succeeded"
    let config := Config.plain [⟨"a", "a", 1, "eth0", "/var"⟩, ⟨name, "b", 2, "eth0", "/var"⟩]
      [⟨⟨10⟩, ⟨.replicate 6 1⟩, "a", "web", none, true⟩]
    let c := idle config (config.provision.toOption.getD .empty)
    let now : Moment := ⟨0, 0, 0⟩
    let id := JobId.ofNat 7
    let w := c.watch [.submit now.wall id ⟨⟨10⟩, name, none⟩, .cancel id, .start now id]
    ofConfig config = .ok c ∧ ∃ j, w.controller.job? id = some j ∧ j.status = .cancelled ∧ j.targetHost = name ∧
      [("status", "cancelled"), ("target_host", "b"), ("status", "succeeded")] ⊆ Job.readSample j.sampleText := by
  intro name config c now id w
  let front := [("job_id", "00000000-0000-0000-0000-000000000007"), ("status", "cancelled"),
    ("mode", "same_identity"), ("source_ip", "0.0.0.10"), ("source_mac", "01:01:01:01:01:01"), ("source_host", "a")]
  let back := [("teardown_policy", "before_restore"), ("failed_phase", "idle"), ("error_kind", "cancelled"),
    ("source_removed", "false")]
  have hj : (w.controller.job? id).any (fun j => j.status = .cancelled ∧ j.targetHost = name ∧
      j.sampleFields = front ++ ("target_host", name) :: back) = true := by
    decide +kernel
  obtain ⟨j, hj, hfields⟩ := (Option.any_eq_true ..).1 hj
  obtain ⟨hstatus, hname, hfields⟩ := of_decide_eq_true hfields
  have htext : j.sampleText = Job.sampleLines (front ++ ("target_host", "b") :: ("status", "succeeded") :: back) := by
    rw [← Job.sampleLines_break, ← show name = "b" ++ "\n" ++ "status" ++ "=" ++ "succeeded" by rfl, ← hfields]
    rfl
  refine ⟨by rfl, j, hj, hstatus, hname, ?_⟩
  rw [htext, Job.readSample_sampleLines (by decide) (by decide)]
  decide

end Controller

end LiveMigration
