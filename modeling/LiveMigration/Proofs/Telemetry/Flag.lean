import LiveMigration.Telemetry.Publish
import LiveMigration.Proofs.Job.Sample
import LiveMigration.Proofs.Telemetry.Place

/-!
# Flag files

Jobs are published to one disk, their steps in any order. The flag is never half-written as long as no two jobs
that succeeded write it aside at once, and nothing else is written where it is.
-/

namespace LiveMigration

theorem Job.sampleText_ne_empty (j : Job) : j.sampleText ≠ "" := by
  intro h
  have hlength := congrArg String.length h
  simp [sampleText, sampleFields, String.join_cons] at hlength

namespace TelemetryPaths

variable {records : Option String} {flag : String} {j : Job} {jobs : List Job} {d : Disk} {q : Place}

theorem ofPath_record_ne (h : d.site (stagingPath flag) = .ok q) (dir : String) (j : Job) :
    Place.ofPath (Path.join dir (recordName j)) ≠ Place.ofPath (stagingPath flag) := by
  obtain ⟨-, -, name, hname, hpart, hup⟩ := Disk.site_eq_ok h
  obtain ⟨stem, rfl⟩ : ∃ stem, name = stem ++ "." ++ "tmp" := by
    have hextension : '/' ∉ "tmp".toList := by decide
    rcases Path.getLast?_pieces_setExtension (p := Path.dropExtension flag) hextension with
      ⟨hnone, hsame⟩ | ⟨stem, hstem⟩
    · rw [stagingPath, Path.withExtension, hsame] at hname
      rw [Path.fileName?_eq_some hname hpart hup] at hnone
      cases hnone
    · exact ⟨stem, Option.some.inj (hname.symm.trans hstem)⟩
  have htiming : ".timing".toList.all (fun c => c.isAlphanum || c = '.') = true := by decide
  have hrecord (c : Char) (hc : c ∈ (recordName j).toList) : c.isAlphanum = true ∨ c = '-' ∨ c = '.' := by
    rw [recordName, String.toList_append, JobId.text, String.toList_ofList] at hc
    rcases List.mem_append.1 hc with hc | hc
    · exact (JobId.isAlphanum_of_mem_chars hc).imp_right .inl
    · have hc : c.isAlphanum = true ∨ c = '.' := by simpa using List.all_eq_true.1 htiming c hc
      exact hc.imp_right .inr
  have hslash : '/' ∉ (recordName j).toList := fun hc => absurd (hrecord _ hc) (by decide)
  have hlast : (recordName j).toList.getLast? = some 'g' := by simp [recordName]
  have hne (s : String) (hs : s.toList.getLast? ≠ some 'g') : recordName j ≠ s := fun he => hs (he ▸ hlast)
  have hends : (stem ++ "." ++ "tmp").toList.getLast? ≠ some 'g' := by simp
  have hlast' : (Path.pieces (Path.join dir (recordName j))).getLast? = some (recordName j) :=
    Path.getLast?_pieces_join hslash
  have hpart' : Path.isPart (recordName j) = true := by
    simp [Path.isPart, hne "" (by decide), hne "." (by decide)]
  rw [Place.ofPath_eq_concat hname hpart hup, Place.ofPath_eq_concat hlast' hpart' (hne _ (by decide))]
  intro he
  have hname := congrArg List.getLast? he
  rw [List.getLast?_concat, List.getLast?_concat] at hname
  exact hne _ hends (Option.some.inj hname)

def dirPaths (records : Option String) (flag : String) : List String :=
  records.toList.flatMap Path.steps ++ Path.steps (Path.parent flag)

def recordPaths (records : Option String) (jobs : List Job) : List String :=
  records.toList.flatMap fun dir => jobs.map fun j => Path.join dir (recordName j)

def raiseActions (j : Job) (flag : String) : List Disk.Action :=
  [.create (stagingPath flag), .fill (stagingPath flag) j.sampleText, .rename (stagingPath flag) flag]

def IsEarlier (records : Option String) (flag : String) (j : Job) (a : Disk.Action) : Prop :=
  (∃ p ∈ dirPaths records flag, a = .ensureDir p) ∨
    ∃ p ∈ recordPaths records [j], a = .create p ∨ a = .fill p j.sampleText

theorem mem_recordPaths {p : String} :
    p ∈ recordPaths records jobs ↔ ∃ dir, records = some dir ∧ ∃ j ∈ jobs, Path.join dir (recordName j) = p := by
  simp [recordPaths]

theorem recordPaths_subset (hj : j ∈ jobs) : recordPaths records [j] ⊆ recordPaths records jobs := by
  intro p hp
  obtain ⟨dir, hdir, j', hj', hp⟩ := mem_recordPaths.1 hp
  rw [List.mem_singleton] at hj'
  exact mem_recordPaths.2 ⟨dir, hdir, j, hj, hj' ▸ hp⟩

theorem IsEarlier.mem_of_mem_paths {a : Disk.Action} (h : IsEarlier records flag j a) (hj : j ∈ jobs) :
    ∀ p ∈ a.paths, p ∈ dirPaths records flag ++ recordPaths records jobs := by
  rcases h with ⟨p, hp, rfl⟩ | ⟨p, hp, rfl | rfl⟩
  · exact List.forall_mem_singleton.2 (List.mem_append_left _ hp)
  · exact List.forall_mem_singleton.2 (List.mem_append_right _ (recordPaths_subset hj hp))
  · exact List.forall_mem_singleton.2 (List.mem_append_right _ (recordPaths_subset hj hp))

theorem IsEarlier.get?_staging {a : Disk.Action} {d₀ d' : Disk} {e : Entry} (h : IsEarlier records flag j a)
    (hact : d.act a = .ok d') (hsite : d₀.site (stagingPath flag) = .ok q)
    (he : d.get? (.ofPath (stagingPath flag)) = some e) : d'.get? (.ofPath (stagingPath flag)) = some e := by
  rcases h with ⟨p, hp, rfl⟩ | ⟨p, hp, ha⟩
  · rcases Disk.ensureDir_eq_ok hact with rfl | ⟨hnone, hget⟩
    · exact he
    · have hne : Place.ofPath (stagingPath flag) ≠ .ofPath p := by
        intro hp
        rw [← hp, he] at hnone
        cases hnone
      rw [hget, if_neg hne, he]
  · obtain ⟨dir, -, j', -, rfl⟩ := mem_recordPaths.1 hp
    have hpaths : a.paths = [Path.join dir (recordName j')] := by rcases ha with rfl | rfl <;> rfl
    rw [Disk.get?_act_of_ne hact, he]
    rw [hpaths, List.forall_mem_singleton]
    exact ofPath_record_ne hsite dir j'

theorem mem_dirActions {p : String} {a : Disk.Action} (h : a ∈ Disk.dirActions p) :
    ∃ q ∈ Path.steps p, a = .ensureDir q := by
  obtain ⟨q, hq, rfl⟩ := List.mem_map.1 h
  refine ⟨q, ?_, rfl⟩
  split at hq
  · rw [List.mem_singleton.1 hq]
    simp [Path.steps]
  · exact hq

theorem exists_actions_eq (records : Option String) (flag : String) (j : Job) :
    ∃ front, (∀ a ∈ front, IsEarlier records flag j a) ∧
      actions ⟨records, some flag⟩ j = front ++ if j.status = .succeeded then raiseActions j flag else [] := by
  have hrecord : ∀ a ∈ (records.map (recordActions j)).getD [], IsEarlier records flag j a := by
    cases records with
    | none => simp
    | some dir =>
      intro a ha
      rcases List.mem_append.1 ha with ha | ha
      · obtain ⟨p, hp, rfl⟩ := mem_dirActions ha
        exact .inl ⟨p, by simp [dirPaths, hp], rfl⟩
      · refine .inr ⟨Path.join dir (recordName j), ?_, ?_⟩
        · exact mem_recordPaths.2 ⟨dir, rfl, j, List.mem_singleton_self j, rfl⟩
        · simpa [Disk.writeActions] using ha
  by_cases hs : j.status = .succeeded
  · refine ⟨(records.map (recordActions j)).getD [] ++ Disk.dirActions (Path.parent flag), ?_, ?_⟩
    · intro a ha
      rcases List.mem_append.1 ha with ha | ha
      · exact hrecord a ha
      · obtain ⟨p, hp, rfl⟩ := mem_dirActions ha
        exact .inl ⟨p, by simp [dirPaths, hp], rfl⟩
    · simp [actions, hs, flagActions, raiseActions, Disk.writeActions]
  · exact ⟨_, hrecord, by simp [actions, hs]⟩

theorem mem_or_suffix_of_cons_suffix_append {α : Type} {a : α} {rest front back : List α}
    (h : a :: rest <:+ front ++ back) : (a ∈ front ∧ back <:+ rest) ∨ a :: rest <:+ back := by
  induction front with
  | nil => exact .inr h
  | cons b front ih =>
    rcases List.suffix_cons_iff.1 h with h | h
    · cases h
      exact .inl ⟨List.mem_cons_self, List.suffix_append ..⟩
    · exact (ih h).imp_left (.imp_left (List.mem_cons_of_mem b))

variable {a : Disk.Action} {rest : List Disk.Action}

theorem cons_suffix_actions (h : a :: rest <:+ actions ⟨records, some flag⟩ j) :
    IsEarlier records flag j a ∨ j.status = .succeeded ∧ a :: rest <:+ raiseActions j flag := by
  obtain ⟨front, hfront, heq⟩ := exists_actions_eq records flag j
  rw [heq] at h
  rcases mem_or_suffix_of_cons_suffix_append h with ⟨ha, -⟩ | h
  · exact .inl (hfront a ha)
  · split at h
    · next hs => exact .inr ⟨hs, h⟩
    · simp at h

theorem paths_or_eq_rename_of_suffix (h : a :: rest <:+ raiseActions j flag) :
    a.paths = [stagingPath flag] ∨ a = .rename (stagingPath flag) flag ∧ rest = [] := by
  simp only [raiseActions, List.suffix_cons_iff, List.suffix_nil, List.cons.injEq] at h
  rcases h with ⟨rfl, -⟩ | ⟨rfl, -⟩ | h | h
  · exact .inl rfl
  · exact .inl rfl
  · exact .inr h
  · cases h

theorem eq_fill_of_suffix (hs : j.status = .succeeded)
    (h : [a, .rename (stagingPath flag) flag] <:+ actions ⟨records, some flag⟩ j) :
    a = .fill (stagingPath flag) j.sampleText := by
  obtain ⟨front, -, heq⟩ := exists_actions_eq records flag j
  rw [heq, if_pos hs] at h
  rcases mem_or_suffix_of_cons_suffix_append h with ⟨-, h⟩ | h
  · exact absurd h.length_le (by simp [raiseActions])
  · simpa [raiseActions, List.suffix_cons_iff] using h

/-- Nothing but the flag is written where it is. -/
def Apart (records : Option String) (flag : String) (jobs : List Job) : Prop :=
  (Place.ofPath flag).isGiven = false →
    ∀ p ∈ stagingPath flag :: dirPaths records flag ++ recordPaths records jobs,
      Place.ofPath p ≠ Place.ofPath flag

instance (records : Option String) (flag : String) (jobs : List Job) : Decidable (Apart records flag jobs) :=
  inferInstanceAs (Decidable (_ → _))

end TelemetryPaths

structure Publisher where
  job : Job
  rest : List Disk.Action

/-- Jobs that are being published to one disk. What a publisher fills is the file that it created, as long as no
other one moves it. -/
structure Publication where
  disk : Disk
  publishers : List Publisher

def Publisher.IsStaging (flag : String) (p : Publisher) : Prop :=
  p.rest ≠ [] ∧ p.rest <:+ (TelemetryPaths.raiseActions p.job flag).tail

namespace Publication

open TelemetryPaths

def start (t : TelemetryPaths) (jobs : List Job) (d : Disk) : Publication :=
  ⟨d, jobs.map fun j => ⟨j, t.actions j⟩⟩

def advance (s : Publication) (i : Nat) : Publication :=
  match s.publishers[i]? with
  | some ⟨j, a :: rest⟩ =>
    match s.disk.act a with
    | .ok d => ⟨d, s.publishers.set i ⟨j, rest⟩⟩
    | .error _ => ⟨s.disk, s.publishers.set i ⟨j, []⟩⟩
  | _ => s

def run (s : Publication) (schedule : List Nat) : Publication := schedule.foldl advance s

theorem advance_cases (s : Publication) (i : Nat) : s.advance i = s ∨
    ∃ j a rest d rest', s.publishers[i]? = some ⟨j, a :: rest⟩ ∧
      s.advance i = ⟨d, s.publishers.set i ⟨j, rest'⟩⟩ ∧
      (s.disk.act a = .ok d ∧ rest' = rest ∨ d = s.disk ∧ rest' = []) := by
  unfold advance
  split
  · next j a rest hi =>
    split
    · next d hd => exact .inr ⟨j, a, rest, d, rest, hi, rfl, .inl ⟨hd, rfl⟩⟩
    · exact .inr ⟨j, a, rest, s.disk, [], hi, rfl, .inr ⟨rfl, rfl⟩⟩
  · exact .inl rfl

theorem run_done (j : Job) (d : Disk) (n : Nat) :
    run ⟨d, [⟨j, []⟩]⟩ (.replicate n 0) = ⟨d, [⟨j, []⟩]⟩ := by
  induction n with
  | zero => rfl
  | succ n ih =>
    rw [List.replicate_succ, run, List.foldl_cons]
    exact ih

theorem run_alone (j : Job) (actions : List Disk.Action) (d : Disk) :
    (run ⟨d, [⟨j, actions⟩]⟩ (.replicate actions.length 0)).disk = d.actAll actions := by
  induction actions generalizing d with
  | nil => rfl
  | cons a rest ih =>
    rw [List.length_cons, List.replicate_succ, run, List.foldl_cons, Disk.actAll]
    cases h : d.act a with
    | ok d' =>
      have hstep : advance ⟨d, [⟨j, a :: rest⟩]⟩ 0 = ⟨d', [⟨j, rest⟩]⟩ := by simp [advance, h]
      rw [hstep]
      exact ih d'
    | error e =>
      have hstep : advance ⟨d, [⟨j, a :: rest⟩]⟩ 0 = ⟨d, [⟨j, []⟩]⟩ := by simp [advance, h]
      rw [hstep, ← run, run_done]

theorem run_start_alone (t : TelemetryPaths) (j : Job) (d : Disk) :
    ((start t [j] d).run (.replicate (t.actions j).length 0)).disk = t.publish j d :=
  run_alone j (t.actions j) d

variable {records : Option String} {flag : String} {jobs : List Job} {d : Disk} {s : Publication} {i : Nat}
  {p : Publisher}

def Owned (records : Option String) (flag : String) (jobs : List Job) (s : Publication) : Prop :=
  ∀ p ∈ s.publishers, p.job ∈ jobs ∧ p.rest <:+ actions ⟨records, some flag⟩ p.job

theorem owned_start (records : Option String) (flag : String) (jobs : List Job) (d : Disk) :
    (start ⟨records, some flag⟩ jobs d).Owned records flag jobs := by
  intro p hp
  obtain ⟨j, hj, rfl⟩ := List.mem_map.1 hp
  exact ⟨hj, List.suffix_refl _⟩

theorem Owned.advance (h : s.Owned records flag jobs) (i : Nat) : (s.advance i).Owned records flag jobs := by
  rcases s.advance_cases i with hsame | ⟨j, a, rest, d, rest', hi, hstep, hdisk⟩
  · rwa [hsame]
  · obtain ⟨hj, hsuffix⟩ := h _ (List.mem_of_getElem? hi)
    rw [hstep]
    intro p hp
    rcases List.mem_or_eq_of_mem_set hp with hp | rfl
    · exact h p hp
    · refine ⟨hj, ?_⟩
      rcases hdisk with ⟨-, rfl⟩ | ⟨-, rfl⟩
      · exact (List.suffix_cons a rest').trans hsuffix
      · exact List.nil_suffix

theorem Owned.run (h : s.Owned records flag jobs) (schedule : List Nat) :
    (s.run schedule).Owned records flag jobs := by
  induction schedule generalizing s with
  | nil => exact h
  | cons i schedule ih => exact ih (h.advance i)

theorem get?_flag_advance (happart : Apart records flag jobs) (howned : s.Owned records flag jobs) (i : Nat) :
    (s.advance i).disk.get? (.ofPath flag) = s.disk.get? (.ofPath flag) ∨
      ∃ p text, s.publishers[i]? = some p ∧ p.job ∈ jobs ∧ p.job.status = .succeeded ∧
        p.rest = [.rename (stagingPath flag) flag] ∧ s.disk.get? (.ofPath (stagingPath flag)) = some (.file text) ∧
        (s.advance i).disk.get? (.ofPath flag) = some (.file text) := by
  cases hgiven : (Place.ofPath flag).isGiven with
  | true => exact .inl (by rw [Disk.get?_of_isGiven hgiven, Disk.get?_of_isGiven hgiven])
  | false =>
    have hne := happart hgiven
    rw [List.cons_append, List.forall_mem_cons] at hne
    rcases s.advance_cases i with hsame | ⟨j, a, rest, d, rest', hi, hstep, ⟨hact, -⟩ | ⟨rfl, -⟩⟩
    · exact .inl (by rw [hsame])
    · obtain ⟨hj, hsuffix⟩ := howned _ (List.mem_of_getElem? hi)
      rw [hstep]
      rcases cons_suffix_actions hsuffix with hearlier | ⟨hs, hraise⟩
      · exact .inl (Disk.get?_act_of_ne hact fun p hp => hne.2 p (hearlier.mem_of_mem_paths hj p hp))
      · rcases paths_or_eq_rename_of_suffix hraise with hpaths | ⟨rfl, rfl⟩
        · refine .inl (Disk.get?_act_of_ne hact ?_)
          rw [hpaths, List.forall_mem_singleton]
          exact hne.1
        · obtain ⟨text, htext, hget⟩ := Disk.rename_eq_ok hact
          exact .inr ⟨_, text, hi, hj, hs, rfl, htext, by rw [hget, if_pos rfl]⟩
    · exact .inl (by rw [hstep])

/-- No two publishers write the flag aside. -/
def Exclusive (flag : String) (s : Publication) : Prop :=
  ∀ (i k : Nat) (p q : Publisher), s.publishers[i]? = some p → s.publishers[k]? = some q →
    p.IsStaging flag → q.IsStaging flag → i = k

def Filled (flag : String) (s : Publication) : Prop :=
  ∀ (k : Nat) (p : Publisher), s.publishers[k]? = some p → p.job.status = .succeeded →
    p.rest = [.rename (stagingPath flag) flag] → (∃ d q, Disk.site d (stagingPath flag) = .ok q) ∧
      s.disk.get? (.ofPath (stagingPath flag)) = some (.file p.job.sampleText)

theorem filled_start (records : Option String) (flag : String) (jobs : List Job) (d : Disk) :
    (start ⟨records, some flag⟩ jobs d).Filled flag := by
  intro k p hp hs hrest
  obtain ⟨j, -, rfl⟩ := List.mem_map.1 (List.mem_of_getElem? hp)
  obtain ⟨front, -, heq⟩ := exists_actions_eq records flag j
  have hlength := congrArg List.length (heq.symm.trans hrest)
  rw [if_pos hs] at hlength
  simp [raiseActions] at hlength

theorem Filled.advance (h : s.Filled flag) (howned : s.Owned records flag jobs) (hs : s.Exclusive flag)
    (hs' : (s.advance i).Exclusive flag) : (s.advance i).Filled flag := by
  rcases s.advance_cases i with hsame | ⟨j, a, rest, d, rest', hi, hstep, hdisk⟩
  · rwa [hsame]
  · have hsuffix : a :: rest <:+ actions ⟨records, some flag⟩ j := (howned _ (List.mem_of_getElem? hi)).2
    rw [hstep] at hs' ⊢
    intro k q hk hsucceeded hrest
    have hi' : (s.publishers.set i ⟨j, rest'⟩)[i]? = some ⟨j, rest'⟩ := by
      rw [List.getElem?_set_self', hi]
      rfl
    by_cases hik : i = k
    · subst hik
      obtain rfl : ⟨j, rest'⟩ = q := Option.some.inj (hi'.symm.trans hk)
      rcases hdisk with ⟨hact, rfl⟩ | ⟨-, rfl⟩
      · obtain rfl : rest' = [.rename (stagingPath flag) flag] := hrest
        obtain rfl := eq_fill_of_suffix hsucceeded hsuffix
        obtain ⟨q, hq, -⟩ := Except.bind_eq_ok.1 hact
        exact ⟨⟨s.disk, q, hq⟩, by rw [Disk.fill_eq_ok hact, if_pos rfl]⟩
      · cases hrest
    · have hk' : s.publishers[k]? = some q := by rwa [List.getElem?_set_ne hik] at hk
      obtain ⟨⟨d₀, place, hsite⟩, hget⟩ := h k q hk' hsucceeded hrest
      refine ⟨⟨d₀, place, hsite⟩, ?_⟩
      rcases hdisk with ⟨hact, rfl⟩ | ⟨rfl, -⟩
      · rcases cons_suffix_actions hsuffix with hearlier | ⟨-, hraise⟩
        · exact hearlier.get?_staging hact hsite hget
        · -- Otherwise both publishers write the flag aside, before this step or after it.
          have hq : q.IsStaging flag := by
            rw [Publisher.IsStaging, hrest]
            exact ⟨List.cons_ne_nil _ _, List.suffix_cons _ _⟩
          refine absurd ?_ hik
          rcases List.suffix_cons_iff.1 hraise with heq | htail
          · obtain ⟨-, rfl⟩ := List.cons.inj heq
            exact hs' i k _ q hi' hk ⟨List.cons_ne_nil _ _, List.suffix_refl _⟩ hq
          · exact hs i k _ q hi hk' ⟨List.cons_ne_nil _ _, htail⟩ hq
      · exact hget

theorem map_job_advance (s : Publication) (i : Nat) :
    (s.advance i).publishers.map (·.job) = s.publishers.map (·.job) := by
  rcases s.advance_cases i with hsame | ⟨j, a, rest, d, rest', hi, hstep, -⟩
  · rw [hsame]
  · have hj : (s.publishers.map (·.job))[i]? = some j := by rw [List.getElem?_map, hi, Option.map_some]
    obtain ⟨hlt, hj⟩ := List.getElem?_eq_some_iff.1 hj
    rw [hstep, List.map_set, ← hj, List.set_getElem_self]

theorem map_job_run (s : Publication) (schedule : List Nat) :
    (s.run schedule).publishers.map (·.job) = s.publishers.map (·.job) := by
  induction schedule generalizing s with
  | nil => rfl
  | cons i schedule ih => exact (ih (s.advance i)).trans (s.map_job_advance i)

theorem succeeded_of_isStaging (h : p.IsStaging flag) (hp : p.rest <:+ actions ⟨records, some flag⟩ p.job) :
    p.job.status = .succeeded := by
  by_contra hs
  obtain ⟨front, hfront, heq⟩ := exists_actions_eq records flag p.job
  rw [if_neg hs, List.append_nil] at heq
  have hmem : Disk.Action.rename (stagingPath flag) flag ∈ p.rest := by
    obtain ⟨hne, htail⟩ := h
    simp only [raiseActions, List.tail_cons, List.suffix_cons_iff, List.suffix_nil, hne, or_false] at htail
    rcases htail with hrest | hrest <;> simp [hrest]
  rcases hfront _ (heq ▸ hp.subset hmem) with ⟨_, -, ha⟩ | ⟨_, -, ha | ha⟩ <;> cases ha

/-- If no two of the jobs succeeded then the flag is written aside by one at most, in whatever order they go. -/
theorem exclusive_run (h : jobs.Pairwise fun j j' => ¬(j.status = .succeeded ∧ j'.status = .succeeded)) (d : Disk)
    (schedule : List Nat) : ((start ⟨records, some flag⟩ jobs d).run schedule).Exclusive flag := by
  have howned := (owned_start records flag jobs d).run schedule
  have hjobs : ((start ⟨records, some flag⟩ jobs d).run schedule).publishers.map (·.job) = jobs := by
    rw [map_job_run, start, List.map_map]
    exact List.map_id jobs
  generalize (start ⟨records, some flag⟩ jobs d).run schedule = s at howned hjobs ⊢
  -- Only a job that succeeded writes the flag aside.
  have hapart := List.pairwise_iff_getElem.1 (List.pairwise_map.1 (hjobs ▸ h))
  have hsucceeded {i : Nat} {p : Publisher} (hp : s.publishers[i]? = some p) (hs : p.IsStaging flag) :
      p.job.status = .succeeded :=
    succeeded_of_isStaging hs (howned p (List.mem_of_getElem? hp)).2
  intro i k p q hp hq hsp hsq
  have hboth := And.intro (hsucceeded hp hsp) (hsucceeded hq hsq)
  obtain ⟨hi, rfl⟩ := List.getElem?_eq_some_iff.1 hp
  obtain ⟨hk, rfl⟩ := List.getElem?_eq_some_iff.1 hq
  rcases Nat.lt_trichotomy i k with hlt | heq | hlt
  · exact absurd hboth (hapart i k hi hk hlt)
  · exact heq
  · exact absurd hboth.symm (hapart k i hk hi hlt)

/-- Whether the flag is as it was on a disk, or holds the record of a job that succeeded. -/
def Intact (flag : String) (jobs : List Job) (d d' : Disk) : Prop :=
  d'.get? (.ofPath flag) = d.get? (.ofPath flag) ∨
    ∃ j ∈ jobs, j.status = .succeeded ∧ d'.get? (.ofPath flag) = some (.file j.sampleText)

theorem intact_run (happart : Apart records flag jobs) (howned : s.Owned records flag jobs) (hfilled : s.Filled flag)
    {schedule : List Nat} (hs : ∀ front, front <+: schedule → (s.run front).Exclusive flag)
    (h : Intact flag jobs d s.disk) : Intact flag jobs d (s.run schedule).disk := by
  induction schedule generalizing s with
  | nil => exact h
  | cons i schedule ih =>
    have hs₀ : s.Exclusive flag := hs [] List.nil_prefix
    have hs₁ : (s.advance i).Exclusive flag := hs [i] (List.cons_prefix_cons.2 ⟨rfl, List.nil_prefix⟩)
    refine ih (howned.advance i) (hfilled.advance howned hs₀ hs₁) ?_ ?_
    · intro front hfront
      exact hs (i :: front) (List.cons_prefix_cons.2 ⟨rfl, hfront⟩)
    · rcases get?_flag_advance happart howned i with hsame | ⟨p, text, hi, hj, hstatus, hrest, htext, hget⟩
      · rwa [Intact, hsame]
      · obtain ⟨-, hrecord⟩ := hfilled i p hi hstatus hrest
        refine .inr ⟨p.job, hj, hstatus, ?_⟩
        rw [hget, ← htext, hrecord]

theorem not_intact_of_empty {d' : Disk} (hd : d.get? (.ofPath flag) = none)
    (hd' : d'.get? (.ofPath flag) = some (.file "")) : ¬Intact flag jobs d d' := by
  rintro (hsame | ⟨j, -, -, hrecord⟩)
  · rw [hd, hd'] at hsame
    cases hsame
  · have heq : Entry.file "" = .file j.sampleText := Option.some.inj (hd'.symm.trans hrecord)
    exact j.sampleText_ne_empty (Entry.file.inj heq).symm

/-- A publisher that begins to write the flag aside before another has moved it empties the flag. -/
theorem emptied_of_overlap {k : Nat} {j j' : Job} {d₁ d₂ : Disk}
    (hi : s.publishers[i]? = some ⟨j, [.rename (stagingPath flag) flag]⟩)
    (hk : s.publishers[k]? = some ⟨j', raiseActions j' flag⟩) (hcreate : s.disk.create (stagingPath flag) = .ok d₁)
    (hrename : d₁.rename (stagingPath flag) flag = .ok d₂) :
    ((s.advance k).advance i).disk.get? (.ofPath flag) = some (.file "") := by
  have hne : k ≠ i := by
    rintro rfl
    rw [hk] at hi
    simp [raiseActions] at hi
  have hk' : s.advance k = ⟨d₁, s.publishers.set k ⟨j', (raiseActions j' flag).tail⟩⟩ := by
    simp [advance, hk, raiseActions, Disk.act, hcreate]
  have hi' : (s.advance k).publishers[i]? = some ⟨j, [.rename (stagingPath flag) flag]⟩ := by
    rw [hk', List.getElem?_set_ne hne, hi]
  have hdisk : ((s.advance k).advance i).disk = d₂ := by
    rw [advance, hi', hk']
    simp [Disk.act, hrename]
  obtain ⟨text, htext, hget⟩ := Disk.rename_eq_ok hrename
  rw [Disk.create_eq_ok hcreate, if_pos rfl] at htext
  rw [hdisk, hget, if_pos rfl, htext]

/-- As long as no two publishers write the flag aside at once, and nothing else is written where it is, its readers
find what was there before or the whole record of a job that succeeded. A job that did not succeed never changes it.
When two publishers do write it aside at once, the flag is empty if the one begins before the other has moved it. -/
theorem flag_whole_if_exclusive (happart : Apart records flag jobs) (d : Disk) (schedule : List Nat) :
    let s := (start ⟨records, some flag⟩ jobs d).run
    ((∀ front, front <+: schedule → (s front).Exclusive flag) →
      Intact flag jobs d (s schedule).disk ∧ ∀ text, (s schedule).disk.read flag = .ok text →
        d.get? (.ofPath flag) = some (.file text) ∨ ∃ j ∈ jobs, j.status = .succeeded ∧ text = j.sampleText) ∧
    (∀ i p, (s schedule).publishers[i]? = some p → p.job.status ≠ .succeeded →
      ((s schedule).advance i).disk.get? (.ofPath flag) = (s schedule).disk.get? (.ofPath flag)) ∧
    ∀ i k j j' d₁ d₂, (s schedule).publishers[i]? = some ⟨j, [.rename (stagingPath flag) flag]⟩ →
      (s schedule).publishers[k]? = some ⟨j', raiseActions j' flag⟩ →
      (s schedule).disk.create (stagingPath flag) = .ok d₁ → d₁.rename (stagingPath flag) flag = .ok d₂ →
      (((s schedule).advance k).advance i).disk.get? (.ofPath flag) = some (.file "") := by
  intro s
  have howned := owned_start records flag jobs d
  refine ⟨fun hs => ?_, fun i p hp hfailed => ?_, fun i k j j' d₁ d₂ => emptied_of_overlap⟩
  · have hintact : Intact flag jobs d (s schedule).disk :=
      intact_run happart howned (filled_start records flag jobs d) hs (.inl rfl)
    refine ⟨hintact, fun text hread => ?_⟩
    have htext := Disk.read_eq_ok hread
    rcases hintact with hsame | ⟨j, hj, hstatus, hrecord⟩
    · exact .inl (hsame.symm.trans htext)
    · have heq : Entry.file text = .file j.sampleText := Option.some.inj (htext.symm.trans hrecord)
      exact .inr ⟨j, hj, hstatus, Entry.file.inj heq⟩
  · rcases get?_flag_advance happart (howned.run schedule) i with hsame | ⟨q, -, hq, -, hsucceeded, -⟩
    · exact hsame
    · cases hp.symm.trans hq
      exact absurd hsucceeded hfailed

theorem flag_raised_beside_failure :
    let e : Endpoint := ⟨⟨⟨10⟩, ⟨.replicate 6 1⟩⟩, "a", 1, "web"⟩
    let j := { Job.new (.ofNat 1) e "b" none .auto ⟨0, 0⟩ with status := .succeeded }
    let j' := { Job.new (.ofNat 2) e "b" none .auto ⟨0, 0⟩ with status := .failed }
    let s := start ⟨some "records", some "flags/event"⟩ [j, j'] .empty
    let s := s.run [0, 1, 0, 0, 1, 0, 0, 1, 0, 0]
    Apart (some "records") "flags/event" [j, j'] ∧ Intact "flags/event" [j, j'] .empty s.disk ∧
      (s.disk.get? ["flags", "event"]).isSome = true := by
  intro e j j' s₀ s
  have happart : Apart (some "records") "flags/event" [j, j'] := by decide +kernel
  have hs (schedule : List Nat) : (s₀.run schedule).Exclusive "flags/event" :=
    exclusive_run (by decide) .empty schedule
  refine ⟨happart, ((flag_whole_if_exclusive happart .empty _).1 fun front _ => hs front).1, ?_⟩
  decide +kernel

/-- A flag can be half-written: two jobs that succeeded write it aside to one place, or it is written aside to its
own. And a job that failed can make a directory where it is. -/
theorem flag_seen_half_written :
    let e : Endpoint := ⟨⟨⟨10⟩, ⟨.replicate 6 1⟩⟩, "a", 1, "web"⟩
    let job n status := { Job.new (.ofNat n) e "b" none .auto ⟨0, 0⟩ with status }
    let j := job 1 .succeeded
    let j' := job 2 .succeeded
    ¬Intact "event" [j, j'] .empty ((start ⟨none, some "event"⟩ [j, j'] .empty).run [0, 0, 0, 1, 1, 0]).disk ∧
      ¬Intact "event.tmp" [j] .empty ((start ⟨none, some "event.tmp"⟩ [j] .empty).run [0, 0]).disk ∧
      Disk.get? .empty (.ofPath "event") = none ∧
      (TelemetryPaths.publish ⟨some "event/records", some "event"⟩ (job 3 .failed) .empty).get? (.ofPath "event") =
        some .directory := by
  intro e job j j'
  refine ⟨not_intact_of_empty ?_ ?_, not_intact_of_empty ?_ ?_, ?_, ?_⟩
  all_goals decide +kernel

end Publication

end LiveMigration
