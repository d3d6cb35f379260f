import LiveMigration.Migration.Step

/-!
# Journals

What is seen of a migration from outside: that it was accepted, all that it does, and the outcomes of its
calls, in this order of time.
-/

namespace LiveMigration

inductive Occurrence
  | accepted (p : Plan)
  | did (e : Effect)
  | answered (c : Call) (o : Outcome c.Reply)

def Plan.traffic (config : Config) (p : Plan) : Batch := p.forwardingBatch (Turn.replyPort config)

theorem Plan.traffic_ne_retireBatch {config : Config} {p : Plan} : p.traffic config ≠ p.retireBatch := by
  simp [traffic, forwardingBatch, retireBatch]

namespace Journal

variable (l m : List Occurrence)

def call? : Occurrence → Option Call
  | .did (.call c) => some c
  | _ => none

def calls : List Call := l.filterMap call?

def written? : Occurrence → Option Batch
  | .did (.write b (.ok _)) => some b
  | _ => none

def written : List Batch := l.filterMap written?

def copy? : Occurrence → Option Snapshot
  | .answered (.capture ..) (.ok s) => some s
  | .answered (.transfer s _) (.ok d) => if Turn.isElsewhere d s then some d else none
  | _ => none

def copies : List Snapshot := l.filterMap copy?

def attempt? : Occurrence → Option Batch
  | .did (.write b _) => some b
  | _ => none

/-- The batches that were given to the store, whatever came of them. -/
def attempted : List Batch := l.filterMap attempt?

def published? : Occurrence → Option Job
  | .did (.publish j) => some j
  | _ => none

def published : List Job := l.filterMap published?

def deed? : Occurrence → Option Effect
  | .did e => some e
  | _ => none

def deeds : List Effect := l.filterMap deed?

def calling (cs : List Call) : List Occurrence := cs.map fun c => .did (.call c)

@[simp] theorem calls_nil : calls [] = [] := rfl
@[simp] theorem written_nil : written [] = [] := rfl
@[simp] theorem copies_nil : copies [] = [] := rfl
@[simp] theorem published_nil : published [] = [] := rfl
@[simp] theorem attempted_nil : attempted [] = [] := rfl

@[simp] theorem calls_append : calls (l ++ m) = calls l ++ calls m := List.filterMap_append
@[simp] theorem written_append : written (l ++ m) = written l ++ written m := List.filterMap_append
@[simp] theorem copies_append : copies (l ++ m) = copies l ++ copies m := List.filterMap_append
@[simp] theorem published_append : published (l ++ m) = published l ++ published m := List.filterMap_append
@[simp] theorem deeds_append : deeds (l ++ m) = deeds l ++ deeds m := List.filterMap_append
@[simp] theorem attempted_append : attempted (l ++ m) = attempted l ++ attempted m := List.filterMap_append

theorem filterMap_cons_eq (l : List α) (f : α → Option β) (e : α) :
    (e :: l).filterMap f = (f e).toList ++ l.filterMap f := by
  cases h : f e <;> simp [h]

@[simp] theorem calls_cons (e : Occurrence) : calls (e :: l) = (call? e).toList ++ calls l :=
  filterMap_cons_eq l call? e

@[simp] theorem written_cons (e : Occurrence) : written (e :: l) = (written? e).toList ++ written l :=
  filterMap_cons_eq l written? e

@[simp] theorem copies_cons (e : Occurrence) : copies (e :: l) = (copy? e).toList ++ copies l :=
  filterMap_cons_eq l copy? e

@[simp] theorem published_cons (e : Occurrence) :
    published (e :: l) = (published? e).toList ++ published l :=
  filterMap_cons_eq l published? e

@[simp] theorem attempted_cons (e : Occurrence) :
    attempted (e :: l) = (attempt? e).toList ++ attempted l :=
  filterMap_cons_eq l attempt? e

@[simp] theorem calls_calling (cs : List Call) : calls (calling cs) = cs := by
  induction cs with
  | nil => rfl
  | cons c cs ih => exact congrArg (c :: ·) ih

theorem filterMap_calling {f : Occurrence → Option α} (h : ∀ c, f (.did (.call c)) = none)
    (cs : List Call) : (calling cs).filterMap f = [] := by
  simp [calling, h]

@[simp] theorem written_calling (cs : List Call) : written (calling cs) = [] :=
  filterMap_calling (fun _ => rfl) cs

@[simp] theorem copies_calling (cs : List Call) : copies (calling cs) = [] :=
  filterMap_calling (fun _ => rfl) cs

@[simp] theorem published_calling (cs : List Call) : published (calling cs) = [] :=
  filterMap_calling (fun _ => rfl) cs

@[simp] theorem attempted_calling (cs : List Call) : attempted (calling cs) = [] :=
  filterMap_calling (fun _ => rfl) cs

@[simp] theorem deeds_map_did (es : List Effect) : deeds (es.map .did) = es := by
  induction es with
  | nil => rfl
  | cons e es ih => exact congrArg (e :: ·) ih

variable {l} {e : Occurrence}

theorem call?_eq_some : call? e = some c ↔ e = .did (.call c) := by
  constructor
  · intro h
    unfold call? at h
    split at h
    · cases h
      rfl
    · cases h
  · rintro rfl
    rfl

theorem published?_eq_some : published? e = some j ↔ e = .did (.publish j) := by
  constructor
  · intro h
    unfold published? at h
    split at h
    · cases h
      rfl
    · cases h
  · rintro rfl
    rfl

theorem written?_eq_some : written? e = some b ↔ ∃ c, e = .did (.write b (.ok c)) := by
  constructor
  · intro h
    unfold written? at h
    split at h
    · cases h
      exact ⟨_, rfl⟩
    · cases h
  · rintro ⟨c, rfl⟩
    rfl

theorem attempt?_eq_some : attempt? e = some b ↔ ∃ r, e = .did (.write b r) := by
  constructor
  · intro h
    unfold attempt? at h
    split at h
    · cases h
      exact ⟨_, rfl⟩
    · cases h
  · rintro ⟨r, rfl⟩
    rfl

theorem mem_calls : c ∈ calls l ↔ .did (.call c) ∈ l := by
  simp [calls, call?_eq_some]

theorem mem_published : j ∈ published l ↔ .did (.publish j) ∈ l := by
  simp [published, published?_eq_some]

theorem mem_written : b ∈ written l ↔ ∃ c, .did (.write b (.ok c)) ∈ l := by
  simp only [written, List.mem_filterMap, written?_eq_some]
  constructor
  · rintro ⟨e, he, c, rfl⟩
    exact ⟨c, he⟩
  · rintro ⟨c, h⟩
    exact ⟨_, h, c, rfl⟩

theorem mem_attempted : b ∈ attempted l ↔ ∃ r, .did (.write b r) ∈ l := by
  simp only [attempted, List.mem_filterMap, attempt?_eq_some]
  constructor
  · rintro ⟨e, he, r, rfl⟩
    exact ⟨r, he⟩
  · rintro ⟨r, h⟩
    exact ⟨_, h, r, rfl⟩

theorem written_of_attempted (h : attempted l = []) : written l = [] := by
  rw [List.eq_nil_iff_forall_not_mem]
  intro b hb
  obtain ⟨c, hb⟩ := mem_written.1 hb
  have ha := mem_attempted.2 ⟨_, hb⟩
  rw [h] at ha
  cases ha

end Journal

end LiveMigration
