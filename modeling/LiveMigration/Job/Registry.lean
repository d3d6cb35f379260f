import LiveMigration.Job.Basic

namespace LiveMigration

structure Registry where
  jobs : List Job
  deriving DecidableEq, Inhabited, Repr

namespace Registry

def empty : Registry := ⟨[]⟩

def get? (r : Registry) (id : JobId) : Option Job := r.jobs.find? (·.id = id)

def insert (r : Registry) (j : Job) : Registry := ⟨r.jobs.filter (·.id ≠ j.id) ++ [j]⟩

def update (r : Registry) (id : JobId) (f : Job → Job) : Registry :=
  ⟨r.jobs.map fun j => if j.id = id && !j.isTerminal then f j else j⟩

def list (r : Registry) : List Job :=
  r.jobs.mergeSort fun i j => !j.submittedAt.before i.submittedAt

def running (r : Registry) : Nat := r.jobs.countP (!·.isTerminal)

@[simp] theorem get?_empty (id : JobId) : empty.get? id = none := rfl

theorem get?_insert (r : Registry) (j : Job) (id : JobId) :
    (r.insert j).get? id = if j.id = id then some j else r.get? id := by
  simp only [get?, insert, List.find?_append]
  by_cases h : j.id = id
  · subst h
    rw [show (r.jobs.filter (·.id ≠ j.id)).find? (·.id = j.id) = none by simp]
    simp
  · have : (r.jobs.filter (·.id ≠ j.id)).find? (·.id = id) = r.jobs.find? (·.id = id) := by
      induction r.jobs with
      | nil => rfl
      | cons i l ih =>
        by_cases hi : i.id = j.id
        · have : i.id ≠ id := fun e => h (hi ▸ e)
          simpa [List.filter_cons, hi, this, h] using ih
        · by_cases hid : i.id = id <;> simp_all
    rw [this]
    simp [h]

theorem get?_update (r : Registry) (id id' : JobId) {f : Job → Job}
    (hf : ∀ j, j.id = id → (f j).id = id) :
    (r.update id f).get? id' =
      (r.get? id').map fun j => if j.id = id && !j.isTerminal then f j else j := by
  simp only [get?, update]
  induction r.jobs with
  | nil => rfl
  | cons j l ih =>
    have hid : (if j.id = id && !j.isTerminal then f j else j).id = j.id := by
      split
      · rename_i hj
        have hj : j.id = id := by simp_all
        rw [hf j hj, hj]
      · rfl
    simp only [List.map_cons, List.find?_cons, hid]
    split
    · simp
    · exact ih

end Registry

end LiveMigration
