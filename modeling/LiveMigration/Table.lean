/-!
# Tables

Finite maps kept as strictly ascending association lists. The order of a key is a natural number, its
rank, so two tables with the same entries are the same table and every listing comes out in key order.
-/

namespace LiveMigration

universe u v

class Ranked (κ : Type u) where
  rank : κ → Nat
  rank_inj : ∀ {a b : κ}, rank a = rank b → a = b

export Ranked (rank rank_inj)

instance : Ranked UInt16 where
  rank n := n.toNat
  rank_inj := UInt16.toNat.inj

namespace Entries

variable {κ : Type u} {ν : Type v} [Ranked κ]

def Above (k : κ) (l : List (κ × ν)) : Prop := ∀ e ∈ l, rank k < rank e.1

def Ascending (l : List (κ × ν)) : Prop := l.Pairwise fun d e => rank d.1 < rank e.1

def find? (k : κ) : List (κ × ν) → Option ν
  | [] => none
  | (a, x) :: l => if rank a = rank k then some x else find? k l

def insert (k : κ) (y : ν) : List (κ × ν) → List (κ × ν)
  | [] => [(k, y)]
  | (a, x) :: l =>
    if rank k < rank a then (k, y) :: (a, x) :: l
    else if rank a = rank k then (k, y) :: l
    else (a, x) :: insert k y l

def erase (k : κ) : List (κ × ν) → List (κ × ν)
  | [] => []
  | (a, x) :: l => if rank a = rank k then l else (a, x) :: erase k l

@[simp] theorem ascending_nil : Ascending ([] : List (κ × ν)) := .nil

@[simp] theorem ascending_cons {e : κ × ν} {l : List (κ × ν)} :
    Ascending (e :: l) ↔ Above e.1 l ∧ Ascending l := List.pairwise_cons

theorem find?_eq_none_of_above {k : κ} {l : List (κ × ν)} (h : Above k l) : find? k l = none := by
  induction l with
  | nil => rfl
  | cons e l ih =>
    have he : rank k < rank e.1 := h e List.mem_cons_self
    rw [find?, if_neg (by omega)]
    exact ih fun d hd => h d (List.mem_cons_of_mem _ hd)

theorem mem_insert {k : κ} {y : ν} {l : List (κ × ν)} {e : κ × ν} (h : e ∈ insert k y l) :
    e = (k, y) ∨ e ∈ l := by
  induction l with
  | nil => simpa [insert] using h
  | cons d l ih =>
    simp only [insert] at h
    split at h
    · simpa using h
    · split at h
      · rcases List.mem_cons.mp h with h | h
        · exact .inl h
        · exact .inr (List.mem_cons_of_mem _ h)
      · rcases List.mem_cons.mp h with h | h
        · exact .inr (h ▸ List.mem_cons_self)
        · exact (ih h).imp_right (List.mem_cons_of_mem _)

theorem mem_of_mem_erase {k : κ} {l : List (κ × ν)} {e : κ × ν} (h : e ∈ erase k l) : e ∈ l := by
  induction l with
  | nil => exact h
  | cons d l ih =>
    simp only [erase] at h
    split at h
    · exact List.mem_cons_of_mem _ h
    · rcases List.mem_cons.mp h with h | h
      · exact h ▸ List.mem_cons_self
      · exact List.mem_cons_of_mem _ (ih h)

theorem ascending_insert {k : κ} {y : ν} {l : List (κ × ν)} (h : Ascending l) :
    Ascending (insert k y l) := by
  induction l with
  | nil => simp [insert, Above]
  | cons e l ih =>
    obtain ⟨ha, hl⟩ := ascending_cons.mp h
    simp only [insert]
    split
    · next hk =>
      refine ascending_cons.mpr ⟨fun d hd => ?_, h⟩
      rcases List.mem_cons.mp hd with rfl | hd
      · exact hk
      · exact Nat.lt_trans hk (ha d hd)
    · split
      · next hk => exact ascending_cons.mpr ⟨fun d hd => hk ▸ ha d hd, hl⟩
      · refine ascending_cons.mpr ⟨fun d hd => ?_, ih hl⟩
        rcases mem_insert hd with rfl | hd
        · show rank e.1 < rank k
          omega
        · exact ha d hd

theorem ascending_erase {k : κ} {l : List (κ × ν)} (h : Ascending l) : Ascending (erase k l) := by
  induction l with
  | nil => exact h
  | cons e l ih =>
    obtain ⟨ha, hl⟩ := ascending_cons.mp h
    simp only [erase]
    split
    · exact hl
    · exact ascending_cons.mpr ⟨fun d hd => ha d (mem_of_mem_erase hd), ih hl⟩

theorem find?_insert (k k' : κ) (y : ν) (l : List (κ × ν)) :
    find? k' (insert k y l) = if rank k = rank k' then some y else find? k' l := by
  induction l with
  | nil => rfl
  | cons e l ih =>
    simp only [insert]
    split
    · rfl
    · split
      · next hk => simp only [find?]; split <;> simp_all
      · simp only [find?, ih]; split <;> split <;> simp_all

theorem find?_erase {k k' : κ} {l : List (κ × ν)} (h : Ascending l) :
    find? k' (erase k l) = if rank k = rank k' then none else find? k' l := by
  induction l with
  | nil => simp [erase, find?]
  | cons e l ih =>
    obtain ⟨ha, hl⟩ := ascending_cons.mp h
    simp only [erase]
    split
    · next hk =>
      split
      · next hk' =>
        exact find?_eq_none_of_above fun d hd => by have := ha d hd; omega
      · simp only [find?]; split <;> simp_all
    · simp only [find?, ih hl]; split <;> split <;> simp_all

theorem find?_eq_none_iff {k : κ} {l : List (κ × ν)} : find? k l = none ↔ k ∉ l.map Prod.fst := by
  induction l with
  | nil => simp [find?]
  | cons e l ih =>
    simp only [find?, List.map_cons, List.mem_cons, not_or]
    split
    · next hk => simp [rank_inj hk]
    · next hk => simp [ih, show k ≠ e.1 from fun h => hk (h ▸ rfl)]

theorem mem_iff_find?_of_nodup {k : κ} {y : ν} {l : List (κ × ν)} (h : (l.map Prod.fst).Nodup) :
    (k, y) ∈ l ↔ find? k l = some y := by
  induction l with
  | nil => simp [find?]
  | cons e l ih =>
    obtain ⟨ha, hl⟩ := List.nodup_cons.mp h
    obtain ⟨a, x⟩ := e
    simp only [find?, List.mem_cons, Prod.mk.injEq, ih hl]
    split
    · next hk =>
      have := find?_eq_none_iff.mpr ha
      simp [← rank_inj hk, this, eq_comm]
    · next hk => simp [show k ≠ a from fun h => hk (h ▸ rfl)]

theorem Ascending.nodup_keys {l : List (κ × ν)} (h : Ascending l) : (l.map Prod.fst).Nodup := by
  refine List.pairwise_map.mpr (h.imp ?_)
  intro d e hlt he
  rw [he] at hlt
  exact Nat.lt_irrefl _ hlt

theorem mem_iff_find? {k : κ} {y : ν} {l : List (κ × ν)} (h : Ascending l) :
    (k, y) ∈ l ↔ find? k l = some y := mem_iff_find?_of_nodup h.nodup_keys

theorem ext {l m : List (κ × ν)} (hl : Ascending l) (hm : Ascending m)
    (h : ∀ k, find? k l = find? k m) : l = m := by
  induction l generalizing m with
  | nil =>
    cases m with
    | nil => rfl
    | cons e m => simpa [find?] using h e.1
  | cons d l ih =>
    cases m with
    | nil => simpa [find?] using h d.1
    | cons e m =>
      obtain ⟨da, hl⟩ := ascending_cons.mp hl
      obtain ⟨ea, hm⟩ := ascending_cons.mp hm
      have hr : rank d.1 = rank e.1 := by
        rcases Nat.lt_trichotomy (rank d.1) (rank e.1) with hlt | heq | hgt
        · have h1 := h d.1
          rw [find?_eq_none_of_above (l := e :: m) (fun c hc => by
            rcases List.mem_cons.mp hc with rfl | hc
            · exact hlt
            · exact Nat.lt_trans hlt (ea c hc))] at h1
          simp [find?] at h1
        · exact heq
        · have h1 := h e.1
          rw [find?_eq_none_of_above (l := d :: l) (fun c hc => by
            rcases List.mem_cons.mp hc with rfl | hc
            · exact hgt
            · exact Nat.lt_trans hgt (da c hc))] at h1
          simp [find?] at h1
      have hk : d.1 = e.1 := rank_inj hr
      have hv : d.2 = e.2 := by simpa [find?, hr] using h d.1
      have htail : l = m := ih hl hm fun k => by
        by_cases hk' : rank d.1 = rank k
        · rw [find?_eq_none_of_above (l := l) (fun c hc => hk' ▸ da c hc),
            find?_eq_none_of_above (l := m) (fun c hc => hk' ▸ hr ▸ ea c hc)]
        · simpa [find?, hk', hr ▸ hk'] using h k
      rw [htail, Prod.ext hk hv]

end Entries

/-- A finite map whose entries ascend by key. -/
structure Table (κ : Type u) (ν : Type v) [Ranked κ] where
  entries : List (κ × ν)
  ascending : Entries.Ascending entries

namespace Table

variable {κ : Type u} {ν : Type v} [Ranked κ]

def empty : Table κ ν := ⟨[], Entries.ascending_nil⟩

instance : EmptyCollection (Table κ ν) := ⟨empty⟩
instance : Inhabited (Table κ ν) := ⟨empty⟩

def get? (t : Table κ ν) (k : κ) : Option ν := Entries.find? k t.entries

def contains (t : Table κ ν) (k : κ) : Bool := (t.get? k).isSome

def insert (t : Table κ ν) (k : κ) (x : ν) : Table κ ν :=
  ⟨Entries.insert k x t.entries, Entries.ascending_insert t.ascending⟩

def erase (t : Table κ ν) (k : κ) : Table κ ν :=
  ⟨Entries.erase k t.entries, Entries.ascending_erase t.ascending⟩

def keys (t : Table κ ν) : List κ := t.entries.map Prod.fst

def values (t : Table κ ν) : List ν := t.entries.map Prod.snd

def size (t : Table κ ν) : Nat := t.entries.length

def ofList (l : List (κ × ν)) : Table κ ν := l.foldl (fun t e => t.insert e.1 e.2) empty

@[simp] theorem get?_empty (k : κ) : (∅ : Table κ ν).get? k = none := rfl

theorem get?_insert (t : Table κ ν) (k k' : κ) (x : ν) :
    (t.insert k x).get? k' = if rank k = rank k' then some x else t.get? k' :=
  Entries.find?_insert k k' x t.entries

theorem get?_erase (t : Table κ ν) (k k' : κ) :
    (t.erase k).get? k' = if rank k = rank k' then none else t.get? k' :=
  Entries.find?_erase t.ascending

@[simp] theorem get?_insert_self (t : Table κ ν) (k : κ) (x : ν) :
    (t.insert k x).get? k = some x := by simp [get?_insert]

theorem get?_insert_of_ne {t : Table κ ν} {k k' : κ} {x : ν} (h : k ≠ k') :
    (t.insert k x).get? k' = t.get? k' := by
  rw [get?_insert, if_neg fun e => h (rank_inj e)]

@[simp] theorem get?_erase_self (t : Table κ ν) (k : κ) : (t.erase k).get? k = none := by
  simp [get?_erase]

theorem get?_erase_of_ne {t : Table κ ν} {k k' : κ} (h : k ≠ k') :
    (t.erase k).get? k' = t.get? k' := by
  rw [get?_erase, if_neg fun e => h (rank_inj e)]

theorem mem_entries_iff {t : Table κ ν} {k : κ} {x : ν} :
    (k, x) ∈ t.entries ↔ t.get? k = some x := Entries.mem_iff_find? t.ascending

theorem ext_get? {s t : Table κ ν} (h : ∀ k, s.get? k = t.get? k) : s = t := by
  cases s; cases t
  congr
  exact Entries.ext ‹_› ‹_› h

theorem insert_comm {k k' : κ} (h : k ≠ k') (t : Table κ ν) (x y : ν) :
    (t.insert k x).insert k' y = (t.insert k' y).insert k x := by
  apply ext_get?
  intro a
  have hne : rank k ≠ rank k' := fun e => h (rank_inj e)
  simp only [get?_insert]
  split <;> split <;> first | rfl | omega

theorem get?_foldl_insert {l : List (κ × ν)} (h : (l.map Prod.fst).Nodup) (t : Table κ ν) (k : κ) :
    (l.foldl (fun t e => t.insert e.1 e.2) t).get? k = (Entries.find? k l).or (t.get? k) := by
  induction l generalizing t with
  | nil => rfl
  | cons e l ih =>
    obtain ⟨ha, hl⟩ := List.nodup_cons.mp h
    rw [List.foldl_cons, ih hl, get?_insert, Entries.find?]
    split
    · next hk =>
      have hnone : Entries.find? k l = none := Entries.find?_eq_none_iff.mpr (rank_inj hk ▸ ha)
      simp [hnone]
    · rfl

theorem get?_ofList {l : List (κ × ν)} (h : (l.map Prod.fst).Nodup) (k : κ) :
    (ofList l).get? k = Entries.find? k l := by
  rw [ofList, get?_foldl_insert h]
  exact Option.or_none

theorem ofList_entries (t : Table κ ν) : ofList t.entries = t :=
  ext_get? fun k => get?_ofList t.ascending.nodup_keys k

instance [DecidableEq κ] [DecidableEq ν] : DecidableEq (Table κ ν) := fun s t =>
  decidable_of_iff (s.entries = t.entries) (by cases s; cases t; simp)

end Table

end LiveMigration
