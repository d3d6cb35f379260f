import Mathlib.Tactic.SplitIfs
import LiveMigration.Json.Decode

namespace LiveMigration

namespace Json

def Key.Clashes (a b : Key) : Prop := ∃ s, a.is s ∧ b.is s

/-- The same value, but for the order of members at any depth. Members with one key keep their order. -/
inductive Reordered : Json → Json → Prop
  | refl (j : Json) : Reordered j j
  | trans {i j k : Json} (h : Reordered i j) (h' : Reordered j k) : Reordered i k
  | swap {a b : Key × Json} (h : ¬ a.1.Clashes b.1) (l m : List (Key × Json)) :
    Reordered (.object (l ++ a :: b :: m)) (.object (l ++ b :: a :: m))
  | item {i j : Json} (h : Reordered i j) (l m : List Json) :
    Reordered (.array (l ++ i :: m)) (.array (l ++ j :: m))
  | member {i j : Json} (h : Reordered i j) (k : Key) (l m : List (Key × Json)) :
    Reordered (.object (l ++ (k, i) :: m)) (.object (l ++ (k, j) :: m))

theorem Key.Clashes.symm {a b : Key} (h : a.Clashes b) : b.Clashes a := h.imp fun _ h => h.symm

theorem Reordered.of_perm {l m : List (Key × Json)} (h : l.Perm m)
    (hk : l.Pairwise fun a b => ¬ a.1.Clashes b.1) : Reordered (.object l) (.object m) := by
  suffices hpre : ∀ pre, Reordered (.object (pre ++ l)) (.object (pre ++ m)) from hpre []
  induction h with
  | nil => exact fun _ => .refl _
  | cons a h ih =>
    intro pre
    simpa using ih (List.pairwise_cons.1 hk).2 (pre ++ [a])
  | swap a b l =>
    intro pre
    exact .swap ((List.pairwise_cons.1 hk).1 _ List.mem_cons_self) pre l
  | trans h h' ih ih' =>
    intro pre
    have hk' := (h.pairwise_iff fun hab hba => hab hba.symm).1 hk
    exact .trans (ih hk pre) (ih' hk' pre)

namespace Reordered

variable {i j : Json}

theorem congr_leaf {f : Json → β} {b : β} (ha : ∀ l, f (.array l) = b) (ho : ∀ l, f (.object l) = b)
    (h : Reordered i j) : f i = f j := by
  induction h with
  | refl j => rfl
  | trans _ _ ih ih' => exact ih.trans ih'
  | swap _ l m => rw [ho, ho]
  | item _ l m => rw [ha, ha]
  | member _ k l m => rw [ho, ho]

theorem eq_null_iff (h : Reordered i j) : i = .null ↔ j = .null := by
  have hcongr := congr_leaf (f := fun j => j = .null) (b := False) (by simp) (by simp) h
  exact iff_of_eq hcongr

theorem depthItems_append (l m : List Json) : depthItems (l ++ m) = max (depthItems l) (depthItems m) := by
  induction l with
  | nil => simp [depthItems]
  | cons j l ih => simp [depthItems, ih, Nat.max_assoc]

theorem depthMembers_append (l m : List (Key × Json)) :
    depthMembers (l ++ m) = max (depthMembers l) (depthMembers m) := by
  induction l with
  | nil => simp [depthMembers]
  | cons e l ih => simp [depthMembers, ih, Nat.max_assoc]

theorem denoteItems_append (l m : List Json) : denoteItems (l ++ m) = (denoteItems l && denoteItems m) := by
  induction l with
  | nil => simp [denoteItems]
  | cons j l ih => simp [denoteItems, ih, Bool.and_assoc]

theorem denoteMembers_append (l m : List (Key × Json)) :
    denoteMembers (l ++ m) = (denoteMembers l && denoteMembers m) := by
  induction l with
  | nil => simp [denoteMembers]
  | cons e l ih => simp [denoteMembers, ih, Bool.and_assoc]

theorem depth_eq (h : Reordered i j) : i.depth = j.depth := by
  induction h with
  | refl j => rfl
  | trans _ _ ih ih' => exact ih.trans ih'
  | swap _ l m => simp [depth, depthMembers_append, depthMembers, Nat.max_left_comm]
  | item _ l m ih => simp [depth, depthItems_append, depthItems, ih]
  | member _ k l m ih => simp [depth, depthMembers_append, depthMembers, ih]

theorem denotes_eq (h : Reordered i j) : i.denotes = j.denotes := by
  induction h with
  | refl j => rfl
  | trans _ _ ih ih' => exact ih.trans ih'
  | @swap a b _ l m => simp [denotes, denoteMembers_append, denoteMembers, Bool.and_left_comm]
  | item _ l m ih => simp [denotes, denoteItems_append, denoteItems, ih]
  | member _ k l m ih => simp [denotes, denoteMembers_append, denoteMembers, ih]

end Reordered

theorem rel_refl {r : α → α → Prop} (h : ∀ a, r a a) (x : Option α) : Option.Rel r x x := by
  cases x with
  | none => exact .none
  | some a => exact .some (h a)

theorem rel_trans {r : α → α → Prop} (h : ∀ a b c, r a b → r b c → r a c) {x y z : Option α}
    (hxy : Option.Rel r x y) (hyz : Option.Rel r y z) : Option.Rel r x z := by
  cases hxy with
  | none =>
    cases hyz
    exact .none
  | some hab =>
    cases hyz with
    | some hbc => exact .some (h _ _ _ hab hbc)

theorem rel_bind {r : α → α → Prop} {q : β → β → Prop} {x y : Option α} {f g : α → Option β}
    (h : Option.Rel r x y) (hf : ∀ a b, r a b → Option.Rel q (f a) (g b)) :
    Option.Rel q (x.bind f) (y.bind g) := by
  cases h with
  | none => exact .none
  | some h => exact hf _ _ h

theorem rel_map {r : α → α → Prop} {q : β → β → Prop} {x y : Option α} {f g : α → β}
    (h : Option.Rel r x y) (hf : ∀ a b, r a b → q (f a) (g b)) : Option.Rel q (x.map f) (y.map g) := by
  cases h with
  | none => exact .none
  | some h => exact .some (hf _ _ h)

theorem rel_congr {r : α → α → Prop} {x y : Option α} {f : Option α → β} (h : Option.Rel r x y)
    (hf : ∀ a b, r a b → f (some a) = f (some b)) : f x = f y := by
  cases h with
  | none => rfl
  | some h => exact hf _ _ h

def pick (l : List (String × Json)) (name : String) : Option Json := (l.find? (·.1 = name)).map (·.2)

theorem pick_cons (k name : String) (j : Json) (l : List (String × Json)) :
    pick ((k, j) :: l) name = if k = name then some j else pick l name := by
  by_cases h : k = name <;> simp [pick, h]

theorem any_eq_isSome_pick (l : List (String × Json)) (name : String) :
    l.any (·.1 = name) = (pick l name).isSome := by
  rw [pick, Option.isSome_map, List.isSome_find?]

def Matches (l m : List (String × Json)) : Prop := ∀ name, Option.Rel Reordered (pick l name) (pick m name)

namespace Matches

variable {l m n : List (String × Json)} {i j : Json} {k : String}

theorem refl (l : List (String × Json)) : Matches l l := fun name => rel_refl .refl (pick l name)

theorem trans (h : Matches l m) (h' : Matches m n) : Matches l n :=
  fun name => rel_trans (fun _ _ _ => .trans) (h name) (h' name)

theorem cons (k : String) (hj : Reordered i j) (h : Matches l m) : Matches ((k, i) :: l) ((k, j) :: m) := by
  intro name
  rw [pick_cons, pick_cons]
  split
  · exact .some hj
  · exact h name

theorem swap {k' : String} (hk : k ≠ k') (l : List (String × Json)) :
    Matches ((k, i) :: (k', j) :: l) ((k', j) :: (k, i) :: l) := by
  intro name
  have heq : pick ((k, i) :: (k', j) :: l) name = pick ((k', j) :: (k, i) :: l) name := by
    simp only [pick_cons]
    split_ifs with h h'
    · exact absurd (h.trans h'.symm) hk
    all_goals rfl
  rw [heq]
  exact refl _ name

theorem any_eq (h : Matches l m) (name : String) : l.any (·.1 = name) = m.any (·.1 = name) := by
  rw [any_eq_isSome_pick, any_eq_isSome_pick]
  exact rel_congr (h name) fun _ _ _ => rfl

theorem zip (names : List String) (hj : Reordered i j) (l m : List Json) :
    Matches (names.zip (l ++ i :: m)) (names.zip (l ++ j :: m)) := by
  induction names generalizing l with
  | nil => exact refl _
  | cons name names ih =>
    cases l with
    | nil => exact .cons name hj (refl _)
    | cons a l => exact .cons name (.refl a) (ih l)

end Matches

def keep (names : List String) (k : String) (j : Json) (l : List (String × Json)) :
    Option (List (String × Json)) :=
  if names.contains k then if l.any (·.1 = k) then none else some ((k, j) :: l) else some l

theorem known?_cons_of_some {names : List String} {k : Key} {s : String} (hk : k.text? = some s) (j : Json)
    (l : List (Key × Json)) : known? names ((k, j) :: l) = (known? names l).bind (keep names s j) := by
  simp only [known?, hk]
  rfl

theorem known?_cons_of_none {names : List String} {k : Key} (hk : k.text? = none) (j : Json)
    (l : List (Key × Json)) : known? names ((k, j) :: l) = none := by
  simp only [known?, hk]
  rfl

theorem keep_congr {names : List String} {k : String} {i j : Json} {l m : List (String × Json)}
    (hj : Reordered i j) (h : Matches l m) : Option.Rel Matches (keep names k i l) (keep names k j m) := by
  simp only [keep, h.any_eq]
  split_ifs
  · exact .none
  · exact .some (h.cons k hj)
  · exact .some h

theorem keep_comm (names : List String) {k k' : String} (hk : k ≠ k') (i j : Json)
    (l : List (String × Json)) : Option.Rel Matches ((keep names k' j l).bind (keep names k i))
      ((keep names k i l).bind (keep names k' j)) := by
  have hany : ((k', j) :: l).any (·.1 = k) = l.any (·.1 = k) := by simp [hk.symm]
  have hany' : ((k, i) :: l).any (·.1 = k') = l.any (·.1 = k') := by simp [hk]
  cases hs : names.contains k <;> cases hs' : names.contains k' <;>
    cases hr : l.any (·.1 = k) <;> cases hr' : l.any (·.1 = k') <;>
    simp only [keep, hs, hs', hr, hr', hany, hany', if_true, if_false, Bool.false_eq_true, Option.bind_some,
      Option.bind_none]
  all_goals first | exact .none | exact .some (Matches.refl _) | exact .some (Matches.swap hk l)

theorem known?_cons {names : List String} {l m : List (Key × Json)} {i j : Json} (k : Key) (hj : Reordered i j)
    (h : Option.Rel Matches (known? names l) (known? names m)) :
    Option.Rel Matches (known? names ((k, i) :: l)) (known? names ((k, j) :: m)) := by
  cases hk : k.text? with
  | none =>
    rw [known?_cons_of_none hk, known?_cons_of_none hk]
    exact .none
  | some s =>
    rw [known?_cons_of_some hk, known?_cons_of_some hk]
    exact rel_bind h fun _ _ => keep_congr hj

theorem known?_swap (names : List String) {a b : Key × Json} (h : ¬ a.1.Clashes b.1) (l : List (Key × Json)) :
    Option.Rel Matches (known? names (a :: b :: l)) (known? names (b :: a :: l)) := by
  obtain ⟨k, i⟩ := a
  obtain ⟨k', j⟩ := b
  cases hk : k.text? with
  | none =>
    cases hk' : k'.text? with
    | none =>
      rw [known?_cons_of_none hk, known?_cons_of_none hk']
      exact .none
    | some s' =>
      rw [known?_cons_of_none hk, known?_cons_of_some hk', known?_cons_of_none hk]
      exact .none
  | some s =>
    cases hk' : k'.text? with
    | none =>
      rw [known?_cons_of_some hk, known?_cons_of_none hk', known?_cons_of_none hk']
      exact .none
    | some s' =>
      have hne : s ≠ s' := by
        rintro rfl
        exact h ⟨s, by simp [Key.is, hk], by simp [Key.is, hk']⟩
      simp only [known?_cons_of_some hk, known?_cons_of_some hk']
      cases known? names l with
      | none => exact .none
      | some l => exact keep_comm names hne i j l

theorem known?_append {names : List String} {l m : List (Key × Json)}
    (h : Option.Rel Matches (known? names l) (known? names m)) (front : List (Key × Json)) :
    Option.Rel Matches (known? names (front ++ l)) (known? names (front ++ m)) := by
  induction front with
  | nil => exact h
  | cons e front ih => exact known?_cons e.1 (.refl e.2) ih

namespace Fields

structure Alike (f g : Fields) : Prop where
  positional : f.positional = g.positional
  found : Matches f.found g.found

theorem Alike.refl (f : Fields) : f.Alike f := ⟨rfl, .refl _⟩

theorem Alike.trans {f g k : Fields} (h : f.Alike g) (h' : g.Alike k) : f.Alike k :=
  ⟨h.positional.trans h'.positional, h.found.trans h'.found⟩

end Fields

theorem Reordered.fields? {i j : Json} (names : List String) (h : Reordered i j) :
    Option.Rel Fields.Alike (i.fields? names) (j.fields? names) := by
  induction h with
  | refl j => exact rel_refl .refl _
  | trans _ _ ih ih' => exact rel_trans (fun _ _ _ => .trans) ih ih'
  | swap h l m => exact rel_map (known?_append (known?_swap names h m) l) fun _ _ h => ⟨rfl, h⟩
  | item h l m =>
    simp only [Json.fields?, List.length_append, List.length_cons]
    split_ifs
    · exact .some ⟨rfl, .zip names h l m⟩
    · exact .none
  | member h k l m =>
    exact rel_map (known?_append (known?_cons k h (rel_refl .refl _)) l) fun _ _ h => ⟨rfl, h⟩

end Json

end LiveMigration
