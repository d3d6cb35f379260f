import LiveMigration.Proofs.Forwarding.Isolation

namespace LiveMigration

namespace Table

variable {κ : Type u} {ν : Type v} [Ranked κ]

def set (t : Table κ ν) (k : κ) : Option ν → Table κ ν
  | none => t.erase k
  | some x => t.insert k x

def update (t : Table κ ν) (k : κ) (f : ν → ν) : Table κ ν :=
  match t.get? k with
  | none => t
  | some x => t.insert k (f x)

theorem get?_set (t : Table κ ν) (k k' : κ) (x : Option ν) :
    (t.set k x).get? k' = if rank k = rank k' then x else t.get? k' := by
  cases x with
  | none => exact t.get?_erase k k'
  | some x => exact t.get?_insert k k' x

@[simp] theorem get?_set_self (t : Table κ ν) (k : κ) (x : Option ν) : (t.set k x).get? k = x := by
  simp [get?_set]

theorem get?_set_of_ne {t : Table κ ν} {k k' : κ} {x : Option ν} (h : k ≠ k') :
    (t.set k x).get? k' = t.get? k' := by
  rw [get?_set, if_neg fun e => h (rank_inj e)]

theorem get?_update (t : Table κ ν) (k k' : κ) (f : ν → ν) :
    (t.update k f).get? k' = if rank k = rank k' then (t.get? k').map f else t.get? k' := by
  unfold update
  split
  · next h =>
    split
    · next hk => rw [← rank_inj hk, h, Option.map_none]
    · rfl
  · next x h =>
    rw [get?_insert]
    split
    · next hk => rw [← rank_inj hk, h, Option.map_some]
    · rfl

theorem set_comm {k k' : κ} (h : k ≠ k') (t : Table κ ν) (x y : Option ν) :
    (t.set k x).set k' y = (t.set k' y).set k x := by
  apply ext_get?
  intro a
  have hne : rank k ≠ rank k' := fun e => h (rank_inj e)
  simp only [get?_set]
  grind

theorem update_comm {k k' : κ} {f g : ν → ν} (h : k = k' → ∀ x, f (g x) = g (f x)) (t : Table κ ν) :
    (t.update k f).update k' g = (t.update k' g).update k f := by
  apply ext_get?
  intro a
  simp only [get?_update]
  split
  · split
    · next hk' hk =>
      rw [Option.map_map, Option.map_map]
      congr 1
      funext x
      exact (h (rank_inj (hk.trans hk'.symm)) x).symm
    · rfl
  · rfl

theorem erase_comm (t : Table κ ν) (k k' : κ) : (t.erase k).erase k' = (t.erase k').erase k := by
  apply ext_get?
  intro a
  simp only [get?_erase]
  grind

end Table

def Group.give (g : Group) (i : UInt16) (addr : Addr) : Group :=
  { g with slots := g.slots.modify i.toNat (Option.map fun m => { m with endpoint := addr }) }

namespace Group

variable {g : Group} {i j : UInt16} {addr : Addr}

theorem give_comm (h : i ≠ j) (g : Group) (addr addr' : Addr) :
    (g.give i addr).give j addr' = (g.give j addr').give i addr := by
  have hne : i.toNat ≠ j.toNat := fun e => h (UInt16.toNat_inj.1 e)
  simp only [give, mk.injEq, true_and]
  apply List.ext_getElem?
  intro k
  simp only [List.getElem?_modify]
  by_cases hi : i.toNat = k
  · have hj : j.toNat ≠ k := fun e => hne (hi.trans e.symm)
    simp [hi, hj]
  · simp [hi]

theorem member?_give (g : Group) (i j : UInt16) (addr : Addr) : (g.give i addr).member? j =
    if i = j then (g.member? j).map fun m => { m with endpoint := addr } else g.member? j := by
  simp only [member?, give, List.getElem?_modify, UInt16.toNat_inj]
  split
  · cases g.slots[j.toNat]? <;> rfl
  · cases g.slots[j.toNat]? <;> rfl

theorem give_eq_setSlot {m : Member} (h : g.slots[i.toNat]? = some (some m)) (addr : Addr) :
    g.give i addr = g.setSlot i (some { m with endpoint := addr }) := by
  simp only [give, setSlot, mk.injEq, true_and]
  apply List.ext_getElem?
  intro k
  rw [List.getElem?_modify, List.getElem?_set']
  split
  · next hk =>
    rw [← hk, h]
    rfl
  · simp

end Group

structure Patch where
  addr : Addr
  endpoint : Option Endpoint
  rule : Option Rule
  slot : Option (Addr × UInt16)
  port : Option UInt16

def Tables.patch (t : Tables) (P : Patch) : Tables where
  groups := P.slot.elim t.groups fun (vip, i) => t.groups.update vip fun g => g.give i P.addr
  endpoints := t.endpoints.set P.addr P.endpoint
  rules := t.rules.set P.addr P.rule
  nat := P.port.elim t.nat t.nat.erase

namespace Tables

variable {t : Tables} {P Q : Patch}

/-- Patches of different addresses and slots commute, even if both drop the reply rule of one port. -/
theorem patch_comm (ha : P.addr ≠ Q.addr) (hs : ∀ slot, P.slot = some slot → Q.slot ≠ some slot) (t : Tables) :
    (t.patch P).patch Q = (t.patch Q).patch P := by
  simp only [patch, mk.injEq]
  refine ⟨?_, Table.set_comm ha .., Table.set_comm ha .., ?_⟩
  · cases hP : P.slot with
    | none => rfl
    | some p =>
      cases hQ : Q.slot with
      | none => rfl
      | some q =>
        refine Table.update_comm (fun hv g => ?_) t.groups
        refine Group.give_comm (fun hi => ?_) g ..
        exact hs p hP (hQ.trans (congrArg some (Prod.ext hv.symm hi)))
  · cases P.port with
    | none => rfl
    | some port =>
      cases Q.port with
      | none => rfl
      | some port' => exact t.nat.erase_comm port port'

section

variable {addr vip : Addr} {i : UInt16}

theorem group_patch (hs : P.slot = some (vip, i)) (t : Tables) (v : Addr) : (t.patch P).groups.get? v =
    if vip = v then (t.groups.get? v).map (·.give i P.addr) else t.groups.get? v := by
  simp only [patch, hs, Option.elim_some, Table.get?_update]
  by_cases hv : vip = v
  · simp [hv]
  · rw [if_neg hv, if_neg fun e => hv (rank_inj e)]

theorem slotsOf_patch_of_ne (hs : P.slot ≠ some (vip, i)) (t : Tables) (a : Addr) :
    (t.patch P).slotsOf a vip i = t.slotsOf a vip i := by
  cases hP : P.slot with
  | none => simp [slotsOf, patch, hP]
  | some slot =>
    obtain ⟨v, j⟩ := slot
    simp only [slotsOf, group_patch hP]
    split
    · next hv =>
      subst hv
      have hj : j ≠ i := by
        rintro rfl
        exact hs hP
      cases t.groups.get? v with
      | none => rfl
      | some g => simp [Group.member?_give, hj]
    · rfl

theorem slotsOf_patch {m : Member} (hs : P.slot = some (vip, i)) (hm : t.slotsOf addr vip i = some m) (a : Addr) :
    (t.patch P).slotsOf a vip i = if P.addr = a then some { m with endpoint := P.addr } else none := by
  obtain ⟨hm, -⟩ := Option.filter_eq_some_iff.1 hm
  obtain ⟨g, hg, hm⟩ := Option.bind_eq_some_iff.1 hm
  simp only [slotsOf, group_patch hs, hg, if_pos, Option.map_some, Option.bind_some, Group.member?_give, hm]
  split
  · next h => simp [h]
  · next h => simp [h]

end

end Tables

end LiveMigration
