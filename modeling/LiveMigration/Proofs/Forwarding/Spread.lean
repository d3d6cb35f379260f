import LiveMigration.Proofs.Forwarding.Service
import LiveMigration.Proofs.Net.Hash
import Mathlib.Data.Int.CardIntervalMod
import Mathlib.Data.Set.Card

namespace LiveMigration

theorem ncard_residue {m r : Nat} (hr : r < m) :
    {hash : UInt32 | hash.toNat % m = r}.ncard = 2 ^ 32 / m + if r < 2 ^ 32 % m then 1 else 0 := by
  have himage : UInt32.toNat '' {hash | hash.toNat % m = r} =
      ({n ∈ Finset.range (2 ^ 32) | n ≡ r [MOD m]} : Finset Nat) := by
    ext n
    simp only [Set.mem_image, Set.mem_ofPred_eq, Finset.coe_filter, Finset.mem_range, Nat.ModEq,
      Nat.mod_eq_of_lt hr]
    constructor
    · rintro ⟨hash, hmod, rfl⟩
      exact ⟨hash.toNat_lt, hmod⟩
    · rintro ⟨hn, hmod⟩
      exact ⟨.ofNat n, by rwa [UInt32.toNat_ofNat_of_lt' hn], UInt32.toNat_ofNat_of_lt' hn⟩
  have hinj : Function.Injective UInt32.toNat := fun _ _ => UInt32.toNat_inj.1
  rw [← Set.ncard_image_of_injective _ hinj, himage, Set.ncard_coe_finset,
    ← Nat.count_eq_card_filter_range, Nat.count_modEq_card _ (by omega), Nat.mod_eq_of_lt hr]

namespace Selection

variable {hash : UInt32} {eligible : List Bool} {i j n : Nat}

theorem activeSlots_sublist (eligible : List Bool) :
    (activeSlots eligible).Sublist (List.range' 0 eligible.length) := by
  rw [activeSlots, ← List.zipIdx_map_snd]
  generalize eligible.zipIdx = l
  induction l with
  | nil => exact .slnil
  | cons p l ih =>
    obtain ⟨ok, n⟩ := p
    cases ok with
    | true => exact ih.cons_cons n
    | false => exact ih.cons n

theorem nodup_activeSlots (eligible : List Bool) : (activeSlots eligible).Nodup :=
  (activeSlots_sublist eligible).nodup List.nodup_range'

theorem length_activeSlots_le (eligible : List Bool) :
    (activeSlots eligible).length ≤ eligible.length := by
  simpa using (activeSlots_sublist eligible).length_le

theorem select_of_ineligible (hi : eligible[i]? = some false)
    (hh : homeOf hash eligible.length = i) : select hash eligible =
      (activeSlots eligible)[hash.toNat / eligible.length % (activeSlots eligible).length]? := by
  have hlen : eligible.length ≠ 0 := by
    have := (List.getElem?_eq_some_iff.1 hi).1
    omega
  have hhome : eligible[homeOf hash eligible.length]? ≠ some true := by simp [hh, hi]
  simp only [select, if_neg hlen, if_neg hhome]

/-- The hashes that spill from a slot to the `n`th eligible one are those that leave one remainder. -/
theorem spills_iff (hi : eligible[i]? = some false) (hj : (activeSlots eligible)[n]? = some j) :
    homeOf hash eligible.length = i ∧ select hash eligible = some j ↔
      hash.toNat % (eligible.length * (activeSlots eligible).length) = i + eligible.length * n := by
  have hlt : i < eligible.length := (List.getElem?_eq_some_iff.1 hi).1
  have hn : n < (activeSlots eligible).length := (List.getElem?_eq_some_iff.1 hj).1
  -- The remainder tells the home slot and, by what is left of the hash after that, the eligible one.
  rw [Nat.mod_mul]
  constructor
  · rintro ⟨hh, hs⟩
    rw [select_of_ineligible hi hh, ← hj] at hs
    have hspill := (List.getElem?_inj hn (nodup_activeSlots eligible)).1 hs.symm
    rw [← hspill, ← hh, homeOf]
  · intro h
    have hh : homeOf hash eligible.length = i := by
      have hmod := congrArg (· % eligible.length) h
      simpa [homeOf, Nat.mod_eq_of_lt hlt] using hmod
    refine ⟨hh, ?_⟩
    rw [homeOf] at hh
    rw [hh, Nat.add_left_cancel_iff] at h
    rw [select_of_ineligible hi hh, Nat.eq_of_mul_eq_mul_left (by omega) h, hj]

/-- How many of the hashes that are at home in slot `i` are served by slot `j`. -/
noncomputable def received (eligible : List Bool) (i j : Nat) : Nat :=
  {hash | homeOf hash eligible.length = i ∧ select hash eligible = some j}.ncard

theorem received_eq (hi : eligible[i]? = some false) (hj : (activeSlots eligible)[n]? = some j) :
    received eligible i j = 2 ^ 32 / (eligible.length * (activeSlots eligible).length) +
      if i + eligible.length * n < 2 ^ 32 % (eligible.length * (activeSlots eligible).length)
        then 1 else 0 := by
  have hlt : i < eligible.length := (List.getElem?_eq_some_iff.1 hi).1
  have hn : n < (activeSlots eligible).length := (List.getElem?_eq_some_iff.1 hj).1
  have hr : i + eligible.length * n < eligible.length * (activeSlots eligible).length :=
    calc i + eligible.length * n < eligible.length + eligible.length * n := by omega
      _ = eligible.length * (n + 1) := by rw [Nat.mul_succ, Nat.add_comm]
      _ ≤ eligible.length * (activeSlots eligible).length := Nat.mul_le_mul_left _ hn
  rw [received, ← ncard_residue hr]
  congr
  ext hash
  exact spills_iff hi hj

/-- The hashes at home in a slot that is not eligible all go to eligible slots. Each of these gets some, and
none more than one more than another. -/
theorem spilled_evenly (hlen : eligible.length ≤ 65535) (hactive : true ∈ eligible)
    (hi : eligible[i]? = some false) :
    (∀ hash, homeOf hash eligible.length = i →
      ∃ j, select hash eligible = some j ∧ eligible[j]? = some true) ∧
    ∀ j, eligible[j]? = some true → 0 < received eligible i j ∧
      ∀ k, eligible[k]? = some true → received eligible i j ≤ received eligible i k + 1 := by
  refine ⟨?_, fun j hj => ?_⟩
  · intro hash _
    obtain ⟨j, hj⟩ := List.mem_iff_getElem?.1 hactive
    obtain ⟨k, hk⟩ : ∃ k, select hash eligible = some k := exists_select hj
    exact ⟨k, hk, eligible_of_select hk⟩
  · obtain ⟨n, hn⟩ := List.mem_iff_getElem?.1 (mem_activeSlots.2 hj)
    rw [received_eq hi hn]
    refine ⟨?_, fun k hk => ?_⟩
    · have hpos : 0 < eligible.length * (activeSlots eligible).length := by
        have hi' := (List.getElem?_eq_some_iff.1 hi).1
        have hn' := (List.getElem?_eq_some_iff.1 hn).1
        exact Nat.mul_pos (by omega) (by omega)
      have hle : eligible.length * (activeSlots eligible).length ≤ 65535 * 65535 :=
        Nat.mul_le_mul hlen ((length_activeSlots_le eligible).trans hlen)
      have hsome : 0 < 2 ^ 32 / (eligible.length * (activeSlots eligible).length) :=
        Nat.div_pos (hle.trans (by decide)) hpos
      omega
    · obtain ⟨m, hm⟩ := List.mem_iff_getElem?.1 (mem_activeSlots.2 hk)
      rw [received_eq hi hm]
      split <;> omega

theorem spilled_evenly_over_two :
    let eligible := [true, false, false, true]
    true ∈ eligible ∧ eligible[1]? = some false ∧ eligible[0]? = some true ∧ eligible[3]? = some true ∧
      homeOf 5 4 = 1 ∧ (∃ j, select 5 eligible = some j ∧ eligible[j]? = some true) ∧
      0 < received eligible 1 0 ∧ received eligible 1 0 ≤ received eligible 1 3 + 1 ∧
      received eligible 1 3 ≤ received eligible 1 0 + 1 := by
  intro eligible
  have hactive : true ∈ eligible := by decide
  have hi : eligible[1]? = some false := rfl
  obtain ⟨hall, heven⟩ := spilled_evenly (by decide) hactive hi
  obtain ⟨hpos, h03⟩ := heven 0 rfl
  obtain ⟨-, h30⟩ := heven 3 rfl
  exact ⟨hactive, hi, rfl, rfl, by decide, hall 5 (by decide), hpos, h03 3 rfl, h30 0 rfl⟩

end Selection

namespace FiveTuple

/-- How many of the flows between two addresses are at home in slot `j`. -/
noncomputable def atHome (src dst : Addr) (protocol : UInt8) (capacity : UInt16) (j : Nat) : Nat :=
  {ports | (between src dst protocol ports).homeSlot capacity = j}.ncard

theorem atHome_eq (src dst : Addr) (protocol : UInt8) {capacity : UInt16} {j : Nat}
    (hj : j < capacity.toNat) : atHome src dst protocol capacity j =
      2 ^ 32 / capacity.toNat + if j < 2 ^ 32 % capacity.toNat then 1 else 0 := by
  have hmax : max capacity.toNat 1 = capacity.toNat := Nat.max_eq_left (by omega)
  have hbij := hash_between_bijective src dst protocol
  have hpre : {ports | (between src dst protocol ports).homeSlot capacity = j} =
      Set.preimage (fun ports => (between src dst protocol ports).hash)
        {hash | hash.toNat % capacity.toNat = j} := by
    ext ports
    simp only [Set.mem_ofPred_eq, Set.mem_preimage, homeSlot, Selection.homeOf, hmax]
  rw [atHome, hpre, ← ncard_residue hj]
  exact Set.ncard_preimage_of_injective_subset_range hbij.injective fun _ _ => hbij.surjective _

/-- Different flows have different layouts, and different hashes if they differ in their ports only or in one
address only. So each hash is that of one flow between two addresses, and these flows are shared by the slots
of a group with at most one flow of a difference. -/
theorem flows_told_apart :
    Function.Injective bytes ∧
    (∀ t u : FiveTuple, t.Beside u → t ≠ u → t.hash ≠ u.hash) ∧
    ∀ src dst protocol,
      Function.Bijective (fun ports => (between src dst protocol ports).hash) ∧
      ∀ capacity j k, j < capacity.toNat → k < capacity.toNat →
        atHome src dst protocol capacity j ≤ atHome src dst protocol capacity k + 1 := by
  refine ⟨bytes_injective, fun t u hb hne h => hne (hb.eq_of_hash_eq h), fun src dst protocol => ?_⟩
  refine ⟨hash_between_bijective src dst protocol, fun capacity j k hj hk => ?_⟩
  rw [atHome_eq src dst protocol hj, atHome_eq src dst protocol hk]
  split <;> omega

theorem flows_told_apart_by_ports :
    let t := FiveTuple.tcp ⟨5⟩ 80 ⟨1⟩ 443
    let u := FiveTuple.tcp ⟨5⟩ 443 ⟨1⟩ 80
    t.Beside u ∧ t ≠ u ∧ t.hash ≠ u.hash ∧ atHome ⟨5⟩ ⟨1⟩ 6 3 0 ≤ atHome ⟨5⟩ ⟨1⟩ 6 3 2 + 1 := by
  intro t u
  obtain ⟨-, hapart, hflows⟩ := flows_told_apart
  have hb : t.Beside u := .inl ⟨443, 80, rfl⟩
  have hne : t ≠ u := by decide
  exact ⟨hb, hne, hapart t u hb hne, (hflows ⟨5⟩ ⟨1⟩ 6).2 3 0 2 (by decide) (by decide)⟩

end FiveTuple

end LiveMigration
