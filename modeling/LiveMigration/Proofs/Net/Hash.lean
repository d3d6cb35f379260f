import LiveMigration.Net.Flow
import Mathlib.Data.FinEnum
import Mathlib.SetTheory.Cardinal.Finite

/-!
# Hashes

What the checksum, and with it the hash of a flow, tells apart. Moving the register on is linear and can be
undone, and up to 32 bits in a row do not meet in it. So messages that differ within four bytes in a row
have different checksums, and an address or both ports are four such bytes of a flow.
-/

namespace LiveMigration

namespace Checksum

variable {r s : Register} {m m' : List Bool}

theorem shift_xor (r s : Register) : shift (r ^^^ s) = shift r ^^^ shift s := by
  simp only [shift, BitVec.getLsbD_xor, BitVec.ushiftRight_xor_distrib]
  cases r.getLsbD 0 <;> cases s.getLsbD 0
  · rfl
  · simp only [Bool.false_xor, if_true, Bool.false_eq_true, if_false]
    ac_rfl
  · simp only [Bool.xor_false, if_true, Bool.false_eq_true, if_false]
    ac_rfl
  · simp only [Bool.xor_self, if_true, Bool.false_eq_true, if_false]
    calc r >>> 1 ^^^ s >>> 1 = r >>> 1 ^^^ s >>> 1 ^^^ (polynomial ^^^ polynomial) := by simp
      _ = r >>> 1 ^^^ polynomial ^^^ (s >>> 1 ^^^ polynomial) := by ac_rfl

theorem eq_zero_of_shift (h : shift r = 0#32) : r = 0#32 := by
  have hlow : r.getLsbD 0 = false := by
    rw [Bool.eq_false_iff]
    intro hr
    rw [shift, if_pos hr] at h
    have htop := congrArg (·.getLsbD 31) h
    simp [polynomial] at htop
  rw [shift, hlow] at h
  apply BitVec.eq_of_getLsbD_eq
  intro i hi
  cases i with
  | zero => simpa using hlow
  | succ i =>
    have hbit := congrArg (·.getLsbD i) h
    simpa [Nat.add_comm] using hbit

theorem shift_injective : Function.Injective shift := by
  intro r s h
  have hz : shift (r ^^^ s) = 0#32 := by rw [shift_xor, h, BitVec.xor_self]
  exact BitVec.xor_eq_zero_iff.1 (eq_zero_of_shift hz)

theorem run_injective (m : List Bool) : Function.Injective (run · m) := by
  induction m with
  | nil => exact Function.injective_id
  | cons b m ih =>
    have hfeed : Function.Injective (feed · b) :=
      fun _ _ h => (BitVec.xor_left_inj _).1 (shift_injective h)
    exact ih.comp hfeed

def word (m : List Bool) : Register := (BitVec.ofBoolListLE m).setWidth 32

theorem getElem_word (m : List Bool) {i : Nat} (hi : i < 32) : (word m)[i] = m.getD i false := by
  rw [← BitVec.getLsbD_eq_getElem, word, BitVec.getLsbD_setWidth, BitVec.getLsbD_ofBoolListLE]
  simp [hi]

theorem word_cons (b : Bool) (m : List Bool) :
    word (b :: m) = (BitVec.ofBool b).setWidth 32 ^^^ word m <<< 1 := by
  apply BitVec.eq_of_getElem_eq
  intro i hi
  cases i with
  | zero => simp [getElem_word]
  | succ i => simp [getElem_word]

theorem shift_word (h : m.length < 32) : shift (word m <<< 1) = word m := by
  have hlow : (word m <<< 1).getLsbD 0 = false := by simp
  rw [shift, hlow]
  apply BitVec.eq_of_getElem_eq
  intro i hi
  rw [getElem_word]
  by_cases hm : i < m.length
  · have hi' : 1 + i < 32 := by omega
    simp [getElem_word, hi', hm]
  · have hout : m.length ≤ i := by omega
    by_cases hi' : 1 + i < 32 <;> simp [getElem_word, hi', hout]

theorem word_inj (hl : m.length = m'.length) (h32 : m.length ≤ 32) (h : word m = word m') : m = m' := by
  apply List.ext_getElem hl
  intro i hi hi'
  have hbit : (word m)[i] = (word m')[i] := by rw [h]
  simpa [getElem_word, hi, hi'] using hbit

/-- Each bit is added before the polynomial is first added for it: 32 bits can as well be added at once. -/
theorem run_eq_iterate (r : Register) (h : m.length ≤ 32) :
    run r m = shift^[m.length] (r ^^^ word m) := by
  induction m generalizing r with
  | nil =>
    have hnil : word [] = 0#32 := by decide
    simp [hnil]
  | cons b m ih =>
    -- The first bit is moved on through the rest of the message, as the word of that is.
    have hm : m.length < 32 := h
    calc run r (b :: m) = shift^[m.length] (feed r b ^^^ word m) := ih (feed r b) (Nat.le_of_lt hm)
      _ = shift^[m.length] (shift (r ^^^ word (b :: m))) := by
        rw [feed, word_cons, ← BitVec.xor_assoc, shift_xor _ (word m <<< 1), shift_word hm]

theorem eq_of_run_eq (hl : m.length = m'.length) (h32 : m.length ≤ 32) (h : run r m = run r m') :
    m = m' := by
  rw [run_eq_iterate r h32, run_eq_iterate r (hl ▸ h32), ← hl] at h
  exact word_inj hl h32 ((BitVec.xor_right_inj r).1 (shift_injective.iterate _ h))

@[simp] theorem length_bitsOfByte (b : UInt8) : (bitsOfByte b).length = 8 := by simp [bitsOfByte]

theorem bitsOfByte_injective : Function.Injective bitsOfByte := by
  intro a b h
  rw [bitsOfByte, bitsOfByte, List.map_inj_left] at h
  apply UInt8.toBitVec_inj.1
  apply BitVec.eq_of_getLsbD_eq
  intro i hi
  exact h i (List.mem_range.2 hi)

theorem bits_append (l l' : List UInt8) : bits (l ++ l') = bits l ++ bits l' := List.flatMap_append

theorem length_bits (l : List UInt8) : (bits l).length = 8 * l.length := by
  simp [bits, List.length_flatMap, Nat.mul_comm]

theorem bits_inj {l l' : List UInt8} (hl : l.length = l'.length) (h : bits l = bits l') : l = l' := by
  induction l generalizing l' with
  | nil => exact (List.length_eq_zero_iff.1 hl.symm).symm
  | cons b l ih =>
    cases l' with
    | nil => cases hl
    | cons b' l' =>
      obtain ⟨hb, hbits⟩ := List.append_inj h (by simp)
      rw [bitsOfByte_injective hb, ih (Nat.succ_inj.1 hl) hbits]

/-- A change within four bytes in a row shows in the checksum. -/
theorem eq_of_crc32c_eq {front back l l' : List UInt8} (hl : l.length = l'.length) (h4 : l.length ≤ 4)
    (h : crc32c (front ++ l ++ back) = crc32c (front ++ l' ++ back)) : l = l' := by
  have hrun : run (.allOnes 32) (bits (front ++ l ++ back)) =
      run (.allOnes 32) (bits (front ++ l' ++ back)) := BitVec.not_inj.1 (UInt32.toBitVec_inj.2 h)
  simp only [bits_append, run_append] at hrun
  refine bits_inj hl (eq_of_run_eq ?_ ?_ (run_injective _ hrun))
  · rw [length_bits, length_bits, hl]
  · rw [length_bits]
    omega

example : polynomial.reverse = 0x1EDC6F41#32 := by decide +kernel

example : (crc32c [0x31, 0x32, 0x33, 0x34, 0x35, 0x36, 0x37, 0x38, 0x39]).toNat = 0xE3069283 := by
  decide +kernel

end Checksum

def Addr.bytes (a : Addr) : List UInt8 := a.octets.map UInt8.ofNat

theorem Addr.bytes_injective : Function.Injective bytes := by
  intro a b h
  have hoctet : ∀ w, UInt8.ofNat (a.octet w) = UInt8.ofNat (b.octet w) → a.octet w = b.octet w := by
    intro w hw
    replace hw := congrArg UInt8.toNat hw
    rwa [UInt8.toNat_ofNat_of_lt' (a.octet_lt w), UInt8.toNat_ofNat_of_lt' (b.octet_lt w)] at hw
  simp only [bytes, octets, List.map_cons, List.map_nil, List.cons.injEq, and_true] at h
  obtain ⟨h3, h2, h1, h0⟩ := h
  rw [← ofOctets_octet a, ← ofOctets_octet b, hoctet 3 h3, hoctet 2 h2, hoctet 1 h1, hoctet 0 h0]

namespace FiveTuple

variable {t u : FiveTuple}

theorem portBytes_injective : Function.Injective portBytes := by
  intro p q h
  simp only [portBytes, List.cons.injEq, and_true] at h
  have hhigh := congrArg UInt8.toNat h.1
  have hlow := congrArg UInt8.toNat h.2
  have hp := p.toNat_lt
  have hq := q.toNat_lt
  simp only [UInt8.toNat_ofNat'] at hhigh hlow
  rw [← UInt16.toNat_inj]
  omega

theorem bytes_injective : Function.Injective bytes := by
  intro t u h
  obtain ⟨h, hdstPort⟩ := List.append_inj h rfl
  obtain ⟨h, hsrcPort⟩ := List.append_inj h rfl
  obtain ⟨hsrcAddr, hdstAddr⟩ := List.append_inj h rfl
  obtain ⟨hprotocol, hsrcPort⟩ := List.cons.inj hsrcPort
  cases t
  cases u
  rw [mk.injEq]
  exact ⟨Addr.bytes_injective hsrcAddr, Addr.bytes_injective hdstAddr, hprotocol,
    portBytes_injective hsrcPort, portBytes_injective hdstPort⟩

/-- Flows that differ in their ports only, or in one of their addresses only. -/
def Beside (t u : FiveTuple) : Prop :=
  (∃ p q, u = { t with srcPort := p, dstPort := q }) ∨ (∃ a, u = { t with srcAddr := a }) ∨
    ∃ a, u = { t with dstAddr := a }

theorem eq_of_hash_eq (front back l l' : List UInt8) (ht : t.bytes = front ++ l ++ back)
    (hu : u.bytes = front ++ l' ++ back) (hl : l.length = l'.length) (h4 : l.length ≤ 4)
    (h : t.hash = u.hash) : t = u := by
  rw [hash, hash, ht, hu] at h
  apply bytes_injective
  rw [ht, hu, Checksum.eq_of_crc32c_eq hl h4 h]

theorem Beside.eq_of_hash_eq (hb : t.Beside u) (h : t.hash = u.hash) : t = u := by
  obtain ⟨src, dst, protocol, p, q⟩ := t
  rcases hb with ⟨p', q', rfl⟩ | ⟨a, rfl⟩ | ⟨a, rfl⟩
  · exact FiveTuple.eq_of_hash_eq (src.bytes ++ dst.bytes ++ [protocol]) [] (portBytes p ++ portBytes q)
      (portBytes p' ++ portBytes q') rfl rfl rfl (Nat.le_refl 4) h
  · exact FiveTuple.eq_of_hash_eq [] (dst.bytes ++ protocol :: portBytes p ++ portBytes q) src.bytes
      a.bytes rfl rfl rfl (Nat.le_refl 4) h
  · exact FiveTuple.eq_of_hash_eq src.bytes (protocol :: portBytes p ++ portBytes q) dst.bytes
      a.bytes rfl rfl rfl (Nat.le_refl 4) h

def between (src dst : Addr) (protocol : UInt8) (ports : UInt16 × UInt16) : FiveTuple :=
  ⟨src, dst, protocol, ports.1, ports.2⟩

theorem hash_between_bijective (src dst : Addr) (protocol : UInt8) :
    Function.Bijective fun ports => (between src dst protocol ports).hash := by
  have hinj : Function.Injective fun ports => (between src dst protocol ports).hash := by
    intro ports ports' h
    have hb : (between src dst protocol ports).Beside (between src dst protocol ports') :=
      .inl ⟨ports'.1, ports'.2, rfl⟩
    have heq := hb.eq_of_hash_eq h
    rw [between, between, mk.injEq] at heq
    exact Prod.ext heq.2.2.2.1 heq.2.2.2.2
  -- There are as many pairs of ports as hashes.
  have hcard : Nat.card UInt32 = Nat.card (UInt16 × UInt16) := by
    rw [Nat.card_prod, Nat.card_eq_fintype_card, Nat.card_eq_fintype_card,
      ← FinEnum.card_eq_fintypeCard, ← FinEnum.card_eq_fintypeCard, FinEnum.card_UInt32,
      FinEnum.card_UInt16]
    rfl
  exact hinj.bijective_of_nat_card_le hcard.le

end FiveTuple

end LiveMigration
