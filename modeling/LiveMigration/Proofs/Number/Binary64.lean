import LiveMigration.Number.Binary64
import Mathlib.Tactic.Ring

namespace LiveMigration.Binary64

theorem roundDiv_mul_mul_right {c : Nat} (hc : 0 < c) (num den : Nat) :
    roundDiv (num * c) (den * c) = roundDiv num den := by
  have h2 : 2 * (num % den * c) = 2 * (num % den) * c := by ring
  simp only [roundDiv, Nat.mul_div_mul_right _ _ hc, Nat.mul_mod_mul_right, h2, Nat.mul_lt_mul_right hc]

theorem log2_mul_two_pow {n : Nat} (hn : n ≠ 0) (k : Nat) : (n * 2 ^ k).log2 = n.log2 + k := by
  induction k with
  | zero => simp
  | succ k ih =>
    have hk : n * 2 ^ k ≠ 0 := by simp [hn]
    rw [Nat.pow_succ, ← Nat.mul_assoc, Nat.mul_comm _ 2, Nat.log2_two_mul hk, ih, Nat.add_assoc]

theorem log2Ratio_mul_two_pow {num den : Nat} (hn : num ≠ 0) (hd : den ≠ 0) (k : Nat) :
    log2Ratio (num * 2 ^ k) (den * 2 ^ k) = log2Ratio num den := by
  have hk : ((num.log2 + k : Nat) : Int) - (den.log2 + k : Nat) = num.log2 - den.log2 := by omega
  have hle (a b j : Nat) : (a * 2 ^ k) <<< j ≤ b * 2 ^ k ↔ a <<< j ≤ b := by
    rw [Nat.shiftLeft_eq, Nat.shiftLeft_eq, Nat.mul_right_comm]
    exact Nat.mul_le_mul_right_iff (by simp)
  have hle' (a b j : Nat) : a * 2 ^ k ≤ (b * 2 ^ k) <<< j ↔ a ≤ b <<< j := by
    rw [Nat.shiftLeft_eq, Nat.shiftLeft_eq, Nat.mul_right_comm]
    exact Nat.mul_le_mul_right_iff (by simp)
  simp only [log2Ratio, log2_mul_two_pow hn, log2_mul_two_pow hd, hk, hle, hle']

theorem ofRatio_mul_two_pow (negative : Bool) (num : Nat) {den : Nat} (hd : den ≠ 0) (k : Nat) :
    ofRatio negative (num * 2 ^ k) (den * 2 ^ k) = ofRatio negative num den := by
  by_cases hn : num = 0
  · simp [ofRatio, hn]
  · have hr (a b : Nat) : roundDiv (a * 2 ^ k) (b * 2 ^ k) = roundDiv a b :=
      roundDiv_mul_mul_right (by simp) a b
    simp only [ofRatio, log2Ratio_mul_two_pow hn hd, Nat.shiftLeft_eq, Nat.mul_right_comm _ (2 ^ k), hr, hn,
      Nat.mul_eq_zero, Nat.pow_eq_zero]
    simp

theorem exists_ofNat (h : n < 2 ^ 53) :
    ∃ x k, ofNat n = some x ∧ x.negative = false ∧ x.ratio = (n * 2 ^ k, 2 ^ k) := by
  by_cases hn : n = 0
  · exact ⟨⟨false, 0, 0⟩, 0, by simp [ofNat, ofRatio, hn], rfl, by simp [ratio, hn]⟩
  · have hlt : n.log2 < 53 := (Nat.log2_lt hn).mpr h
    obtain ⟨k, hk⟩ : ∃ k, 52 = n.log2 + k := Nat.exists_eq_add_of_le (by omega)
    have hlog : log2Ratio n 1 = n.log2 := by
      simp [log2Ratio, Nat.shiftLeft_eq, show Nat.log2 1 = 0 from rfl, Nat.log2_self_le hn]
    have he : max (-1074) ((n.log2 : Int) - 52) = -k := by omega
    have hround (a : Nat) : roundDiv a 1 = a := by
      simpa using roundDiv_mul_self (n := a) Nat.one_pos
    refine ⟨⟨false, n * 2 ^ k, -k⟩, k, ?_, rfl, ?_⟩
    · have hm : (if 0 ≤ -(k : Int) then roundDiv n (1 <<< (-(k : Int)).toNat)
          else roundDiv (n <<< (- -(k : Int)).toNat) 1) = n * 2 ^ k := by
        cases k with
        | zero => simp [hround]
        | succ k => rw [if_neg (by omega), hround, Int.neg_neg, Int.toNat_natCast, Nat.shiftLeft_eq]
      simp only [ofNat, ofRatio, hlog, he, hm, if_neg hn]
      exact if_neg (by omega)
    · cases k with
      | zero => simp [ratio]
      | succ k =>
        rw [ratio, if_neg (by simp only; omega)]
        simp only [Int.neg_neg, Int.toNat_natCast, Nat.shiftLeft_eq, Nat.one_mul]

theorem log2Ratio_le (num den : Nat) : log2Ratio num den ≤ num.log2 - den.log2 := by
  simp only [log2Ratio]
  split <;> omega

theorem exists_ofRatio (negative : Bool) (h : num < 2 ^ 53) (den : Nat) :
    ∃ x, ofRatio negative num den = some x := by
  by_cases hn : num = 0
  · exact ⟨_, if_pos hn⟩
  · have hlt : num.log2 < 53 := (Nat.log2_lt hn).mpr h
    have hle := log2Ratio_le num den
    exact ⟨_, (if_neg hn).trans (if_neg (by omega))⟩

/-- For some 285 years the milliseconds are rounded only once. -/
theorem ofRatio_eq_ofMicros (h : us < 2 ^ 53) : ofRatio false us 1000 = some (ofMicros us) := by
  obtain ⟨x, k, hx, hneg, hratio⟩ := exists_ofNat h
  obtain ⟨y, hy⟩ := exists_ofRatio false h 1000
  -- The two factors are exact but for a power of two, which both sides of the ratio have in common.
  have hdiv : x.div ⟨false, 1000, 0⟩ = some y := by
    rw [← hy, ← ofRatio_mul_two_pow false us (by decide) k]
    simp only [div, hneg, hratio, Nat.mul_comm (2 ^ k)]
    simp [ratio]
  simp [ofMicros, hx, hdiv, hy]

end LiveMigration.Binary64
