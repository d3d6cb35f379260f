import Mathlib.Data.List.Induction
import Mathlib.Tactic.IntervalCases
import LiveMigration.Text.Blank
import LiveMigration.Text.Digits

namespace LiveMigration.Text

section Digits

variable {base width n m d : Nat} {s s' : List Char} {c : Char}

theorem digit?_digitChar (h : d < 16) : digit? (Nat.digitChar d) = some d := by
  interval_cases d <;> rfl

theorem isAlphanum_digitChar (h : d < 16) : (Nat.digitChar d).isAlphanum = true := by
  interval_cases d <;> rfl

theorem digitBelow?_digitChar (hb : base ≤ 16) (hd : d < base) :
    digitBelow? base (Nat.digitChar d) = some d := by
  simp [digitBelow?, digit?_digitChar (Nat.lt_of_lt_of_le hd hb), hd]

theorem digitBelow?_ten (h : digitBelow? 10 c = some d) : d < 10 ∧ c = Nat.digitChar d := by
  obtain ⟨hd, hlt⟩ := Option.filter_eq_some_iff.1 h
  replace hlt : d < 10 := by simpa using hlt
  refine ⟨hlt, ?_⟩
  simp only [digit?] at hd
  split at hd
  · next hc =>
    have hge : 48 ≤ c.toNat := hc.1
    have hval : c.toNat - 48 = d := Option.some.inj hd
    have hc : c = Char.ofNat (48 + d) := by
      rw [← Char.ofNat_toNat c]
      congr
      omega
    rw [hc]
    interval_cases d <;> rfl
  · split at hd <;> [skip; split at hd] <;> cases hd <;> omega

theorem digitsFrom?_append :
    digitsFrom? base n (s ++ s') = (digitsFrom? base n s).bind fun m => digitsFrom? base m s' := by
  induction s generalizing n with
  | nil => rfl
  | cons c s ih =>
    simp only [List.cons_append, digitsFrom?, Option.bind_assoc]
    congr
    funext d
    exact ih

theorem digits?_eq (h : s ≠ []) : digits? base s = digitsFrom? base 0 s := by
  cases s with
  | nil => exact absurd rfl h
  | cons c s => rfl

theorem digitsFrom?_toDigits (hb : 1 < base) (hb' : base ≤ 16) (n : Nat) :
    digitsFrom? base 0 (Nat.toDigits base n) = some n := by
  induction n using Nat.strongRecOn with
  | ind n ih =>
    rw [Nat.toDigits_eq_if hb]
    split
    · next hn => simp [digitsFrom?, digitBelow?_digitChar hb' hn]
    · next hn =>
      have hlt : n / base < n := Nat.div_lt_self (by omega) hb
      have hd := digitBelow?_digitChar hb' (Nat.mod_lt n (by omega))
      rw [digitsFrom?_append, ih _ hlt]
      simp [digitsFrom?, hd, Nat.div_add_mod]

@[simp] theorem digits?_decimal (n : Nat) : digits? 10 (decimal n) = some n :=
  (digits?_eq Nat.toDigits_ne_nil).trans (digitsFrom?_toDigits (by decide) (by decide) n)

@[simp] theorem digits?_hexShort (n : Nat) : digits? 16 (hexShort n) = some n :=
  (digits?_eq Nat.toDigits_ne_nil).trans (digitsFrom?_toDigits (by decide) (by decide) n)

theorem digitsFrom?_hex (h : n < 16 ^ width) : digitsFrom? 16 0 (hex width n) = some n := by
  induction width generalizing n with
  | zero =>
    have hn : n = 0 := by simpa using h
    rw [hn]
    rfl
  | succ width ih =>
    have hlt : n / 16 < 16 ^ width := by omega
    have hd := digitBelow?_digitChar (Nat.le_refl 16) (Nat.mod_lt n (by decide))
    rw [hex, digitsFrom?_append, ih hlt]
    simp [digitsFrom?, hd, Nat.div_add_mod]

theorem digits?_hex (hw : width ≠ 0) (h : n < 16 ^ width) : digits? 16 (hex width n) = some n := by
  rw [digits?_eq, digitsFrom?_hex h]
  intro hnil
  exact hw (by rw [← length_hex width n, hnil, List.length_nil])

theorem unsigned?_eq_some_iff {bound : Nat} : unsigned? base bound s = some n ↔
    n < bound ∧ ∃ row, (s = row ∨ s = '+' :: row) ∧ digits? base row = some n := by
  have hplus (r : List Char) : digits? base ('+' :: r) = none := rfl
  unfold unsigned?
  split
  · next r =>
    rw [Option.filter_eq_some_iff, decide_eq_true_eq, and_comm]
    constructor
    · exact fun ⟨hlt, hr⟩ => ⟨hlt, r, .inr rfl, hr⟩
    · rintro ⟨hlt, row, rfl | hrow, hr⟩
      · cases (hplus r).symm.trans hr
      · exact ⟨hlt, (List.cons.inj hrow).2 ▸ hr⟩
  · next hs =>
    rw [Option.filter_eq_some_iff, decide_eq_true_eq, and_comm]
    constructor
    · exact fun ⟨hlt, hr⟩ => ⟨hlt, s, .inl rfl, hr⟩
    · rintro ⟨hlt, row, rfl | rfl, hr⟩
      · exact ⟨hlt, hr⟩
      · exact absurd rfl (hs row)

theorem isAlphanum_of_mem_toDigits (hb : 1 < base) (hb' : base ≤ 16) (h : c ∈ Nat.toDigits base n) :
    c.isAlphanum = true := by
  induction n using Nat.strongRecOn with
  | ind n ih =>
    rw [Nat.toDigits_eq_if hb] at h
    split at h
    · next hn =>
      rw [List.mem_singleton.1 h]
      exact isAlphanum_digitChar (by omega)
    · next hn =>
      rcases List.mem_append.1 h with h | h
      · exact ih _ (Nat.div_lt_self (by omega) hb) h
      · rw [List.mem_singleton.1 h]
        exact isAlphanum_digitChar (Nat.lt_of_lt_of_le (Nat.mod_lt n (by omega)) hb')

theorem isAlphanum_of_mem_decimal (h : c ∈ decimal n) : c.isAlphanum = true :=
  isAlphanum_of_mem_toDigits (by decide) (by decide) h

theorem isAlphanum_of_mem_hexShort (h : c ∈ hexShort n) : c.isAlphanum = true :=
  isAlphanum_of_mem_toDigits (by decide) (by decide) h

theorem isAlphanum_of_mem_hex (h : c ∈ hex width n) : c.isAlphanum = true := by
  induction width generalizing n with
  | zero => cases h
  | succ width ih =>
    rcases List.mem_append.1 h with h | h
    · exact ih h
    · rw [List.mem_singleton.1 h]
      exact isAlphanum_digitChar (Nat.mod_lt n (by decide))

theorem head?_decimal (hn : n ≠ 0) : (decimal n).head? ≠ some '0' := by
  induction n using Nat.strongRecOn with
  | ind n ih =>
    rw [decimal, Nat.toDigits_eq_if (by decide)]
    split
    · next hlt => interval_cases n <;> simp_all
    · have hdiv : n / 10 ≠ 0 := by omega
      rw [List.head?_append, Option.or_of_isSome (by simp [List.isSome_head?, Nat.toDigits_ne_nil])]
      exact ih (n / 10) (by omega) hdiv

theorem eq_decimal_of_digits? (h : digits? 10 s = some n) (h0 : s.head? = some '0' → s.length = 1) :
    s = decimal n := by
  induction s using List.reverseRecOn generalizing n with
  | nil => cases h
  | append_singleton s c ih =>
    rw [digits?_eq (by simp), digitsFrom?_append] at h
    obtain ⟨m, hm, h⟩ := Option.bind_eq_some_iff.1 h
    simp only [digitsFrom?] at h
    obtain ⟨d, hd, hn⟩ := Option.bind_eq_some_iff.1 h
    obtain ⟨hlt, rfl⟩ := digitBelow?_ten hd
    cases hn
    by_cases hs : s = []
    · cases hs
      cases hm
      rw [decimal, Nat.toDigits_of_lt_base (by omega)]
      simp
    · have hhead : s.head? ≠ some '0' := by
        intro hz
        have hlen := h0 (by simp [hz])
        exact hs (by simpa using hlen)
      have hsm := ih ((digits?_eq hs).trans hm) fun hz => absurd hz hhead
      have hpos : 0 < m := by
        refine Nat.pos_of_ne_zero ?_
        rintro rfl
        exact hhead (hsm ▸ rfl)
      rw [hsm, decimal, decimal, ← Nat.toDigits_append_toDigits (by decide) hpos hlt,
        Nat.toDigits_of_lt_base hlt]

end Digits

section Pieces

variable {p : Char → Bool} {s r : List Char} {c separator : Char} {l : List (List Char)}

theorem splitAt_ne_nil : splitAt p s ≠ [] := by
  cases s with
  | nil => nofun
  | cons c s =>
    rw [splitAt]
    split
    · nofun
    · cases splitAt p s <;> nofun

theorem splitAt_eq_singleton (hs : ∀ c ∈ s, p c = false) : splitAt p s = [s] := by
  induction s with
  | nil => rfl
  | cons d s ih =>
    rw [List.forall_mem_cons] at hs
    simp [splitAt, hs.1, ih hs.2, joinFirst]

theorem splitAt_append_separator (s : List Char) (hc : p c = true) :
    splitAt p (s ++ c :: r) = splitAt p s ++ splitAt p r := by
  induction s with
  | nil => simp [splitAt, hc]
  | cons d s ih =>
    obtain ⟨first, more, hs⟩ := List.exists_cons_of_ne_nil (splitAt_ne_nil (p := p) (s := s))
    rw [List.cons_append, splitAt, splitAt, ih, hs]
    split <;> rfl

theorem splitAt_append_cons (hs : ∀ c ∈ s, p c = false) (hc : p c = true) :
    splitAt p (s ++ c :: r) = s :: splitAt p r := by
  rw [splitAt_append_separator s hc, splitAt_eq_singleton hs, List.singleton_append]

theorem splitAt_intercalate (hc : p separator = true) (hl : l ≠ [])
    (hs : ∀ s ∈ l, ∀ c ∈ s, p c = false) : splitAt p ([separator].intercalate l) = l := by
  induction l with
  | nil => exact absurd rfl hl
  | cons s l ih =>
    rw [List.forall_mem_cons] at hs
    cases l with
    | nil => simpa using splitAt_eq_singleton hs.1
    | cons s' l =>
      rw [List.intercalate_cons_cons, List.append_assoc, List.singleton_append,
        splitAt_append_cons hs.1 hc, ih (by simp) hs.2]

theorem intercalate_joinFirst (hl : l ≠ []) :
    [separator].intercalate (joinFirst c l) = c :: [separator].intercalate l := by
  cases l with
  | nil => exact absurd rfl hl
  | cons s l =>
    cases l with
    | nil => simp [joinFirst]
    | cons s' l => simp [joinFirst, List.intercalate_cons_cons]

theorem joinFirst_eq_cons_iff {piece : List Char} (hl : l ≠ []) {more : List (List Char)} :
    joinFirst c l = piece :: more ↔ ∃ w, piece = c :: w ∧ l = w :: more := by
  cases l with
  | nil => exact absurd rfl hl
  | cons w ws =>
    constructor
    · intro h
      cases h
      exact ⟨w, rfl, rfl⟩
    · rintro ⟨w', rfl, h⟩
      cases h
      rfl

theorem splitAt_eq_cons_iff {piece : List Char} {more : List (List Char)} :
    splitAt p s = piece :: more ↔ (∀ c ∈ piece, p c = false) ∧
      (s = piece ∧ more = [] ∨ ∃ c r, p c = true ∧ s = piece ++ c :: r ∧ splitAt p r = more) := by
  constructor
  · intro h
    induction s generalizing piece with
    | nil =>
      cases h
      exact ⟨nofun, .inl ⟨rfl, rfl⟩⟩
    | cons d s ih =>
      rw [splitAt] at h
      split at h
      · next hd =>
        cases h
        exact ⟨nofun, .inr ⟨d, s, hd, rfl, rfl⟩⟩
      · next hd =>
        obtain ⟨w, rfl, hw⟩ := (joinFirst_eq_cons_iff splitAt_ne_nil).1 h
        obtain ⟨hpiece, hrest⟩ := ih hw
        refine ⟨List.forall_mem_cons.2 ⟨by simpa using hd, hpiece⟩, ?_⟩
        rcases hrest with ⟨rfl, rfl⟩ | ⟨c, r, hc, rfl, hr⟩
        · exact .inl ⟨rfl, rfl⟩
        · exact .inr ⟨c, r, hc, rfl, hr⟩
  · rintro ⟨hpiece, ⟨rfl, rfl⟩ | ⟨c, r, hc, rfl, rfl⟩⟩
    · exact splitAt_eq_singleton hpiece
    · exact splitAt_append_cons hpiece hc

theorem eq_false_of_mem_splitAt {piece : List Char} (h : piece ∈ splitAt p s) : ∀ c ∈ piece, p c = false := by
  generalize hl : splitAt p s = l at h
  induction l generalizing s with
  | nil => cases h
  | cons first more ih =>
    obtain ⟨hfirst, hmore⟩ := splitAt_eq_cons_iff.1 hl
    rcases List.mem_cons.1 h with rfl | h
    · exact hfirst
    · rcases hmore with ⟨-, rfl⟩ | ⟨c, r, -, -, hr⟩
      · cases h
      · exact ih hr h

theorem mem_intercalate (h : c ∈ [separator].intercalate l) :
    c = separator ∨ ∃ s ∈ l, c ∈ s := by
  induction l with
  | nil => cases h
  | cons s l ih =>
    cases l with
    | nil => exact .inr ⟨s, List.mem_cons_self, by simpa using h⟩
    | cons s' l =>
      rw [List.intercalate_cons_cons, List.append_assoc, List.mem_append, List.singleton_append,
        List.mem_cons] at h
      rcases h with h | h | h
      · exact .inr ⟨s, List.mem_cons_self, h⟩
      · exact .inl h
      · exact (ih h).imp_right fun ⟨t, ht, hc⟩ => ⟨t, List.mem_cons_of_mem _ ht, hc⟩

theorem intercalate_splitAt (s : List Char) : [separator].intercalate (splitAt (· = separator) s) = s := by
  induction s with
  | nil => simp [splitAt]
  | cons c s ih =>
    rw [splitAt]
    split
    · next hc =>
      obtain ⟨s', l, hl⟩ := List.exists_cons_of_ne_nil (splitAt_ne_nil (p := (· = separator)) (s := s))
      rw [hl] at ih ⊢
      rw [List.intercalate_cons_cons, ih]
      simpa [eq_comm] using hc
    · rw [intercalate_joinFirst splitAt_ne_nil, ih]

end Pieces

end LiveMigration.Text
