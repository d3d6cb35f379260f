import Mathlib.Data.List.Forall2
import LiveMigration.Proofs.Net.Text

namespace LiveMigration

namespace Text

section Hexadecimal

variable {base bound sofar n d : Nat} {s : List Char} {c : Char}

def IsHexDigit (c : Char) (d : Nat) : Prop := d < 16 ∧ (c = d.digitChar ∨ c = d.digitChar.toUpper)

instance : Decidable (IsHexDigit c d) := inferInstanceAs (Decidable (_ ∧ _))

theorem digitBelow?_sixteen_iff : digitBelow? 16 c = some d ↔ IsHexDigit c d := by
  constructor
  · intro h
    obtain ⟨hd, hlt⟩ := Option.filter_eq_some_iff.1 h
    replace hlt : d < 16 := by simpa using hlt
    refine ⟨hlt, ?_⟩
    have hof {k : Nat} (hk : c.toNat = k) : c = Char.ofNat k := by rw [← hk, Char.ofNat_toNat]
    simp only [digit?] at hd
    split at hd
    · next hc =>
      have hge : 48 ≤ c.toNat := hc.1
      have hle : c.toNat ≤ 57 := hc.2
      have hval : c.toNat - 48 = d := Option.some.inj hd
      have hlt : d < 10 := by omega
      rw [hof (show c.toNat = 48 + d by omega)]
      left
      interval_cases d <;> rfl
    · split at hd
      · next hc =>
        have hge : 97 ≤ c.toNat := hc.1
        have hval : c.toNat - 97 + 10 = d := Option.some.inj hd
        obtain ⟨e, rfl⟩ : ∃ e, d = e + 10 := ⟨c.toNat - 97, hval.symm⟩
        have he : e < 6 := by omega
        rw [hof (show c.toNat = 97 + e by omega)]
        left
        interval_cases e <;> rfl
      · split at hd
        · next hc =>
          have hge : 65 ≤ c.toNat := hc.1
          have hval : c.toNat - 65 + 10 = d := Option.some.inj hd
          obtain ⟨e, rfl⟩ : ∃ e, d = e + 10 := ⟨c.toNat - 65, hval.symm⟩
          have he : e < 6 := by omega
          rw [hof (show c.toNat = 65 + e by omega)]
          right
          interval_cases e <;> rfl
        · cases hd
  · rintro ⟨hd, rfl | rfl⟩ <;> interval_cases d <;> rfl

theorem IsHexDigit.isAlphanum (h : IsHexDigit c d) : c.isAlphanum = true := by
  obtain ⟨hd, rfl | rfl⟩ := h <;> interval_cases d <;> rfl

theorem isHexDigit_zero : IsHexDigit c 0 ↔ c = '0' := by
  constructor
  · rintro ⟨-, rfl | rfl⟩ <;> rfl
  · rintro rfl
    exact ⟨by decide, .inl rfl⟩

theorem mul_pow_le_of_digitsFrom? (h : digitsFrom? base sofar s = some n) : sofar * base ^ s.length ≤ n := by
  induction s generalizing sofar with
  | nil =>
    cases h
    simp
  | cons c s ih =>
    obtain ⟨d, -, hs⟩ := Option.bind_eq_some_iff.1 h
    calc
      sofar * base ^ (s.length + 1) = base * sofar * base ^ s.length := by
        rw [Nat.pow_succ, Nat.mul_comm base, Nat.mul_assoc, Nat.mul_comm base]
      _ ≤ (base * sofar + d) * base ^ s.length := Nat.mul_le_mul_right _ (Nat.le_add_right _ _)
      _ ≤ n := ih hs

end Hexadecimal

end Text

namespace Mac

/-- An octet as it is spelled: one or two digits. -/
inductive IsOctet : List Char → UInt8 → Prop
  | one (h : Text.IsHexDigit c b.toNat) : IsOctet [c] b
  | two (hhigh : Text.IsHexDigit c (b.toNat / 16)) (hlow : Text.IsHexDigit c' (b.toNat % 16)) :
    IsOctet [c, c'] b

def isSeparator (c : Char) : Bool := c = ':' || c = '-'

inductive Spells (octet : List Char → UInt8 → Prop) : List Char → List UInt8 → Prop
  | last (h : octet part b) : Spells octet part [b]
  | more (h : octet part b) (hc : isSeparator c = true) (hrest : Spells octet s l) :
    Spells octet (part ++ c :: s) (b :: l)

inductive IsPadded : List Char → UInt8 → Prop
  | octet (h : IsOctet s b) : IsPadded s b
  | zero (h : IsPadded s b) : IsPadded ('0' :: s) b

/-- An octet as it is read: one plus sign may stand in front, and zeros. -/
def IsReadable (s : List Char) (b : UInt8) : Prop := ∃ row, (s = row ∨ s = '+' :: row) ∧ IsPadded row b

variable {s : List Char} {l : List UInt8} {b : UInt8} {n : Nat} {octet : List Char → UInt8 → Prop}

theorem IsOctet.isAlphanum (h : IsOctet s b) : ∀ c ∈ s, c.isAlphanum = true := by
  cases h with
  | one h => simpa using h.isAlphanum
  | two hhigh hlow => simpa using ⟨hhigh.isAlphanum, hlow.isAlphanum⟩

theorem IsPadded.isAlphanum (h : IsPadded s b) : ∀ c ∈ s, c.isAlphanum = true := by
  induction h with
  | octet h => exact h.isAlphanum
  | zero _ ih => exact List.forall_mem_cons.2 ⟨rfl, ih⟩

theorem IsPadded.ne_nil (h : IsPadded s b) : s ≠ [] := by
  rintro rfl
  obtain h | _ := h
  cases h

theorem digits?_sixteen_iff : Text.digits? 16 s = some b.toNat ↔ IsPadded s b := by
  constructor
  · intro h
    induction s with
    | nil => cases h
    | cons c s ih =>
      obtain ⟨d, hd, hs⟩ := Option.bind_eq_some_iff.1 h
      replace hs : Text.digitsFrom? 16 d s = some b.toNat := by simpa using hs
      have hc := Text.digitBelow?_sixteen_iff.1 hd
      match s, hs with
      | [], hs =>
        cases hs
        exact .octet (.one hc)
      | [c'], hs =>
        obtain ⟨d', hd', hb⟩ := Option.bind_eq_some_iff.1 hs
        have hc' := Text.digitBelow?_sixteen_iff.1 hd'
        have hlt := hc'.1
        replace hb : 16 * d + d' = b.toNat := Option.some.inj hb
        obtain rfl : b.toNat / 16 = d := by omega
        obtain rfl : b.toNat % 16 = d' := by omega
        exact .octet (.two hc hc')
      | c' :: c'' :: s, hs =>
        have hbound := Text.mul_pow_le_of_digitsFrom? hs
        have hpow : 16 ^ 2 ≤ 16 ^ (c' :: c'' :: s).length := Nat.pow_le_pow_right (by decide) (by simp)
        have hzero : d = 0 := by
          have := Nat.mul_le_mul_left d hpow
          have := b.toNat_lt
          omega
        subst hzero
        rw [Text.isHexDigit_zero.1 hc]
        exact .zero (ih hs)
  · intro h
    induction h with
    | octet h =>
      cases h with
      | one h => simp [Text.digits?, Text.digitsFrom?, Text.digitBelow?_sixteen_iff.2 h]
      | two hhigh hlow =>
        simp [Text.digits?, Text.digitsFrom?, Text.digitBelow?_sixteen_iff.2 hhigh,
          Text.digitBelow?_sixteen_iff.2 hlow, Nat.div_add_mod]
    | zero h ih =>
      rw [Text.digits?_eq h.ne_nil] at ih
      exact ih

theorem readOctet?_eq_some_iff : readOctet? s = some b ↔ IsReadable s b := by
  have hread : readOctet? s = some b ↔ Text.unsigned? 16 256 s = some b.toNat := by
    rw [readOctet?, Option.map_eq_some_iff]
    constructor
    · rintro ⟨n, hn, rfl⟩
      have hlt : n < 256 := (Text.unsigned?_eq_some_iff.1 hn).1
      rw [hn, UInt8.toNat_ofNat_of_lt' hlt]
    · exact fun h => ⟨_, h, UInt8.ofNat_toNat⟩
  simp only [hread, Text.unsigned?_eq_some_iff, digits?_sixteen_iff, IsReadable]
  exact and_iff_right b.toNat_lt

theorem isOctet_iff : IsOctet s b ↔ IsReadable s b ∧ s.length ≤ 2 ∧ '+' ∉ s := by
  constructor
  · intro h
    refine ⟨⟨s, .inl rfl, .octet h⟩, ?_, fun hplus => absurd (h.isAlphanum _ hplus) (by decide)⟩
    cases h <;> simp
  · rintro ⟨⟨row, rfl | rfl, h⟩, hlen, hplus⟩
    · cases h with
      | octet h => exact h
      | zero h =>
        cases h with
        | octet h =>
          cases h with
          | one h =>
            have hlt := h.1
            have hhigh : b.toNat / 16 = 0 := by omega
            have hlow : b.toNat % 16 = b.toNat := by omega
            exact .two (hhigh ▸ Text.isHexDigit_zero.2 rfl) (hlow.symm ▸ h)
          | two => simp at hlen
        | zero h =>
          have := List.length_pos_iff.2 h.ne_nil
          simp only [List.length_cons] at hlen
          omega
    · exact absurd List.mem_cons_self hplus

theorem spells_iff (hoctet : ∀ part b, octet part b → ∀ c ∈ part, isSeparator c = false) :
    Spells octet s l ↔ List.Forall₂ octet (Text.splitAt isSeparator s) l := by
  constructor
  · intro h
    induction h with
    | last h =>
      rw [Text.splitAt_eq_singleton (hoctet _ _ h)]
      exact .cons h .nil
    | more h hc _ ih =>
      rw [Text.splitAt_append_cons (hoctet _ _ h) hc]
      exact .cons h ih
  · generalize hparts : Text.splitAt isSeparator s = parts
    intro h
    induction h generalizing s with
    | nil => exact absurd hparts Text.splitAt_ne_nil
    | cons h hrest ih =>
      rcases (Text.splitAt_eq_cons_iff.1 hparts).2 with ⟨rfl, rfl⟩ | ⟨c, r, hc, rfl, hr⟩
      · cases hrest
        exact .last h
      · exact .more h hc (ih hr)

theorem isSeparator_eq_false {c : Char} (h : c.isAlphanum = true) : isSeparator c = false := by
  rw [isSeparator, ne_of_isAlphanum h (by decide), ne_of_isAlphanum h (by decide)]
  rfl

theorem IsReadable.not_isSeparator (h : IsReadable s b) : ∀ c ∈ s, isSeparator c = false := by
  obtain ⟨row, rfl | rfl, h⟩ := h
  · exact fun c hc => isSeparator_eq_false (h.isAlphanum c hc)
  · exact List.forall_mem_cons.2 ⟨rfl, fun c hc => isSeparator_eq_false (h.isAlphanum c hc)⟩

theorem readOctets_succ_iff {text : String} {parts rest : List (List Char)} {v : Vector UInt8 n} :
    readOctets text (n + 1) parts = .ok (v.push b, rest) ↔
      ∃ part, readOctets text n parts = .ok (v, part :: rest) ∧ readOctet? part = some b := by
  refine ⟨fun h => ?_, fun ⟨part, hparts, hpart⟩ => readOctets_succ hparts hpart⟩
  cases hfront : readOctets text n parts with
  | error e => simp [readOctets, hfront, bind, Except.bind] at h
  | ok pair =>
    obtain ⟨u, more⟩ := pair
    simp only [readOctets, hfront, bind, Except.bind] at h
    cases more with
    | nil => cases h
    | cons part more =>
      cases hpart : readOctet? part with
      | none => simp [hpart] at h
      | some b' =>
        simp only [hpart, Except.ok.injEq, Prod.mk.injEq, Vector.push_eq_push] at h
        obtain ⟨⟨rfl, rfl⟩, rfl⟩ := h
        exact ⟨part, rfl, hpart⟩

theorem readOctets_eq_ok_iff {text : String} {parts rest : List (List Char)} {v : Vector UInt8 n} :
    readOctets text n parts = .ok (v, rest) ↔
      ∃ front, parts = front ++ rest ∧ List.Forall₂ IsReadable front v.toList := by
  induction n generalizing rest with
  | zero =>
    have hv : v = #v[] := Vector.eq_empty
    subst hv
    simp [readOctets]
  | succ n ih =>
    obtain ⟨v, b, rfl⟩ : ∃ u b, v = Vector.push u b := Vector.exists_push
    simp only [readOctets_succ_iff, ih, readOctet?_eq_some_iff, Vector.toList_push]
    constructor
    · rintro ⟨part, ⟨front, rfl, hfront⟩, hpart⟩
      exact ⟨front ++ [part], by simp, List.rel_append hfront (.cons hpart .nil)⟩
    · rintro ⟨front, rfl, hfront⟩
      have hinit := List.forall₂_take_append _ _ _ hfront
      have hlast := List.forall₂_drop_append _ _ _ hfront
      generalize hpart : front.drop v.toList.length = last at hlast
      obtain - | ⟨hb, - | -⟩ := hlast
      refine ⟨_, ⟨_, ?_, hinit⟩, hb⟩
      rw [List.append_cons, ← hpart, List.take_append_drop]

theorem parse_eq_ok_iff {text : String} {m : Mac} :
    parse text = .ok m ↔ Spells IsReadable text.toList m.octets.toList := by
  have hparse : parse text = .ok m ↔
      readOctets text 6 (Text.splitAt isSeparator text.toList) = .ok (m.octets, []) := by
    change ((readOctets text 6 (Text.splitAt isSeparator text.toList)).bind fun p =>
      if p.2 = [] then .ok ⟨p.1⟩ else .error (.tooLong text)) = .ok m ↔ _
    cases readOctets text 6 (Text.splitAt isSeparator text.toList) with
    | error e => simp [Except.bind]
    | ok p =>
      obtain ⟨octets, rest⟩ := p
      obtain ⟨octets'⟩ := m
      by_cases hrest : rest = []
      · simp [Except.bind, hrest]
      · simp [Except.bind, hrest]
  rw [hparse, readOctets_eq_ok_iff, spells_iff fun _ _ h => h.not_isSeparator]
  simp

theorem spells_isOctet_iff : Spells IsOctet s l ↔
    Spells IsReadable s l ∧ ∀ part ∈ Text.splitAt isSeparator s, part.length ≤ 2 ∧ '+' ∉ part := by
  have hoctet : IsOctet = fun s b => (s.length ≤ 2 ∧ '+' ∉ s) ∧ IsReadable s b := by
    funext s b
    rw [eq_iff_iff, isOctet_iff, and_comm]
  rw [spells_iff fun _ _ h => (isOctet_iff.1 h).1.not_isSeparator, spells_iff fun _ _ h => h.not_isSeparator,
    hoctet, List.forall₂_and_left, and_comm]

theorem hex_two (b : UInt8) :
    Text.hex 2 b.toNat = [Nat.digitChar (b.toNat / 16), Nat.digitChar (b.toNat % 16)] := by
  have hlt := b.toNat_lt
  have hhigh : b.toNat / 16 % 16 = b.toNat / 16 := Nat.mod_eq_of_lt (by omega)
  simp only [Text.hex, hhigh, List.nil_append, List.singleton_append]

theorem isOctet_hex (b : UInt8) : IsOctet (Text.hex 2 b.toNat) b := by
  have hlt := b.toNat_lt
  rw [hex_two]
  exact .two ⟨by omega, .inl rfl⟩ ⟨by omega, .inl rfl⟩

theorem spells_chars (m : Mac) : Spells IsOctet m.chars m.octets.toList := by
  rw [spells_iff fun _ _ h => (isOctet_iff.1 h).1.not_isSeparator]
  change List.Forall₂ IsOctet (Text.splitAt (fun c => c = ':' || c = '-') m.chars) m.octets.toList
  rw [splitAt_chars, List.forall₂_map_left_iff, List.forall₂_same]
  exact fun b _ => isOctet_hex b

/-- A text is read just if it is six octets between separators, which zeros and a plus sign may precede, and as
the address of these; any other is refused. Those that are spelled by the grammar are the ones without a sign and
without a third digit. An address is written in one way, by the grammar, and is read back from that. -/
theorem read_as_spelled (text : String) (m : Mac) :
    (parse text = .ok m ↔ Spells IsReadable text.toList m.octets.toList) ∧
    ((∃ fault, parse text = .error fault) ↔ ∀ m : Mac, ¬ Spells IsReadable text.toList m.octets.toList) ∧
    (Spells IsOctet text.toList m.octets.toList ↔
      parse text = .ok m ∧ ∀ part ∈ Text.splitAt isSeparator text.toList, part.length ≤ 2 ∧ '+' ∉ part) ∧
    Spells IsOctet m.text.toList m.octets.toList ∧ parse m.text = .ok m ∧
    m.text.toList = [':'].intercalate (m.octets.toList.map fun b =>
      [Nat.digitChar (b.toNat / 16), Nat.digitChar (b.toNat % 16)]) := by
  refine ⟨parse_eq_ok_iff, ?_, ?_, ?_, parse_text m, ?_⟩
  · simp only [← parse_eq_ok_iff]
    cases parse text <;> simp
  · rw [spells_isOctet_iff, parse_eq_ok_iff]
  · rw [Mac.text, String.toList_ofList]
    exact spells_chars m
  · rw [Mac.text, String.toList_ofList, chars]
    simp only [hex_two]

/-- A plus sign is read over, and so are zeros beyond the second digit. -/
theorem octets_beyond_grammar :
    let m : Mac := ⟨#v[12, 66, 161, 14, 255, 1]⟩
    parse "+c:42:a1:0e:ff:01" = .ok m ∧ parse "00c:42:a1:0e:ff:01" = .ok m ∧
      ∀ m' : Mac, ¬ Spells IsOctet "+c:42:a1:0e:ff:01".toList m'.octets.toList ∧
        ¬ Spells IsOctet "00c:42:a1:0e:ff:01".toList m'.octets.toList := by
  intro m
  refine ⟨by decide, by decide, fun m' => ?_⟩
  simp only [spells_isOctet_iff]
  exact ⟨fun h => absurd h.2 (by decide), fun h => absurd h.2 (by decide)⟩

end Mac

end LiveMigration
