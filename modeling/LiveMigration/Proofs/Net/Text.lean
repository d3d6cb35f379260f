import LiveMigration.Net.Endpoint
import LiveMigration.Net.SocketAddr
import LiveMigration.Proofs.Text.Digits

namespace LiveMigration

theorem ne_of_isAlphanum {c d : Char} (hd : d.isAlphanum = true) (hc : c.isAlphanum = false) :
    decide (d = c) = false := by
  refine decide_eq_false ?_
  rintro rfl
  cases hd.symm.trans hc

namespace Addr

variable {a : Addr} {s : List Char} {n : Nat}

theorem readOctet?_decimal (h : n < 256) : readOctet? (Text.decimal n) = some n := by
  have hlen : (Text.decimal n).length ≤ 3 := (Nat.length_toDigits_le_iff (by decide) (by decide)).2 (by omega)
  have hzero : (Text.decimal n).head? = some '0' → (Text.decimal n).length = 1 := by
    intro h0
    have hn : n = 0 := Decidable.byContradiction fun hn => Text.head?_decimal hn h0
    rw [hn]
    rfl
  rw [readOctet?, if_pos ⟨hlen, hzero⟩, Text.digits?_decimal]
  simpa using h

theorem eq_decimal_of_readOctet? (h : readOctet? s = some n) : n < 256 ∧ s = Text.decimal n := by
  simp only [readOctet?] at h
  split at h
  · next hs =>
    obtain ⟨hn, hlt⟩ := Option.filter_eq_some_iff.1 h
    exact ⟨by simpa using hlt, Text.eq_decimal_of_digits? hn hs.2⟩
  · cases h

theorem chars_eq_intercalate (a : Addr) : a.chars = ['.'].intercalate
    [Text.decimal (a.octet 3), Text.decimal (a.octet 2), Text.decimal (a.octet 1), Text.decimal (a.octet 0)] := by
  simp [chars, joined, List.intercalate_cons_cons]

theorem splitAt_chars (a : Addr) : Text.splitAt (· = '.') a.chars =
    [Text.decimal (a.octet 3), Text.decimal (a.octet 2), Text.decimal (a.octet 1), Text.decimal (a.octet 0)] := by
  rw [chars_eq_intercalate]
  refine Text.splitAt_intercalate (by decide) (by simp) ?_
  simp only [List.forall_mem_cons, List.not_mem_nil, false_implies, implies_true, and_true]
  refine ⟨?_, ?_, ?_, ?_⟩ <;>
    exact fun c hc => ne_of_isAlphanum (Text.isAlphanum_of_mem_decimal hc) (by decide)

@[simp] theorem ofChars?_chars (a : Addr) : ofChars? a.chars = some a := by
  simp [ofChars?, splitAt_chars, readOctet?_decimal, octet_lt, ofOctets_octet]

@[simp] theorem ofText?_text (a : Addr) : ofText? a.text = some a := by simp [ofText?, text]

theorem octet_ofOctets {a b c d : Nat} (ha : a < 256) (hb : b < 256) (hc : c < 256) (hd : d < 256) :
    (ofOctets a b c d).octet 3 = a ∧ (ofOctets a b c d).octet 2 = b ∧ (ofOctets a b c d).octet 1 = c ∧
      (ofOctets a b c d).octet 0 = d := by
  simp only [octet, ofOctets, UInt32.toNat_ofNat', Nat.shiftRight_eq_div_pow]
  omega

theorem eq_chars_of_ofChars? (h : ofChars? s = some a) : s = a.chars := by
  simp only [ofChars?] at h
  split at h
  · next p q r t hs =>
    obtain ⟨k, hp, hrest⟩ := Option.bind_eq_some_iff.1 h
    obtain ⟨l, hq, hrest⟩ := Option.bind_eq_some_iff.1 hrest
    obtain ⟨m, hr, hrest⟩ := Option.bind_eq_some_iff.1 hrest
    obtain ⟨n, ht, ha⟩ := Option.bind_eq_some_iff.1 hrest
    obtain ⟨hk, rfl⟩ := eq_decimal_of_readOctet? hp
    obtain ⟨hl, rfl⟩ := eq_decimal_of_readOctet? hq
    obtain ⟨hm, rfl⟩ := eq_decimal_of_readOctet? hr
    obtain ⟨hn, rfl⟩ := eq_decimal_of_readOctet? ht
    cases ha
    obtain ⟨hk, hl, hm, hn⟩ := octet_ofOctets hk hl hm hn
    rw [chars_eq_intercalate, hk, hl, hm, hn, ← hs, Text.intercalate_splitAt]
  · cases h

theorem eq_text_of_ofText? {s : String} (h : ofText? s = some a) : s = a.text := by
  rw [text, ← eq_chars_of_ofChars? h, String.ofList_toList]

theorem isAlphanum_of_mem_chars {c : Char} (h : c ∈ a.chars) : c.isAlphanum = true ∨ c = '.' := by
  simp only [chars, joined, List.mem_append, List.mem_cons] at h
  rcases h with ((h | rfl | h) | rfl | h) | rfl | h
  all_goals first | exact .inr rfl | exact .inl (Text.isAlphanum_of_mem_decimal h)

end Addr

namespace Mac

theorem readOctet?_hex (b : UInt8) : readOctet? (Text.hex 2 b.toNat) = some b := by
  have hd : Text.digits? 16 (Text.hex 2 b.toNat) = some b.toNat :=
    Text.digits?_hex (by decide) (by simpa using b.toNat_lt)
  have hu : Text.unsigned? 16 256 (Text.hex 2 b.toNat) = some b.toNat :=
    Text.unsigned?_eq_some_iff.2 ⟨b.toNat_lt, _, .inl rfl, hd⟩
  simp [readOctet?, hu]

theorem readOctets_succ {text : String} {part : List Char} {parts rest : List (List Char)} {n : Nat}
    {v : Vector UInt8 n} {b : UInt8} (hparts : readOctets text n parts = .ok (v, part :: rest))
    (hpart : readOctet? part = some b) : readOctets text (n + 1) parts = .ok (v.push b, rest) := by
  rw [readOctets, hparts]
  simp only [bind, Except.bind, hpart]

theorem readOctets_hex (text : String) {n : Nat} (v : Vector UInt8 n) (rest : List (List Char)) :
    readOctets text n (v.toList.map (fun b => Text.hex 2 b.toNat) ++ rest) = .ok (v, rest) := by
  induction n generalizing rest with
  | zero =>
    have hv : v = #v[] := Vector.eq_empty
    rw [hv]
    rfl
  | succ n ih =>
    obtain ⟨v, b, rfl⟩ : ∃ u b, v = Vector.push u b := Vector.exists_push
    rw [Vector.toList_push, List.map_append, List.append_assoc]
    exact readOctets_succ (ih _ _) (readOctet?_hex b)

theorem isAlphanum_of_mem_chars {m : Mac} {c : Char} (h : c ∈ m.chars) : c.isAlphanum = true ∨ c = ':' := by
  rcases Text.mem_intercalate h with rfl | ⟨s, hs, hc⟩
  · exact .inr rfl
  · obtain ⟨b, -, rfl⟩ := List.mem_map.1 hs
    exact .inl (Text.isAlphanum_of_mem_hex hc)

theorem splitAt_chars (m : Mac) : Text.splitAt (fun c => c = ':' || c = '-') m.chars =
    m.octets.toList.map fun b => Text.hex 2 b.toNat := by
  refine Text.splitAt_intercalate (by decide) (by simp) ?_
  intro s hs c hc
  obtain ⟨b, -, rfl⟩ := List.mem_map.1 hs
  have hc := Text.isAlphanum_of_mem_hex hc
  rw [ne_of_isAlphanum hc (by decide), ne_of_isAlphanum hc (by decide)]
  rfl

@[simp] theorem parse_text (m : Mac) : parse m.text = .ok m := by
  have hr := readOctets_hex m.text m.octets []
  rw [List.append_nil] at hr
  rw [parse, text, String.toList_ofList, splitAt_chars]
  rw [text] at hr
  rw [hr]
  rfl

@[simp] theorem ofText?_text (m : Mac) : ofText? m.text = some m := by simp [ofText?, Except.toOption]

end Mac

namespace Addr6

variable {l : List UInt16} {s r : List Char} {dotted : Bool}

theorem readGroup?_hexShort (g : UInt16) : readGroup? (Text.hexShort g.toNat) = some g := by
  have hlen : (Text.hexShort g.toNat).length ≤ 4 :=
    (Nat.length_toDigits_le_iff (by decide) (by decide)).2 g.toNat_lt
  rw [readGroup?, if_pos hlen, Text.digits?_hexShort]
  simp

theorem readGroups?_hexShort (dotted : Bool) (l : List UInt16) :
    readGroups? dotted (l.map fun g => Text.hexShort g.toNat) = some l := by
  induction l with
  | nil => rfl
  | cons g l ih =>
    cases l with
    | nil => simp [readGroups?, readGroup?_hexShort]
    | cons g' l =>
      simp only [List.map_cons] at ih ⊢
      simp [readGroups?, readGroup?_hexShort, ih]

theorem joinGroups_cons_cons (g g' : UInt16) (l : List UInt16) :
    joinGroups (g :: g' :: l) = Text.hexShort g.toNat ++ ':' :: joinGroups (g' :: l) := by
  simp [joinGroups, List.intercalate_cons_cons]

theorem splitAt_joinGroups (hl : l ≠ []) :
    Text.splitAt (· = ':') (joinGroups l) = l.map fun g => Text.hexShort g.toNat := by
  refine Text.splitAt_intercalate (by decide) (by simpa using hl) ?_
  intro s hs c hc
  obtain ⟨g, -, rfl⟩ := List.mem_map.1 hs
  exact ne_of_isAlphanum (Text.isAlphanum_of_mem_hexShort hc) (by decide)

theorem joinGroups_eq_nil : joinGroups l = [] ↔ l = [] := by
  cases l with
  | nil => simp [joinGroups]
  | cons g l =>
    have hg : Text.hexShort g.toNat ≠ [] := Nat.toDigits_ne_nil
    cases l with
    | nil => simpa [joinGroups] using hg
    | cons g' l => simp [joinGroups_cons_cons]

theorem readPart?_joinGroups (dotted : Bool) (l : List UInt16) : readPart? dotted (joinGroups l) = some l := by
  by_cases hl : l = []
  · subst hl
    rfl
  · rw [readPart?, if_neg (mt joinGroups_eq_nil.1 hl), splitAt_joinGroups hl, readGroups?_hexShort]

theorem not_colon_of_mem_hexShort (g : UInt16) : ':' ∉ Text.hexShort g.toNat :=
  fun h => absurd (Text.isAlphanum_of_mem_hexShort h) (by decide)

theorem cutAtPair_append (hs : ':' ∉ s) : cutAtPair (s ++ r) = (cutAtPair r).map fun p => (s ++ p.1, p.2) := by
  induction s with
  | nil => simp
  | cons c s ih =>
    rw [List.mem_cons, not_or] at hs
    rw [List.cons_append, cutAtPair, ih hs.2, Option.map_map]
    · rfl
    · intro _ hc _
      exact hs.1 hc.symm

theorem cutAtPair_colon (hr : r.head? ≠ some ':') :
    cutAtPair (':' :: r) = (cutAtPair r).map fun p => (':' :: p.1, p.2) := by
  rw [cutAtPair]
  rintro s - rfl
  exact hr rfl

theorem head?_joinGroups_append (g : UInt16) (l : List UInt16) (r : List Char) :
    (joinGroups (g :: l) ++ r).head? ≠ some ':' := by
  obtain ⟨c, s, hs⟩ : ∃ c s, Text.hexShort g.toNat = c :: s := List.exists_cons_of_ne_nil Nat.toDigits_ne_nil
  have hc : c ≠ ':' := by
    rintro rfl
    exact not_colon_of_mem_hexShort g (hs ▸ List.mem_cons_self)
  cases l with
  | nil => simpa [joinGroups, hs] using hc
  | cons g' l => simpa [joinGroups_cons_cons, hs] using hc

theorem cutAtPair_joinGroups (l : List UInt16) (r : List Char) :
    cutAtPair (joinGroups l ++ r) = (cutAtPair r).map fun p => (joinGroups l ++ p.1, p.2) := by
  induction l with
  | nil => simp [joinGroups]
  | cons g l ih =>
    cases l with
    | nil =>
      simp only [joinGroups, List.map_cons, List.map_nil, List.intercalate_singleton]
      exact cutAtPair_append (not_colon_of_mem_hexShort g)
    | cons g' l =>
      rw [joinGroups_cons_cons, List.append_assoc, cutAtPair_append (not_colon_of_mem_hexShort g),
        List.cons_append, cutAtPair_colon (head?_joinGroups_append g' l r), ih]
      simp [Function.comp_def]

theorem longestZeros_spec (i : Nat) (l : List UInt16) :
    ∃ a b, l = a ++ List.replicate (longestZeros i l).2 0 ++ b ∧ (longestZeros i l).1 = i + a.length := by
  induction l generalizing i with
  | nil => exact ⟨[], [], rfl, rfl⟩
  | cons g l ih =>
    simp only [longestZeros]
    split
    · refine ⟨[], (g :: l).dropWhile (· = 0), ?_, rfl⟩
      have hrun : (g :: l).takeWhile (· = 0) = List.replicate (zeroRun (g :: l)) 0 := by
        refine List.eq_replicate_iff.2 ⟨rfl, fun h hh => ?_⟩
        simpa using List.all_eq_true.1 List.all_takeWhile h hh
      rw [List.nil_append, ← hrun, List.takeWhile_append_dropWhile]
    · obtain ⟨a, b, hl, hi⟩ := ih (i + 1)
      refine ⟨g :: a, b, congrArg (g :: ·) hl, ?_⟩
      rw [hi, List.length_cons]
      omega

theorem ofGroups?_toList (a : Addr6) : ofGroups? a.toList = some a := by
  rw [ofGroups?, dif_pos Vector.length_toList]
  rfl

theorem ofChars?_shortened {a b : List UInt16} {n : Nat} {v : Addr6} (hn : 1 < n)
    (hv : v.toList = a ++ List.replicate n 0 ++ b) :
    ofChars? (joinGroups a ++ "::".toList ++ joinGroups b) = some v := by
  have hlen : a.length + (n + b.length) = 8 := by simpa using (congrArg List.length hv).symm
  have hcut : cutAtPair (joinGroups a ++ "::".toList ++ joinGroups b) = some (joinGroups a, joinGroups b) := by
    rw [List.append_assoc, cutAtPair_joinGroups]
    simp [cutAtPair]
  have hfilled : a.length + b.length < 8 := by omega
  have hzeros : 8 - (a.length + b.length) = n := by omega
  rw [ofChars?, hcut]
  simp only [readPart?_joinGroups, hzeros, if_pos hfilled, Option.bind_eq_bind, Option.bind_some, ← hv,
    ofGroups?_toList]

theorem groupsOfAddr_ofNat (hi lo : UInt16) :
    groupsOfAddr ⟨UInt32.ofNat (hi.toNat * 65536 + lo.toNat)⟩ = [hi, lo] := by
  have hhi := hi.toNat_lt
  have hlo := lo.toNat_lt
  have hword : (UInt32.ofNat (hi.toNat * 65536 + lo.toNat)).toNat = hi.toNat * 65536 + lo.toNat :=
    UInt32.toNat_ofNat_of_lt' (by simp only [UInt32.size]; omega)
  have hdiv : (hi.toNat * 65536 + lo.toNat) / 65536 = hi.toNat := by omega
  have hmod : (hi.toNat * 65536 + lo.toNat) % 65536 = lo.toNat := by omega
  simp only [groupsOfAddr, hword, hdiv, hmod, UInt16.ofNat_toNat]

theorem readGroup?_addr (a : Addr) : readGroup? a.chars = none := by
  have hpos (n : Nat) : 0 < (Text.decimal n).length := Nat.length_toDigits_pos
  have hlen : ¬ a.chars.length ≤ 4 := by
    simp only [Addr.chars, Addr.joined, List.length_append, List.length_cons]
    have := hpos (a.octet 3)
    have := hpos (a.octet 2)
    omega
  rw [readGroup?, if_neg hlen]

theorem ofChars?_mapped {v : Addr6} {a : Addr} {hi lo : UInt16} (ha : groupsOfAddr a = [hi, lo])
    (hv : v.toList = [0, 0, 0, 0, 0, 0xffff, hi, lo]) : ofChars? ("::ffff:".toList ++ a.chars) = some v := by
  have hcut : cutAtPair ("::ffff:".toList ++ a.chars) = some ([], "ffff".toList ++ ':' :: a.chars) := rfl
  have hsplit : Text.splitAt (· = ':') ("ffff".toList ++ ':' :: a.chars) = ["ffff".toList, a.chars] := by
    have hletters : "ffff".toList.all Char.isAlphanum := by decide
    rw [Text.splitAt_append_cons (fun c hc => ne_of_isAlphanum (List.all_eq_true.1 hletters c hc) (by decide))
      (by decide), Text.splitAt_eq_singleton]
    intro c hc
    rcases Addr.isAlphanum_of_mem_chars hc with hc | rfl
    · exact ne_of_isAlphanum hc (by decide)
    · rfl
  have hffff : readGroup? "ffff".toList = some 0xffff := by decide
  have htail : readPart? true ("ffff".toList ++ ':' :: a.chars) = some [0xffff, hi, lo] := by
    rw [readPart?, if_neg (by simp), hsplit]
    simp only [readGroups?, hffff, readGroup?_addr, Addr.ofChars?_chars, ha, Option.map_none, Option.map_some,
      if_pos, Option.bind_eq_bind, Option.bind_some]
    rfl
  have hgroups : ofGroups? ([] ++ List.replicate (8 - (0 + 3)) 0 ++ [0xffff, hi, lo]) = some v := by
    rw [← ofGroups?_toList v, hv]
    rfl
  rw [ofChars?, hcut]
  change ((readPart? true ("ffff".toList ++ ':' :: a.chars)).bind fun tail => _) = _
  rw [htail]
  exact hgroups

@[simp] theorem ofChars?_chars (v : Addr6) : ofChars? v.chars = some v := by
  unfold chars
  split
  · next hi lo hv => exact ofChars?_mapped (groupsOfAddr_ofNat hi lo) hv
  · obtain ⟨a, b, hl, hstart⟩ := longestZeros_spec 0 v.toList
    generalize longestZeros 0 v.toList = run at hl hstart ⊢
    obtain ⟨start, n⟩ := run
    simp only [Nat.zero_add] at hl hstart ⊢
    subst hstart
    split
    · next hn =>
      have ha : v.toList.take a.length = a := by simp [hl]
      have hb : v.toList.drop (a.length + n) = b := by simp [hl, List.drop_append]
      rw [ha, hb]
      exact ofChars?_shortened hn hl
    · have hcut : cutAtPair (joinGroups v.toList) = none := by
        simpa [cutAtPair] using cutAtPair_joinGroups v.toList []
      simp [ofChars?, hcut, readPart?_joinGroups, ofGroups?_toList]

theorem isAlphanum_of_mem_joinGroups {c : Char} (h : c ∈ joinGroups l) : c.isAlphanum = true ∨ c = ':' := by
  induction l with
  | nil => cases h
  | cons g l ih =>
    cases l with
    | nil => exact .inl (Text.isAlphanum_of_mem_hexShort (by simpa [joinGroups] using h))
    | cons g' l =>
      rw [joinGroups_cons_cons, List.mem_append, List.mem_cons] at h
      rcases h with h | h | h
      · exact .inl (Text.isAlphanum_of_mem_hexShort h)
      · exact .inr h
      · exact ih h

theorem isAlphanum_of_mem_chars {v : Addr6} {c : Char} (h : c ∈ v.chars) :
    c.isAlphanum = true ∨ c = ':' ∨ c = '.' := by
  unfold chars at h
  split at h
  · rcases List.mem_append.1 h with h | h
    · have hfront : "::ffff:".toList.all fun c => c.isAlphanum || c = ':' || c = '.' := by decide
      simpa [or_assoc] using List.all_eq_true.1 hfront c h
    · exact (Addr.isAlphanum_of_mem_chars h).imp_right .inr
  · simp only at h
    split at h
    · simp only [List.mem_append] at h
      rcases h with (h | h) | h
      · exact (isAlphanum_of_mem_joinGroups h).imp_right .inl
      · exact .inr (.inl (by simpa using h))
      · exact (isAlphanum_of_mem_joinGroups h).imp_right .inl
    · exact (isAlphanum_of_mem_joinGroups h).imp_right .inl

end Addr6

namespace SocketAddr

theorem readPort?_decimal (port : UInt16) : readPort? (Text.decimal port.toNat) = some port := by
  simp [readPort?, port.toNat_lt_size]

theorem ne_of_mem_chars {v : Addr6} {c d : Char} (h : d ∈ v.chars) (hc : c.isAlphanum = false)
    (hcolon : c ≠ ':') (hdot : c ≠ '.') : decide (d = c) = false := by
  rcases Addr6.isAlphanum_of_mem_chars h with h | rfl | rfl
  · exact ne_of_isAlphanum h hc
  · simpa using hcolon.symm
  · simpa using hdot.symm

theorem ne_of_mem_decimal {n : Nat} {c d : Char} (h : d ∈ Text.decimal n) (hc : c.isAlphanum = false) :
    decide (d = c) = false := ne_of_isAlphanum (Text.isAlphanum_of_mem_decimal h) hc

theorem ofText?_v4 (a : Addr) (port : UInt16) : ofText? (text (.v4 a port)) = some (.v4 a port) := by
  have hsplit : Text.splitAt (· = ':') (a.chars ++ ':' :: Text.decimal port.toNat) =
      [a.chars, Text.decimal port.toNat] := by
    rw [Text.splitAt_append_cons _ (by decide), Text.splitAt_eq_singleton]
    · exact fun c hc => ne_of_mem_decimal hc (by decide)
    · intro c hc
      rcases Addr.isAlphanum_of_mem_chars hc with hc | rfl
      · exact ne_of_isAlphanum hc (by decide)
      · rfl
  have hbracket : ∀ r, a.chars ++ ':' :: Text.decimal port.toNat ≠ '[' :: r := by
    intro r hr
    have hmem : '[' ∈ a.chars ++ ':' :: Text.decimal port.toNat := hr ▸ List.mem_cons_self
    simp only [List.mem_append, List.mem_cons] at hmem
    rcases hmem with h | h | h
    · exact absurd (Addr.isAlphanum_of_mem_chars h) (by decide)
    · exact absurd h (by decide)
    · exact absurd (Text.isAlphanum_of_mem_decimal h) (by decide)
  rw [ofText?, text, String.toList_ofList]
  split
  · next r hr => exact absurd hr (hbracket r)
  · rw [hsplit]
    simp [readPort?_decimal]

def zoneChars (scope : UInt32) : List Char := if scope = 0 then [] else '%' :: Text.decimal scope.toNat

theorem readZoned?_chars (v : Addr6) (scope : UInt32) :
    readZoned? (v.chars ++ zoneChars scope) = some (v, scope) := by
  have hv : ∀ c ∈ v.chars, decide (c = '%') = false :=
    fun c hc => ne_of_mem_chars hc (by decide) (by decide) (by decide)
  rw [zoneChars, readZoned?]
  split_ifs with h0
  · rw [List.append_nil, Text.splitAt_eq_singleton hv, h0]
    simp
  · rw [Text.splitAt_append_cons hv (by decide),
      Text.splitAt_eq_singleton fun c hc => ne_of_mem_decimal hc (by decide)]
    simp [Option.filter_some, scope.toNat_lt_size]

theorem ofText?_v6 (v : Addr6) (scope : UInt32) (port : UInt16) :
    ofText? (text (.v6 v scope port)) = some (.v6 v scope port) := by
  have htext : (text (.v6 v scope port)).toList =
      '[' :: ((v.chars ++ zoneChars scope) ++ ']' :: ':' :: Text.decimal port.toNat) := by
    simp [text, zoneChars]
  have hinner : ∀ c ∈ v.chars ++ zoneChars scope, decide (c = ']') = false := by
    intro c hc
    rcases List.mem_append.1 hc with hc | hc
    · exact ne_of_mem_chars hc (by decide) (by decide) (by decide)
    · rw [zoneChars] at hc
      split at hc
      · cases hc
      · rcases List.mem_cons.1 hc with rfl | hc
        · rfl
        · exact ne_of_mem_decimal hc (by decide)
  have hport : ∀ c ∈ ':' :: Text.decimal port.toNat, decide (c = ']') = false := by
    rw [List.forall_mem_cons]
    exact ⟨rfl, fun c hc => ne_of_mem_decimal hc (by decide)⟩
  rw [ofText?, htext]
  simp only
  rw [Text.splitAt_append_cons hinner (by decide), Text.splitAt_eq_singleton hport]
  simp [readZoned?_chars, readPort?_decimal]

@[simp] theorem ofText?_text (s : SocketAddr) : ofText? s.text = some s := by
  cases s with
  | v4 a port => exact ofText?_v4 a port
  | v6 v scope port => exact ofText?_v6 v scope port

end SocketAddr

end LiveMigration
