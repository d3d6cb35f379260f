import LiveMigration.Json.Writer
import LiveMigration.Proofs.Text.Digits

namespace LiveMigration.Json

def Unescaped (s : String) : Prop := ∀ c ∈ s.toList, escapeChar c = [c]

-- The letters of the text are gone through, not all characters.
instance : DecidablePred Unescaped := fun s => List.decidableBAll (fun c => escapeChar c = [c]) s.toList

def members (l : List (String × Json)) : List (Key × Json) := l.map fun e => (.ofString e.1, e.2)

inductive Written : Json → Prop
  | null : Written .null
  | bool (b : Bool) : Written (.bool b)
  | nat {n : Nat} (h : n < UInt64.size) : Written (.nat n)
  | str (s : String) : Written (.str s)
  | array {l : List Json} (h : ∀ j ∈ l, Written j) : Written (.array l)
  | object {l : List (String × Json)} (hk : ∀ e ∈ l, Unescaped e.1) (h : ∀ e ∈ l, Written e.2) :
    Written (.object (members l))

section Strings

variable {s r : List Char} {c : Char}

theorem codePoints_cons (hq : c ≠ '"') (hb : c ≠ '\\') (hc : ¬ c.toNat < 0x20) (s : List Char) :
    codePoints (c :: s) = (codePoints s).map fun p => (c.toNat :: p.1, p.2) := by
  rw [codePoints, if_neg hc]
  · cases codePoints s <;> rfl
  · exact fun h => absurd h hq
  · exact fun _ _ _ _ _ h _ => absurd h hb
  · exact fun _ _ h _ => absurd h hb

theorem codePoints_escapeChar (c : Char) (s : List Char) :
    codePoints (escapeChar c ++ s) = (codePoints s).map fun p => (c.toNat :: p.1, p.2) := by
  unfold escapeChar
  split
  · next letter h =>
    unfold escapeLetter? at h
    split at h <;> cases h <;> cases hs : codePoints s <;> simp [codePoints, shortEscape?, hs]
  · next h =>
    split
    · next hc =>
      have hd : Text.digits? 16 (Text.hex 4 c.toNat) = some c.toNat := Text.digits?_hex (by decide) (by omega)
      simp only [Text.hex, List.nil_append, List.cons_append] at hd ⊢
      rw [codePoints, hd]
      cases codePoints s <;> rfl
    · next hc =>
      refine codePoints_cons ?_ ?_ hc s
      · rintro rfl
        cases h
      · rintro rfl
        cases h

theorem joinPairs_toNat (s : List Char) : joinPairs (s.map Char.toNat) = some s := by
  induction s with
  | nil => rfl
  | cons c s ih =>
    have hc : c.toNat < 0xD800 ∨ 0xDFFF < c.toNat := c.valid.imp id And.left
    cases s with
    | nil => simp [joinPairs]; omega
    | cons d s =>
      simp only [List.map_cons] at ih ⊢
      rw [joinPairs, if_neg (by omega), if_neg (by omega), ih]
      simp

theorem readText_textChars (s : String) (r : List Char) :
    readText (s.toList.flatMap escapeChar ++ '"' :: r) = some (some s, r) := by
  have hpoints (l : List Char) :
      codePoints (l.flatMap escapeChar ++ '"' :: r) = some (l.map Char.toNat, r) := by
    induction l with
    | nil => rfl
    | cons c l ih => rw [List.flatMap_cons, List.append_assoc, codePoints_escapeChar, ih]; rfl
  rw [readText, hpoints]
  simp [joinPairs_toNat]

theorem readKey_textChars {s : String} (hs : Unescaped s) (r : List Char) :
    readKey (s.toList.flatMap escapeChar ++ '"' :: r) = some (.ofString s, r) := by
  have hflat : s.toList.flatMap escapeChar = s.toList := by
    rw [List.flatMap_def, List.map_congr_left hs, ← List.flatMap_def, List.flatMap_singleton']
  have hquote : ∀ c ∈ s.toList, decide (c ≠ '"') = true := by
    intro c hc
    refine decide_eq_true ?_
    rintro rfl
    exact absurd (hs _ hc) (by decide)
  have hslash : '\\' ∉ s.toList := fun hc => absurd (hs _ hc) (by decide)
  have hplain : isPlain (s.toList.flatMap escapeChar ++ '"' :: r) = true := by
    rw [hflat, isPlain, List.takeWhile_append_of_pos hquote]
    simpa using hslash
  rw [readKey, readText_textChars, hplain]
  rfl

end Strings

section Numbers

variable {c : Char} {r : List Char}

def Closes (r : List Char) : Prop := ∀ c, r.head? = some c → c = ',' ∨ c = ']' ∨ c = '\x7d'

theorem closes_cons (hc : c = ',' ∨ c = ']' ∨ c = '\x7d') : Closes (c :: r) := by
  rintro d hd
  cases hd
  exact hc

theorem digitRun_decimal (n : Nat) (hr : Closes r) :
    digitRun (Text.decimal n ++ r) = some (Text.decimal n, r) := by
  have hd : ∀ c ∈ Text.decimal n, c.isDigit = true :=
    fun c => Nat.isDigit_of_mem_toDigits (by decide) (by decide)
  have htake : r.takeWhile Char.isDigit = [] ∧ r.dropWhile Char.isDigit = r := by
    cases r with
    | nil => exact ⟨rfl, rfl⟩
    | cons c r => rcases hr c rfl with rfl | rfl | rfl <;> exact ⟨rfl, rfl⟩
  have hnil : Text.decimal n ≠ [] := Nat.toDigits_ne_nil
  simp [digitRun, List.takeWhile_append_of_pos hd, List.dropWhile_append_of_pos hd, htake.1, htake.2, hnil]

theorem exists_decimal (n : Nat) :
    ∃ c s, Text.decimal n = c :: s ∧ isSpace c = false ∧ ∀ d : Char, d.isDigit = false → c ≠ d := by
  obtain ⟨c, s, h⟩ : ∃ c s, Text.decimal n = c :: s := List.exists_cons_of_ne_nil Nat.toDigits_ne_nil
  have hc : c.isDigit = true := Nat.isDigit_of_mem_toDigits (by decide) (by decide) (h ▸ List.mem_cons_self)
  have hne (d : Char) (hd : d.isDigit = false) : c ≠ d := by
    rintro rfl
    cases hc.symm.trans hd
  refine ⟨c, s, h, ?_, hne⟩
  simp [isSpace, hne ' ' rfl, hne '\t' rfl, hne '\n' rfl, hne '\r' rfl]

theorem readWhole_decimal (n : Nat) (hr : Closes r) : readWhole (Text.decimal n ++ r) = some (n, r) := by
  have hzero : ¬ ((Text.decimal n).head? = some '0' ∧ Text.decimal n ≠ ['0']) := by
    rintro ⟨h0, hne⟩
    by_cases hn : n = 0
    · exact hne (hn ▸ rfl)
    · exact Text.head?_decimal hn h0
  have hvalue : Nat.ofDigitChars 10 (Text.decimal n) 0 = n := Nat.ofDigitChars_toDigits (by decide) (by decide)
  simp only [readWhole, digitRun_decimal n hr, Option.bind_eq_bind, Option.bind_some, if_neg hzero, hvalue]
  rfl

theorem readFraction_of_closes (hr : Closes r) : readFraction r = some ([], r) := by
  cases r with
  | nil => rfl
  | cons c r => rcases hr c rfl with rfl | rfl | rfl <;> rfl

theorem readExponent_of_closes (hr : Closes r) : readExponent r = some (none, r) := by
  cases r with
  | nil => rfl
  | cons c r => rcases hr c rfl with rfl | rfl | rfl <;> rfl

theorem readNumeral_decimal (n : Nat) (hr : Closes r) :
    readNumeral (Text.decimal n ++ r) = some (.ofNat n, r) := by
  have hwhole := readWhole_decimal n hr
  obtain ⟨c, s, hs, -, hne⟩ := exists_decimal n
  rw [hs, List.cons_append] at hwhole ⊢
  unfold readNumeral
  split
  next negative front h =>
    split at h
    · next hminus => exact absurd (List.cons.inj hminus).1 (hne _ rfl)
    · cases h
      simp [hwhole, readFraction_of_closes hr, readExponent_of_closes hr, Numeral.ofNat]

end Numbers

section Values

variable {fuel : Nat} {j : Json} {r : List Char}

theorem chars_ne_nil (j : Json) : j.chars ≠ [] := by
  cases j with
  | null => simp [chars]
  | bool b => cases b <;> simp [chars]
  | number n =>
    have hn : Text.decimal n.whole ≠ [] := Nat.toDigits_ne_nil
    simp [chars, Numeral.chars, hn]
  | string s =>
    cases s with
    | none => exact (by decide : stringChars none ≠ [])
    | some s => nofun
  | array l => cases l <;> simp [chars]
  | object l => rcases l with _ | ⟨e, l⟩ <;> simp [chars]

def Readable (j : Json) : Prop := ∀ fuel r, 2 * j.chars.length ≤ fuel → Closes r →
  readValue fuel (j.chars ++ r) = some (j, r)

theorem readable_of_succ (h : ∀ fuel r, 2 * j.chars.length ≤ fuel + 1 → Closes r →
    readValue (fuel + 1) (j.chars ++ r) = some (j, r)) : Readable j := by
  intro fuel r hf hr
  have hpos : 0 < j.chars.length := List.length_pos_iff.2 j.chars_ne_nil
  obtain ⟨fuel, rfl⟩ : ∃ f, fuel = f + 1 := ⟨fuel - 1, by omega⟩
  exact h fuel r hf hr

theorem readable_null : Readable .null := readable_of_succ fun _ _ _ _ => rfl

theorem readable_bool (b : Bool) : Readable (.bool b) := by
  refine readable_of_succ fun fuel r _ _ => ?_
  cases b <;> rfl

theorem chars_str (s : String) : (str s).chars = '"' :: (s.toList.flatMap escapeChar ++ ['"']) := rfl

theorem readValue_quote (fuel : Nat) (s : List Char) :
    readValue (fuel + 1) ('"' :: s) = (readText s).map fun (t, r) => (.string t, r) :=
  rfl

theorem readable_str (s : String) : Readable (.str s) := by
  refine readable_of_succ fun fuel r _ _ => ?_
  rw [chars_str, List.cons_append, List.append_assoc, List.singleton_append, readValue_quote, readText_textChars]
  rfl

theorem chars_nat (n : Nat) : (nat n).chars = Text.decimal n := by
  simp [nat, chars, Numeral.chars, Numeral.ofNat]

theorem readable_nat (n : Nat) : Readable (.nat n) := by
  refine readable_of_succ fun fuel r _ hr => ?_
  have hread := readNumeral_decimal n hr
  obtain ⟨c, s, hs, hspace, hne⟩ := exists_decimal n
  rw [chars_nat]
  rw [hs, List.cons_append] at hread ⊢
  rw [readValue, skip, List.dropWhile_cons_of_neg (by simp [hspace])]
  split
  iterate 6 next h => exact absurd (List.cons.inj h).1 (hne _ rfl)
  rw [hread]
  rfl

theorem Written.exists_chars (h : j.Written) : ∃ c s, j.chars = c :: s ∧ isSpace c = false ∧ c ≠ ']' := by
  cases h with
  | null => exact ⟨'n', _, rfl, rfl, by decide⟩
  | bool b => cases b <;> exact ⟨_, _, rfl, rfl, by decide⟩
  | @nat n _ =>
    obtain ⟨c, s, hs, hspace, hne⟩ := exists_decimal n
    exact ⟨c, s, (chars_nat n).trans hs, hspace, hne _ rfl⟩
  | str s => exact ⟨'"', _, rfl, rfl, by decide⟩
  | @array l _ => cases l <;> exact ⟨'[', _, rfl, rfl, by decide⟩
  | @object l _ _ => cases l <;> exact ⟨'\x7b', _, rfl, rfl, by decide⟩

theorem readItems_chars {l : List Json} (hj : Readable j) (hl : ∀ i ∈ l, Readable i)
    (hf : 2 * (j.chars ++ itemChars l).length ≤ fuel) :
    readItems fuel (j.chars ++ itemChars l ++ r) = some (j :: l, r) := by
  induction l generalizing j fuel with
  | nil =>
    simp only [itemChars, List.length_append, List.length_singleton] at hf
    obtain ⟨fuel, rfl⟩ : ∃ f, fuel = f + 1 := ⟨fuel - 1, by omega⟩
    have hread := hj fuel (']' :: r) (by omega) (closes_cons (by decide))
    rw [itemChars, List.append_assoc, List.singleton_append, readItems, hread]
    rfl
  | cons i l ih =>
    rw [List.forall_mem_cons] at hl
    simp only [itemChars, List.length_append, List.length_cons] at hf
    obtain ⟨fuel, rfl⟩ : ∃ f, fuel = f + 1 := ⟨fuel - 1, by omega⟩
    have hrest : readItems fuel (i.chars ++ itemChars l ++ r) = some (i :: l, r) :=
      ih hl.1 hl.2 (by rw [List.length_append]; omega)
    have hread := hj fuel (',' :: (i.chars ++ itemChars l ++ r)) (by omega) (closes_cons (by decide))
    have hchars : j.chars ++ itemChars (i :: l) ++ r = j.chars ++ ',' :: (i.chars ++ itemChars l ++ r) := by
      simp [itemChars]
    rw [hchars, readItems, hread]
    change (readItems fuel (i.chars ++ itemChars l ++ r) >>= _) = _
    rw [hrest]
    rfl

theorem readValue_bracket (fuel : Nat) (s : List Char) :
    readValue (fuel + 1) ('[' :: s) = match skip s with
      | ']' :: r => some (.array [], r)
      | r => (readItems fuel r).map fun (l, r) => (.array l, r) :=
  rfl

theorem readable_array {l : List Json} (hw : ∀ j ∈ l, Written j) (h : ∀ j ∈ l, Readable j) :
    Readable (.array l) := by
  refine readable_of_succ fun fuel r hf _ => ?_
  cases l with
  | nil => rfl
  | cons j l =>
    rw [List.forall_mem_cons] at hw h
    obtain ⟨c, s, hs, hspace, hne⟩ := hw.1.exists_chars
    have hread : readItems fuel (j.chars ++ itemChars l ++ r) = some (j :: l, r) :=
      readItems_chars h.1 h.2 (by simp only [chars, List.length_cons, List.length_append] at hf ⊢; omega)
    have hskip : skip (j.chars ++ itemChars l ++ r) = j.chars ++ itemChars l ++ r := by
      rw [hs, List.cons_append, List.cons_append, skip, List.dropWhile_cons_of_neg (by simp [hspace])]
    change readValue (fuel + 1) ('[' :: (j.chars ++ itemChars l ++ r)) = _
    rw [readValue_bracket, hskip]
    split
    · next h =>
      rw [hs] at h
      exact absurd (List.cons.inj h).1 hne
    · rw [hread]
      rfl

theorem textChars_append (k : String) (r : List Char) :
    textChars k ++ ':' :: r = '"' :: (k.toList.flatMap escapeChar ++ '"' :: ':' :: r) := by
  simp [textChars]

theorem readMembers_last {k : String} {s : List Char} (hk : Unescaped k)
    (hj : readValue fuel s = some (j, '\x7d' :: r)) :
    readMembers (fuel + 1) (textChars k ++ ':' :: s) = some ([(.ofString k, j)], r) := by
  rw [textChars_append, readMembers]
  change (readKey (k.toList.flatMap escapeChar ++ '"' :: ':' :: s) >>= _) = _
  rw [readKey_textChars hk]
  change (readValue fuel s >>= _) = _
  rw [hj]
  rfl

theorem readMembers_next {k : String} {s r' : List Char} {l : List (Key × Json)} (hk : Unescaped k)
    (hj : readValue fuel s = some (j, ',' :: r)) (hl : readMembers fuel r = some (l, r')) :
    readMembers (fuel + 1) (textChars k ++ ':' :: s) = some ((.ofString k, j) :: l, r') := by
  rw [textChars_append, readMembers]
  change (readKey (k.toList.flatMap escapeChar ++ '"' :: ':' :: s) >>= _) = _
  rw [readKey_textChars hk]
  change (readValue fuel s >>= _) = _
  rw [hj]
  change (readMembers fuel r >>= _) = _
  rw [hl]
  rfl

theorem readMembers_chars {k : String} {l : List (String × Json)} (hk : Unescaped k) (hj : Readable j)
    (hl : ∀ e ∈ l, Unescaped e.1 ∧ Readable e.2)
    (hf : 2 * (textChars k ++ ':' :: (j.chars ++ memberChars (members l))).length ≤ fuel) :
    readMembers fuel (textChars k ++ ':' :: (j.chars ++ memberChars (members l) ++ r)) =
      some (members ((k, j) :: l), r) := by
  induction l generalizing k j fuel with
  | nil =>
    simp only [members, List.map_nil, memberChars, List.length_append, List.length_cons] at hf
    obtain ⟨fuel, rfl⟩ : ∃ f, fuel = f + 1 := ⟨fuel - 1, by omega⟩
    have hread := hj fuel ('\x7d' :: r) (by omega) (closes_cons (by decide))
    rw [List.append_assoc]
    exact readMembers_last hk hread
  | cons e l ih =>
    obtain ⟨k', i⟩ := e
    rw [List.forall_mem_cons] at hl
    have hchars : memberChars (members ((k', i) :: l)) =
        ',' :: (textChars k' ++ ':' :: (i.chars ++ memberChars (members l))) := by
      change ',' :: textChars k' ++ ':' :: i.chars ++ memberChars (members l) = _
      simp
    rw [hchars] at hf ⊢
    simp only [List.length_append, List.length_cons] at hf
    obtain ⟨fuel, rfl⟩ : ∃ f, fuel = f + 1 := ⟨fuel - 1, by omega⟩
    have hrest : readMembers fuel (textChars k' ++ ':' :: (i.chars ++ memberChars (members l) ++ r)) =
        some (members ((k', i) :: l), r) :=
      ih hl.1.1 hl.1.2 hl.2 (by simp only [List.length_append, List.length_cons]; omega)
    have hread := hj fuel (',' :: (textChars k' ++ ':' :: (i.chars ++ memberChars (members l) ++ r)))
      (by omega) (closes_cons (by decide))
    have hfront : j.chars ++ ',' :: (textChars k' ++ ':' :: (i.chars ++ memberChars (members l))) ++ r =
        j.chars ++ ',' :: (textChars k' ++ ':' :: (i.chars ++ memberChars (members l) ++ r)) := by
      simp
    rw [hfront]
    exact readMembers_next hk hread hrest

theorem readable_object {l : List (String × Json)} (hk : ∀ e ∈ l, Unescaped e.1)
    (h : ∀ e ∈ l, Readable e.2) : Readable (.object (members l)) := by
  refine readable_of_succ fun fuel r hf _ => ?_
  cases l with
  | nil => rfl
  | cons e l =>
    obtain ⟨k, j⟩ := e
    rw [List.forall_mem_cons] at hk h
    have hchars : (object (members ((k, j) :: l))).chars =
        '\x7b' :: (textChars k ++ ':' :: (j.chars ++ memberChars (members l))) := by
      change '\x7b' :: textChars k ++ ':' :: j.chars ++ memberChars (members l) = _
      simp
    rw [hchars] at hf ⊢
    have hread : readMembers fuel (textChars k ++ ':' :: (j.chars ++ memberChars (members l) ++ r)) =
        some (members ((k, j) :: l), r) :=
      readMembers_chars hk.1 h.1 (fun e he => ⟨hk.2 e he, h.2 e he⟩)
        (by simp only [List.length_append, List.length_cons] at hf ⊢; omega)
    have hfront : '\x7b' :: (textChars k ++ ':' :: (j.chars ++ memberChars (members l))) ++ r =
        '\x7b' :: (textChars k ++ ':' :: (j.chars ++ memberChars (members l) ++ r)) := by
      simp
    rw [hfront]
    change (readMembers fuel (textChars k ++ ':' :: (j.chars ++ memberChars (members l) ++ r))).map _ = _
    rw [hread]
    rfl

end Values

theorem Written.readable {j : Json} (h : j.Written) : Readable j := by
  induction h with
  | null => exact readable_null
  | bool b => exact readable_bool b
  | nat _ => exact readable_nat _
  | str s => exact readable_str s
  | array h ih => exact readable_array h ih
  | object hk _ ih => exact readable_object hk ih

/-- A value as they are written is read back from its text. -/
theorem Written.ofText?_text {j : Json} (h : j.Written) : ofText? j.text = some j := by
  have hread := h.readable (2 * j.chars.length + 2) [] (by omega) nofun
  rw [List.append_nil] at hread
  rw [ofText?, ofFront?, text, String.toList_ofList, hread]
  rfl

end LiveMigration.Json
