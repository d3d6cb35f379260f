import LiveMigration.Hosts.Reading
import LiveMigration.Proofs.Text.Digits
import Mathlib.Data.List.TakeWhile

namespace LiveMigration

namespace Text

/-- Columns set out on a line, with blanks between them and any blanks around them. -/
inductive SetOut : (columns : List (List Char)) → (line : List Char) → Prop
  | blank {line} (h : ∀ c ∈ line, isBlank c = true) : SetOut [] line
  | column {gap column rest columns} (hgap : ∀ c ∈ gap, isBlank c = true) (hne : column ≠ [])
      (hcolumn : ∀ c ∈ column, isBlank c = false) (hrest : ∀ c ∈ rest.head?, isBlank c = true)
      (h : SetOut columns rest) : SetOut (column :: columns) (gap ++ column ++ rest)

section Columns

variable {columns : List (List Char)} {line gap column rest : List Char} {c : Char}

theorem words_cons_blank (hc : isBlank c = true) (s : List Char) : words (c :: s) = words s := by
  simp [words, splitAt, hc]

theorem words_append_of_blank (hgap : ∀ c ∈ gap, isBlank c = true) (s : List Char) :
    words (gap ++ s) = words s := by
  induction gap with
  | nil => rfl
  | cons c gap ih =>
    rw [List.forall_mem_cons] at hgap
    rw [List.cons_append, words_cons_blank hgap.1, ih hgap.2]

theorem words_column (hne : column ≠ []) (hcolumn : ∀ c ∈ column, isBlank c = false)
    (hrest : ∀ c ∈ rest.head?, isBlank c = true) : words (column ++ rest) = column :: words rest := by
  cases rest with
  | nil => simp [words, splitAt_eq_singleton hcolumn, splitAt, hne]
  | cons c rest =>
    have hc : isBlank c = true := hrest c rfl
    rw [words_cons_blank hc, words, splitAt_append_cons hcolumn hc]
    simp [words, hne]

theorem SetOut.words_eq (h : SetOut columns line) : words line = columns := by
  induction h with
  | blank h =>
    have := words_append_of_blank h []
    rwa [List.append_nil] at this
  | column hgap hne hcolumn hrest _ ih =>
    rw [List.append_assoc, words_append_of_blank hgap, words_column hne hcolumn hrest, ih]

theorem exists_setOut (line : List Char) : ∃ columns, SetOut columns line := by
  induction line with
  | nil => exact ⟨[], .blank nofun⟩
  | cons c line ih =>
    obtain ⟨columns, h⟩ := ih
    by_cases hc : isBlank c = true
    · cases h with
      | blank h => exact ⟨[], .blank (List.forall_mem_cons.2 ⟨hc, h⟩)⟩
      | @column gap column rest columns hgap hne hcolumn hrest h =>
        exact ⟨_, @SetOut.column (c :: gap) _ _ _ (List.forall_mem_cons.2 ⟨hc, hgap⟩) hne hcolumn hrest h⟩
    · replace hc : ∀ d ∈ [c], isBlank d = false := by simpa using hc
      -- The character is a column of its own or the first of the one that the line begins with.
      by_cases hline : ∀ d ∈ line.head?, isBlank d = true
      · exact ⟨[c] :: columns, @SetOut.column [] _ _ _ nofun nofun hc hline h⟩
      · cases h with
        | blank h => exact absurd (fun d hd => h d (List.mem_of_mem_head? hd)) hline
        | @column gap column rest columns hgap hne hcolumn hrest h =>
          cases gap with
          | cons d gap => exact absurd (by simpa using hgap d List.mem_cons_self) hline
          | nil =>
            refine ⟨(c :: column) :: columns, @SetOut.column [] _ _ _ nofun nofun ?_ hrest h⟩
            exact List.forall_mem_cons.2 ⟨hc c List.mem_cons_self, hcolumn⟩

theorem setOut_words (line : List Char) : SetOut (words line) line := by
  obtain ⟨columns, h⟩ := exists_setOut line
  rwa [h.words_eq]

theorem setOut_iff_words_eq : SetOut columns line ↔ words line = columns :=
  ⟨SetOut.words_eq, fun h => h ▸ setOut_words line⟩

instance : Decidable (SetOut columns line) := decidable_of_iff _ setOut_iff_words_eq.symm

theorem SetOut.append_blank (h : SetOut columns line) (hc : isBlank c = true) : SetOut columns (line ++ [c]) := by
  induction h with
  | blank h => exact .blank (by simpa [or_imp, forall_and] using ⟨h, hc⟩)
  | @column gap column rest columns hgap hne hcolumn hrest _ ih =>
    rw [List.append_assoc]
    refine .column hgap hne hcolumn ?_ ih
    cases rest with
    | nil => simpa using hc
    | cons d rest => exact hrest

theorem words_eq_nil_iff : words line = [] ↔ ∀ c ∈ line, isBlank c = true := by
  constructor
  · intro hnil
    have h := setOut_words line
    rw [hnil] at h
    cases h with
    | blank h => exact h
  · exact fun h => (SetOut.blank h).words_eq

theorem trim_eq_nil_iff : trim line = [] ↔ words line = [] := by
  rw [words_eq_nil_iff]
  constructor
  · intro h c hc
    rw [← List.takeWhile_append_dropWhile (p := isBlank) (l := line), List.mem_append] at hc
    rcases hc with hc | hc
    · exact List.all_eq_true.1 List.all_takeWhile c hc
    · rw [trim, List.reverse_eq_nil_iff, trimStart, List.dropWhile_eq_nil_iff] at h
      exact h c (List.mem_reverse.2 hc)
  · intro h
    have hstart : trimStart line = [] := List.dropWhile_eq_nil_iff.2 h
    rw [trim, hstart]
    rfl

theorem words_dropReturn (line : List Char) : words (dropReturn line) = words line := by
  unfold dropReturn
  split
  · next r hr =>
    have hline : line = r.reverse ++ ['\r'] := by
      rw [← List.reverse_reverse line, hr, List.reverse_cons]
    rw [hline]
    exact ((setOut_words _).append_blank (by decide)).words_eq.symm
  · rfl

theorem words_lines (s : List Char) : ((lines s).map words).filter (· ≠ []) =
    ((splitAt (· = '\n') s).map words).filter (· ≠ []) := by
  have hne : splitAt (· = '\n') s ≠ [] := splitAt_ne_nil
  rw [lines]
  obtain ⟨front, last, hpieces⟩ : ∃ front last, splitAt (· = '\n') s = front ++ [last] :=
    ⟨_, _, (List.dropLast_concat_getLast hne).symm⟩
  rw [hpieces]
  have hfront : (front.map dropReturn).map words = front.map words := by
    simp [Function.comp_def, words_dropReturn]
  cases last with
  | nil =>
    have hnil : words [] = [] := rfl
    simp [hfront, hnil]
  | cons c last => simp [hfront]

end Columns

end Text

namespace Hosts

/-- A number of 64 bits as it may be written: zeros and one plus sign stand in front, if at all. -/
def IsNumeral (w : List Char) (n : UInt64) : Prop :=
  ∃ digits, (w = digits ∨ w = '+' :: digits) ∧ digits ≠ [] ∧ (∀ c ∈ digits, c.isDigit = true) ∧
    Nat.ofDigitChars 10 digits 0 = n.toNat

section Numbers

variable {w s : List Char} {c : Char} {n : UInt64}

theorem digitBelow?_ten_iff {d : Nat} : Text.digitBelow? 10 c = some d ↔ c.isDigit = true ∧ c.toNat - 48 = d := by
  constructor
  · intro h
    obtain ⟨hlt, rfl⟩ := Text.digitBelow?_ten h
    interval_cases d <;> exact ⟨rfl, rfl⟩
  · rintro ⟨hc, rfl⟩
    have hbounds : 48 ≤ c.toNat ∧ c.toNat ≤ 57 := by
      simpa [Char.isDigit, UInt32.le_iff_toNat_le] using hc
    have hdigit : c = Nat.digitChar (c.toNat - 48) := by
      rw [← Char.ofNat_toNat c]
      obtain ⟨d, hd⟩ : ∃ d, c.toNat = 48 + d := ⟨c.toNat - 48, by omega⟩
      have hlt : d < 10 := by omega
      rw [hd]
      interval_cases d <;> rfl
    have : Text.digitBelow? 10 (Nat.digitChar (c.toNat - 48)) = some (c.toNat - 48) :=
      Text.digitBelow?_digitChar (by decide) (by omega)
    rwa [← hdigit] at this

theorem digitsFrom?_ten_iff {sofar m : Nat} : Text.digitsFrom? 10 sofar s = some m ↔
    (∀ c ∈ s, c.isDigit = true) ∧ Nat.ofDigitChars 10 s sofar = m := by
  induction s generalizing sofar with
  | nil => simp [Text.digitsFrom?]
  | cons c s ih =>
    rw [Text.digitsFrom?, Option.bind_eq_some_iff, List.forall_mem_cons, Nat.ofDigitChars_cons]
    simp only [digitBelow?_ten_iff, ih]
    constructor
    · rintro ⟨d, ⟨hc, rfl⟩, hs, hm⟩
      exact ⟨⟨hc, hs⟩, hm⟩
    · rintro ⟨⟨hc, hs⟩, hm⟩
      exact ⟨_, ⟨hc, rfl⟩, hs, hm⟩

theorem digits?_ten_iff {m : Nat} : Text.digits? 10 s = some m ↔
    s ≠ [] ∧ (∀ c ∈ s, c.isDigit = true) ∧ Nat.ofDigitChars 10 s 0 = m := by
  by_cases hs : s = []
  · simp [hs, Text.digits?]
  · rw [Text.digits?_eq hs, digitsFrom?_ten_iff]
    simp [hs]

theorem readCount?_eq_some_iff : readCount? w = some n ↔ IsNumeral w n := by
  have hread : readCount? w = some n ↔ Text.unsigned? 10 UInt64.size w = some n.toNat := by
    rw [readCount?, Option.map_eq_some_iff]
    constructor
    · rintro ⟨m, hm, rfl⟩
      have hlt : m < UInt64.size := (Text.unsigned?_eq_some_iff.1 hm).1
      rw [hm, UInt64.toNat_ofNat_of_lt' hlt]
    · exact fun h => ⟨_, h, UInt64.ofNat_toNat⟩
  simp only [hread, Text.unsigned?_eq_some_iff, digits?_ten_iff, IsNumeral]
  exact and_iff_right n.toNat_lt_size

theorem isNumeral_decimal (n : UInt64) : IsNumeral (Text.decimal n.toNat) n := by
  obtain ⟨hne, hdigits, hn⟩ := digits?_ten_iff.1 (Text.digits?_decimal n.toNat)
  exact ⟨_, .inl rfl, hne, hdigits, hn⟩

end Numbers

/-- Columns of which one tells how many bytes are to be sent, as a number. It is the second; or the third, if
the first is a word for a state, which is no number. -/
inductive Sends : (columns : List (List Char)) → (n : UInt64) → Prop
  | plain (hreceive : IsNumeral receive r) (hsend : IsNumeral send n) : Sends (receive :: send :: more) n
  | state (hstate : ∀ m, ¬ IsNumeral state m) (hsend : IsNumeral send n) :
    Sends (state :: receive :: send :: more) n

theorem sendColumn?_eq_some_iff {columns : List (List Char)} {line : List Char} {n : UInt64}
    (h : Text.SetOut columns line) : sendColumn? line = some n ↔ Sends columns n := by
  rw [sendColumn?, h.words_eq]
  constructor
  · intro hn
    cases columns with
    | nil => cases hn
    | cons w ws =>
      cases hw : readCount? w with
      | some m =>
        simp only [hw, Option.isSome_some, if_true] at hn
        match ws, hn with
        | send :: more, hn => exact .plain (readCount?_eq_some_iff.1 hw) (readCount?_eq_some_iff.1 hn)
      | none =>
        simp only [hw, Option.isSome_none] at hn
        match ws, hn with
        | receive :: send :: more, hn =>
          refine .state (fun m hm => ?_) (readCount?_eq_some_iff.1 hn)
          cases hw.symm.trans (readCount?_eq_some_iff.2 hm)
  · intro hn
    cases hn with
    | plain hreceive hsend => simp [readCount?_eq_some_iff.2 hreceive, readCount?_eq_some_iff.2 hsend]
    | state hstate hsend =>
      have hw : readCount? _ = none :=
        Option.eq_none_iff_forall_ne_some.2 fun m hm => hstate m (readCount?_eq_some_iff.1 hm)
      simp [hw, readCount?_eq_some_iff.2 hsend]

section Sums

variable {lines front rest : List (List Char)} {ns : List UInt64}

def totalOf (ns : List UInt64) : Nat := (ns.map UInt64.toNat).sum

theorem addSendColumns_append (h : front.map sendColumn? = ns.map some) (total : UInt64) :
    addSendColumns total (front ++ rest) =
      if total.toNat + totalOf ns < 2 ^ 64 then addSendColumns (total + .ofNat (totalOf ns)) rest else .crashed := by
  induction front generalizing ns total with
  | nil =>
    obtain rfl : ns = [] := by simpa using h.symm
    have hlt : total.toNat + totalOf [] < 2 ^ 64 := total.toNat_lt
    rw [if_pos hlt]
    exact congrArg (addSendColumns · rest) total.add_zero.symm
  | cons line front ih =>
    cases ns with
    | nil => cases h
    | cons m ns =>
      obtain ⟨hm, hns⟩ := List.cons.inj h
      have htotal : totalOf (m :: ns) = m.toNat + totalOf ns := rfl
      simp only [List.cons_append, addSendColumns, hm, ih hns, htotal]
      have hsize : UInt64.size = 2 ^ 64 := rfl
      by_cases hlt : total.toNat + m.toNat < UInt64.size
      · have hadd : (total + m).toNat = total.toNat + m.toNat := by
          rw [UInt64.toNat_add, Nat.mod_eq_of_lt hlt]
        rw [if_pos hlt, hadd, Nat.add_assoc, UInt64.ofNat_add, UInt64.ofNat_toNat, UInt64.add_assoc]
      · rw [if_neg hlt, if_neg (by omega)]

theorem sendColumns_intercalate (hl : ∀ line ∈ lines, '\n' ∉ line) :
    ((Text.lines (['\n'].intercalate lines)).filter fun line => Text.trim line ≠ []).map sendColumn? =
      (lines.filter fun line => Text.words line ≠ []).map sendColumn? := by
  have hfactors : sendColumn?.FactorsThrough Text.words := fun line line' h => by simp only [sendColumn?, h]
  obtain ⟨send, hsend⟩ := (Function.factorsThrough_iff sendColumn?).1 hfactors
  have hwords : ((Text.lines (['\n'].intercalate lines)).map Text.words).filter (· ≠ []) =
      (lines.map Text.words).filter (· ≠ []) := by
    rw [Text.words_lines]
    cases lines with
    | nil => rfl
    | cons line lines =>
      have hsplit : Text.splitAt (· = '\n') (['\n'].intercalate (line :: lines)) = line :: lines := by
        refine Text.splitAt_intercalate (by decide) (by simp) fun piece hpiece c hc => decide_eq_false ?_
        rintro rfl
        exact hl piece hpiece hc
      rw [hsplit]
  have hfactor (l : List (List Char)) : (l.filter fun line => Text.words line ≠ []).map sendColumn? =
      ((l.map Text.words).filter (· ≠ [])).map send := by
    rw [List.filter_map, List.map_map, hsend]
    rfl
  simp only [ne_eq, Text.trim_eq_nil_iff]
  rw [hfactor, hwords, ← hfactor]

end Sums

/-- A line that is not blank and does not tell what is to be sent. -/
def Mute (line : List Char) : Prop :=
  (∃ c ∈ line, Text.isBlank c = false) ∧ ∀ columns n, Text.SetOut columns line → ¬ Sends columns n

/-- Lines that tell these sizes, one a line, with any spacing and with blank lines anywhere. -/
inductive Tells : (lines : List (List Char)) → (ns : List UInt64) → Prop
  | nil : Tells [] []
  | blank {line lines ns} (hline : ∀ c ∈ line, Text.isBlank c = true) (h : Tells lines ns) : Tells (line :: lines) ns
  | size {line lines columns n ns} (hline : Text.SetOut columns line) (hn : Sends columns n) (h : Tells lines ns) :
    Tells (line :: lines) (n :: ns)

section Lines

variable {lines front : List (List Char)} {line : List Char} {ns : List UInt64}

theorem words_ne_nil_iff : Text.words line ≠ [] ↔ ∃ c ∈ line, Text.isBlank c = false := by
  simp [Text.words_eq_nil_iff]

theorem mute_iff : Mute line ↔ Text.words line ≠ [] ∧ sendColumn? line = none := by
  rw [Mute, words_ne_nil_iff, Option.eq_none_iff_forall_ne_some]
  refine and_congr_right fun _ => ⟨fun h n hn => ?_, fun h columns n hline hn => ?_⟩
  · exact h _ n (Text.setOut_words line) ((sendColumn?_eq_some_iff (Text.setOut_words line)).1 hn)
  · exact h n ((sendColumn?_eq_some_iff hline).2 hn)

theorem Sends.words_ne_nil {columns : List (List Char)} (h : Sends columns n) (hline : Text.SetOut columns line) :
    Text.words line ≠ [] := by
  rw [hline.words_eq]
  cases h <;> nofun

theorem Tells.sendColumns (h : Tells lines ns) :
    (lines.filter fun line => Text.words line ≠ []).map sendColumn? = ns.map some := by
  induction h with
  | nil => rfl
  | blank hline _ ih => rw [List.filter_cons_of_neg (by simpa using Text.words_eq_nil_iff.2 hline), ih]
  | size hline hn _ ih =>
    rw [List.filter_cons_of_pos (by simpa using hn.words_ne_nil hline), List.map_cons, ih, List.map_cons,
      (sendColumn?_eq_some_iff hline).2 hn]

theorem exists_tells (lines : List (List Char)) : (∃ ns, Tells lines ns) ∨
    ∃ front line ns, front ++ [line] <+: lines ∧ Tells front ns ∧ Mute line := by
  induction lines with
  | nil => exact .inl ⟨[], .nil⟩
  | cons line lines ih =>
    -- A line is blank, tells a size or is mute; what the others do matters unless it is mute.
    by_cases hblank : ∀ c ∈ line, Text.isBlank c = true
    · refine ih.imp ?_ ?_
      · exact fun ⟨ns, h⟩ => ⟨ns, .blank hblank h⟩
      · exact fun ⟨front, mute, ns, hfront, h, hmute⟩ =>
          ⟨line :: front, mute, ns, List.cons_prefix_cons.2 ⟨rfl, hfront⟩, .blank hblank h, hmute⟩
    · cases hn : sendColumn? line with
      | some n =>
        have hsends := (sendColumn?_eq_some_iff (Text.setOut_words line)).1 hn
        refine ih.imp ?_ ?_
        · exact fun ⟨ns, h⟩ => ⟨n :: ns, .size (Text.setOut_words line) hsends h⟩
        · exact fun ⟨front, mute, ns, hfront, h, hmute⟩ => ⟨line :: front, mute, n :: ns,
            List.cons_prefix_cons.2 ⟨rfl, hfront⟩, .size (Text.setOut_words line) hsends h, hmute⟩
      | none =>
        have hmute : Mute line := mute_iff.2 ⟨fun h => hblank (Text.words_eq_nil_iff.1 h), hn⟩
        exact .inr ⟨[], line, [], List.cons_prefix_cons.2 ⟨rfl, List.nil_prefix⟩, .nil, hmute⟩

def linesText (lines : List (List Char)) : String := .ofList (['\n'].intercalate lines)

theorem readSendQueue_of_prefix {after : List (List Char)} (hl : ∀ line ∈ lines, '\n' ∉ line)
    (hlines : front ++ after = lines) (h : Tells front ns) :
    ∃ rest, rest.map sendColumn? = (after.filter fun line => Text.words line ≠ []).map sendColumn? ∧
      readSendQueue (linesText lines) =
        if totalOf ns < 2 ^ 64 then addSendColumns (.ofNat (totalOf ns)) rest else .crashed := by
  have hcolumns := sendColumns_intercalate hl
  rw [← hlines, List.filter_append, List.map_append, h.sendColumns, hlines] at hcolumns
  obtain ⟨shown, rest, hsplit, hshown, hrest⟩ := List.map_eq_append_iff.1 hcolumns
  refine ⟨rest, hrest, ?_⟩
  rw [readSendQueue, linesText, String.toList_ofList, hsplit, addSendColumns_append hshown]
  simp

theorem readSendQueue_of_tells (hl : ∀ line ∈ lines, '\n' ∉ line) (h : Tells lines ns) :
    readSendQueue (linesText lines) = if totalOf ns < 2 ^ 64 then .ok (.ofNat (totalOf ns)) else .crashed := by
  obtain ⟨rest, hrest, hread⟩ := readSendQueue_of_prefix hl (List.append_nil lines) h
  rw [List.map_eq_nil_iff.1 hrest] at hread
  exact hread

theorem readSendQueue_eq_ok_iff (hl : ∀ line ∈ lines, '\n' ∉ line) (h : Tells lines ns) :
    readSendQueue (linesText lines) = .ok n ↔ n.toNat = totalOf ns := by
  rw [readSendQueue_of_tells hl h]
  split
  · next hlt => rw [Ending.ok.injEq, ← UInt64.toNat_inj, UInt64.toNat_ofNat_of_lt' hlt, eq_comm]
  · have := n.toNat_lt
    exact ⟨nofun, by omega⟩

theorem readSendQueue_eq_crashed_iff (hl : ∀ line ∈ lines, '\n' ∉ line) (h : Tells lines ns) :
    readSendQueue (linesText lines) = .crashed ↔ 2 ^ 64 ≤ totalOf ns := by
  rw [readSendQueue_of_tells hl h]
  split
  · exact ⟨nofun, by omega⟩
  · exact ⟨fun _ => by omega, fun _ => rfl⟩

theorem readSendQueue_of_large (hl : ∀ line ∈ lines, '\n' ∉ line) (hfront : front <+: lines)
    (h : Tells front ns) (hle : 2 ^ 64 ≤ totalOf ns) : readSendQueue (linesText lines) = .crashed := by
  obtain ⟨after, hlines⟩ := hfront
  obtain ⟨rest, -, hread⟩ := readSendQueue_of_prefix hl hlines h
  exact hread.trans (if_neg (by omega))

theorem readSendQueue_of_mute (hl : ∀ line ∈ lines, '\n' ∉ line) (hfront : front ++ [line] <+: lines)
    (h : Tells front ns) (hmute : Mute line) (hlt : totalOf ns < 2 ^ 64) :
    ∃ message, readSendQueue (linesText lines) = .error (.unreadable message) := by
  obtain ⟨after, rfl⟩ := hfront
  obtain ⟨rest, hrest, hread⟩ := readSendQueue_of_prefix hl (List.append_assoc front [line] after).symm h
  obtain ⟨hne, hnone⟩ := mute_iff.1 hmute
  rw [List.singleton_append, List.filter_cons_of_pos (by simpa using hne), List.map_cons, hnone] at hrest
  obtain ⟨first, rest, rfl, hfirst, -⟩ := List.map_eq_cons_iff.1 hrest
  rw [hread, if_pos hlt, addSendColumns, hfirst]
  exact ⟨_, rfl⟩

theorem Tells.not_mute (h : Tells lines ns) (hline : line ∈ lines) : ¬ Mute line := by
  intro hmute
  obtain ⟨hne, hnone⟩ := mute_iff.1 hmute
  have hmem : none ∈ (lines.filter fun line => Text.words line ≠ []).map sendColumn? :=
    List.mem_map.2 ⟨line, List.mem_filter.2 ⟨hline, by simpa using hne⟩, hnone⟩
  rw [h.sendColumns] at hmem
  simp at hmem

theorem readSendQueue_cases (hl : ∀ line ∈ lines, '\n' ∉ line) :
    (∃ ns, Tells lines ns ∧ readSendQueue (linesText lines) = .ok (.ofNat (totalOf ns))) ∨
    (∃ front ns, front <+: lines ∧ Tells front ns ∧ 2 ^ 64 ≤ totalOf ns ∧
      readSendQueue (linesText lines) = .crashed) ∨
    ∃ front line ns message, front ++ [line] <+: lines ∧ Tells front ns ∧ totalOf ns < 2 ^ 64 ∧ Mute line ∧
      readSendQueue (linesText lines) = .error (.unreadable message) := by
  rcases exists_tells lines with ⟨ns, h⟩ | ⟨front, line, ns, hfront, h, hmute⟩
  · by_cases hlt : totalOf ns < 2 ^ 64
    · exact .inl ⟨ns, h, (readSendQueue_of_tells hl h).trans (if_pos hlt)⟩
    · exact .inr (.inl ⟨lines, ns, List.prefix_rfl, h, by omega, (readSendQueue_of_tells hl h).trans (if_neg hlt)⟩)
  · by_cases hlt : totalOf ns < 2 ^ 64
    · obtain ⟨message, hread⟩ := readSendQueue_of_mute hl hfront h hmute hlt
      exact .inr (.inr ⟨front, line, ns, message, hfront, h, hlt, hmute, hread⟩)
    · have hprefix : front <+: lines := (List.prefix_append front [line]).trans hfront
      exact .inr (.inl ⟨front, ns, hprefix, h, by omega, readSendQueue_of_large hl hprefix h (by omega)⟩)

end Lines

structure Socket where
  state : Option (List Char)
  receive : UInt64
  send : UInt64
  more : List (List Char)
  deriving DecidableEq, Repr

def Socket.columns (s : Socket) : List (List Char) :=
  s.state.toList ++ Text.decimal s.receive.toNat :: Text.decimal s.send.toNat :: s.more

/-- Lines that show these sockets, one a line, with any spacing and with blank lines anywhere. -/
inductive Shows : (lines : List (List Char)) → (sockets : List Socket) → Prop
  | nil : Shows [] []
  | blank {line lines sockets} (hline : ∀ c ∈ line, Text.isBlank c = true) (h : Shows lines sockets) :
    Shows (line :: lines) sockets
  | socket {line lines sockets} {s : Socket} (hstate : ∀ w ∈ s.state, ∀ n, ¬ IsNumeral w n)
    (hline : Text.SetOut s.columns line) (h : Shows lines sockets) : Shows (line :: lines) (s :: sockets)

theorem Socket.sends {s : Socket} (hstate : ∀ w ∈ s.state, ∀ n, ¬ IsNumeral w n) : Sends s.columns s.send := by
  obtain ⟨state, receive, send, more⟩ := s
  cases state with
  | none => exact .plain (isNumeral_decimal receive) (isNumeral_decimal send)
  | some w => exact .state (hstate w rfl) (isNumeral_decimal send)

theorem Shows.tells {lines : List (List Char)} {sockets : List Socket} (h : Shows lines sockets) :
    Tells lines (sockets.map Socket.send) := by
  induction h with
  | nil => exact .nil
  | blank hline _ ih => exact .blank hline ih
  | socket hstate hline _ ih => exact .size hline (Socket.sends hstate) ih

/-- A list of sockets is read as the exact sum of what they have to send, however it is laid out, unless 64 bits do
not hold the sum: then the reading crashes. Of any lines it crashes just if those before some place do not fit, and
else a line that does not tell what is to be sent is refused. -/
theorem sendQueue_summed_or_refused (lines : List (List Char)) (hl : ∀ line ∈ lines, '\n' ∉ line) :
    let found := readSendQueue (linesText lines)
    (∀ sockets, Shows lines sockets →
      let total := (sockets.map (·.send.toNat)).sum
      (∀ n, found = .ok n ↔ n.toNat = total) ∧ (found = .crashed ↔ 2 ^ 64 ≤ total) ∧
        (found = .ok 0 ↔ ∀ s ∈ sockets, s.send = 0)) ∧
    (found = .crashed ↔ ∃ front ns, front <+: lines ∧ Tells front ns ∧ 2 ^ 64 ≤ totalOf ns) ∧
    ((∃ message, found = .error (.unreadable message)) ↔ ∃ front line ns, front ++ [line] <+: lines ∧
      Tells front ns ∧ totalOf ns < 2 ^ 64 ∧ Mute line) ∧
    ((∃ line ∈ lines, Mute line) → found = .crashed ∨ ∃ message, found = .error (.unreadable message)) := by
  intro found
  have hcases := readSendQueue_cases hl
  refine ⟨fun sockets h => ?_, ⟨fun hfound => ?_, ?_⟩, ⟨fun hfound => ?_, ?_⟩, ?_⟩
  · intro total
    have htotal : totalOf (sockets.map Socket.send) = total := by
      rw [totalOf, List.map_map]
      rfl
    have hok : ∀ n, found = .ok n ↔ n.toNat = total := fun n => htotal ▸ readSendQueue_eq_ok_iff hl h.tells
    refine ⟨hok, htotal ▸ readSendQueue_eq_crashed_iff hl h.tells, ?_⟩
    rw [hok 0, eq_comm]
    simp [total, List.sum_eq_zero_iff_forall_eq_nat, ← UInt64.toNat_inj]
  · rcases hcases with ⟨ns, h, hok⟩ | ⟨front, ns, hfront, h, hle, -⟩ | ⟨front, line, ns, message, -, -, -, -, he⟩
    · cases hfound.symm.trans hok
    · exact ⟨front, ns, hfront, h, hle⟩
    · cases hfound.symm.trans he
  · rintro ⟨front, ns, hfront, h, hle⟩
    exact readSendQueue_of_large hl hfront h hle
  · obtain ⟨message, hfound⟩ := hfound
    rcases hcases with ⟨ns, h, hok⟩ | ⟨front, ns, -, -, -, hc⟩ | ⟨front, line, ns, -, hfront, h, hlt, hmute, -⟩
    · cases hfound.symm.trans hok
    · cases hfound.symm.trans hc
    · exact ⟨front, line, ns, hfront, h, hlt, hmute⟩
  · rintro ⟨front, line, ns, hfront, h, hlt, hmute⟩
    exact readSendQueue_of_mute hl hfront h hmute hlt
  · rintro ⟨line, hline, hmute⟩
    rcases hcases with ⟨ns, h, -⟩ | ⟨front, ns, -, -, -, hc⟩ | ⟨front, line, ns, message, -, -, -, -, he⟩
    · exact absurd hmute (h.not_mute hline)
    · exact .inl hc
    · exact .inr ⟨message, he⟩

theorem sendQueue_of_two_layouts :
    let lines := ["ESTAB\t0  5 10.0.0.2:80".toList, [], " 0\t7".toList]
    let sockets : List Socket := [⟨some "ESTAB".toList, 0, 5, ["10.0.0.2:80".toList]⟩, ⟨none, 0, 7, []⟩]
    (∀ line ∈ lines, '\n' ∉ line) ∧ Shows lines sockets ∧ readSendQueue (linesText lines) = .ok 12 := by
  have hstate (n : UInt64) : ¬ IsNumeral "ESTAB".toList n := by
    rw [← readCount?_eq_some_iff, show readCount? "ESTAB".toList = none by decide]
    nofun
  intro lines sockets
  have hl : ∀ line ∈ lines, '\n' ∉ line := by decide
  have hshows : Shows lines sockets := by
    refine .socket (by simpa using hstate) ?_ (.blank nofun (.socket nofun ?_ .nil)) <;> decide
  obtain ⟨hok, -⟩ := (sendQueue_summed_or_refused lines hl).1 sockets hshows
  exact ⟨hl, hshows, (hok 12).2 rfl⟩

/-- Two sockets with half of what 64 bits hold: their sum is not told, and the list is not refused either. -/
theorem full_queues_crash :
    let line := "0 9223372036854775808 a b".toList
    let s : Socket := ⟨none, 0, 9223372036854775808, [['a'], ['b']]⟩
    Shows [line, line] [s, s] ∧ s.send.toNat + s.send.toNat = 2 ^ 64 ∧
      readSendQueue (linesText [line, line]) = .crashed := by
  intro line s
  have hline : Text.SetOut s.columns line := by decide
  exact ⟨.socket nofun hline (.socket nofun hline .nil), by decide, by decide⟩

end Hosts

end LiveMigration
