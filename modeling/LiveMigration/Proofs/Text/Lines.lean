import LiveMigration.Proofs.Text.Digits

namespace LiveMigration.Text

variable {s r line key : List Char} {c : Char}

theorem dropReturn_concat (s : List Char) (c : Char) : dropReturn (s ++ [c]) = if c = '\r' then s else s ++ [c] := by
  rw [dropReturn, List.reverse_concat]
  split
  · next r hr =>
    obtain ⟨rfl, rfl⟩ := List.cons.inj hr
    simp
  · next hc =>
    rw [if_neg]
    rintro rfl
    exact hc _ rfl

theorem dropReturn_eq_self_iff : dropReturn s = s ↔ s.getLast? ≠ some '\r' := by
  rcases List.eq_nil_or_concat s with rfl | ⟨s, c, rfl⟩
  · simp [dropReturn]
  · rw [List.concat_eq_append, dropReturn_concat, List.getLast?_concat]
    split
    · next hc => simp [hc]
    · next hc => simp [hc]

theorem dropReturn_append_cons (s : List Char) (hc : c ≠ '\r') :
    dropReturn (s ++ c :: r) = s ++ c :: dropReturn r := by
  rcases List.eq_nil_or_concat r with rfl | ⟨r, d, rfl⟩
  · rw [dropReturn_concat, if_neg hc]
    rfl
  · rw [List.concat_eq_append, ← List.cons_append, ← List.append_assoc, dropReturn_concat, dropReturn_concat]
    split <;> simp

theorem dropReturn_subset (s : List Char) : dropReturn s ⊆ s := by
  rcases List.eq_nil_or_concat s with rfl | ⟨s, c, rfl⟩
  · simp [dropReturn]
  · rw [List.concat_eq_append, dropReturn_concat]
    split <;> simp

theorem lines_append_cons (h : '\n' ∉ line) : lines (line ++ '\n' :: r) = dropReturn line :: lines r := by
  have hs : splitAt (· = '\n') (line ++ '\n' :: r) = line :: splitAt (· = '\n') r := by
    refine splitAt_append_cons (fun c hc => decide_eq_false ?_) (by decide)
    rintro rfl
    exact h hc
  have hne : splitAt (· = '\n') r ≠ [] := splitAt_ne_nil
  rw [lines, hs, List.dropLast_cons_of_ne_nil hne, List.map_cons, List.getLast?_cons_of_ne_nil hne]
  rfl

theorem not_mem_of_mem_lines (h : line ∈ lines s) : '\n' ∉ line := by
  have hpiece {piece : List Char} (h : piece ∈ splitAt (· = '\n') s) : '\n' ∉ piece :=
    fun hc => absurd (eq_false_of_mem_splitAt h _ hc) (by decide)
  rw [lines, List.mem_append] at h
  rcases h with h | h
  · obtain ⟨piece, hp, rfl⟩ := List.mem_map.1 h
    exact fun hc => hpiece (List.dropLast_subset _ hp) (dropReturn_subset _ hc)
  · split at h
    · cases h
    · cases h
    · next last _ hlast =>
      rw [List.mem_singleton.1 h]
      exact hpiece (List.mem_of_getLast? hlast)

def cutAtEquals : List Char → Option (List Char × List Char)
  | [] => none
  | c :: s => if c = '=' then some ([], s) else (cutAtEquals s).map fun (key, value) => (c :: key, value)

theorem cutAtEquals_append_cons (h : '=' ∉ key) (value : List Char) :
    cutAtEquals (key ++ '=' :: value) = some (key, value) := by
  induction key with
  | nil => rfl
  | cons c key ih =>
    rw [List.mem_cons, not_or] at h
    rw [List.cons_append, cutAtEquals, if_neg (Ne.symm h.1), ih h.2]
    rfl

theorem eq_append_of_cutAtEquals {value : List Char} (h : cutAtEquals line = some (key, value)) :
    line = key ++ '=' :: value := by
  induction line generalizing key with
  | nil => cases h
  | cons c line ih =>
    rw [cutAtEquals] at h
    split at h
    · next hc =>
      cases h
      rw [hc]
      rfl
    · obtain ⟨⟨k, v⟩, hcut, h⟩ := Option.map_eq_some_iff.1 h
      cases h
      rw [ih hcut]
      rfl

end LiveMigration.Text
