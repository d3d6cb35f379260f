import LiveMigration.Telemetry.Disk
import LiveMigration.Proofs.Forwarding.Change
import LiveMigration.Proofs.Text.Digits

namespace LiveMigration

namespace Path

variable {p s dir name : String} {ps : List String}

theorem ofPieces_pieces (p : String) : ofPieces (pieces p) = p := by
  rw [← String.toList_inj, ofPieces, String.toList_intercalate, pieces, List.map_map]
  have hid : String.toList ∘ String.ofList = id := funext fun s => String.toList_ofList
  rw [hid, List.map_id]
  exact Text.intercalate_splitAt p.toList

theorem pieces_ne_nil : pieces p ≠ [] := by simpa [pieces] using Text.splitAt_ne_nil

theorem not_mem_of_mem_pieces (h : s ∈ pieces p) : '/' ∉ s.toList := by
  obtain ⟨piece, hpiece, rfl⟩ := List.mem_map.1 h
  rw [String.toList_ofList]
  exact fun hc => absurd (Text.eq_false_of_mem_splitAt hpiece _ hc) (by decide)

theorem pieces_ofPieces (hne : ps ≠ []) (h : ∀ s ∈ ps, '/' ∉ s.toList) : pieces (ofPieces ps) = ps := by
  have hsplit : Text.splitAt (· = '/') (ofPieces ps).toList = ps.map String.toList := by
    rw [ofPieces, String.toList_intercalate]
    refine Text.splitAt_intercalate (by decide) (by simpa using hne) ?_
    intro piece hpiece c hc
    obtain ⟨s, hs, rfl⟩ := List.mem_map.1 hpiece
    refine decide_eq_false ?_
    rintro rfl
    exact h s hs hc
  rw [pieces, hsplit, List.map_map]
  have hid : String.ofList ∘ String.toList = id := funext fun s => String.ofList_toList
  rw [hid, List.map_id]

theorem pieces_eq_singleton (h : '/' ∉ name.toList) : pieces name = [name] := by
  have hsplit : Text.splitAt (· = '/') name.toList = [name.toList] := by
    refine Text.splitAt_eq_singleton fun c hc => decide_eq_false ?_
    rintro rfl
    exact h hc
  rw [pieces, hsplit, List.map_singleton, String.ofList_toList]

theorem getLast?_pieces_join (h : '/' ∉ name.toList) : (pieces (join dir name)).getLast? = some name := by
  have hname := pieces_eq_singleton h
  have happend (front : List Char) : (pieces (String.ofList (front ++ '/' :: name.toList))).getLast? = some name := by
    have hsplit := Text.splitAt_append_separator (p := (· = '/')) (r := name.toList) front (decide_eq_true rfl)
    rw [pieces, String.toList_ofList, hsplit, List.map_append, ← pieces, hname, List.getLast?_concat]
  unfold join
  split
  · rw [hname]
    rfl
  · split
    · next hdir =>
      obtain ⟨front, hfront⟩ := List.getLast?_eq_some_iff.1 hdir
      have htext : dir ++ name = String.ofList (front ++ '/' :: name.toList) := by
        rw [← String.toList_inj]
        simp [hfront]
      rw [htext, happend]
    · have htext : dir ++ "/" ++ name = String.ofList (dir.toList ++ '/' :: name.toList) := by
        rw [← String.toList_inj]
        simp
      rw [htext, happend]

theorem exists_eq_dropLastWhile_append (f : String → Bool) (l : List String) :
    ∃ rest, l = dropLastWhile f l ++ rest ∧ (∀ s ∈ rest, f s = true) ∧
      ∀ s, (dropLastWhile f l).getLast? = some s → f s = false := by
  refine ⟨(l.reverse.takeWhile f).reverse, ?_, ?_, ?_⟩
  · rw [dropLastWhile, ← List.reverse_append, List.takeWhile_append_dropWhile, List.reverse_reverse]
  · intro s hs
    exact List.all_eq_true.1 List.all_takeWhile s (List.mem_reverse.1 hs)
  · intro s hs
    have hhead := List.head?_dropWhile_not f l.reverse
    rw [dropLastWhile, List.getLast?_reverse] at hs
    rwa [hs] at hhead

theorem isAbsolute_ofPieces_append {rest : List String} (hne : ps ≠ []) (hlast : ps.getLast? ≠ some "") :
    isAbsolute (ofPieces (ps ++ rest)) = isAbsolute (ofPieces ps) := by
  have hhead (s : List Char) (x y : List Char) : (s ++ '/' :: x).head? = (s ++ '/' :: y).head? := by
    cases s <;> rfl
  simp only [isAbsolute, ofPieces, String.toList_intercalate, List.map_append]
  match ps, hne with
  | [s], _ =>
    obtain ⟨c, cs, hs⟩ : ∃ c cs, s.toList = c :: cs :=
      List.exists_cons_of_ne_nil fun hnil => hlast (by simpa using hnil)
    cases rest with
    | nil => rfl
    | cons s' rest => simp [List.intercalate_cons_cons, hs]
  | s :: s' :: ps, _ =>
    simp only [List.map_cons, List.cons_append, List.intercalate_cons_cons, List.append_assoc]
    exact congrArg (decide <| · = some '/') (hhead s.toList _ _)

theorem fileName?_eq_some (h : (pieces p).getLast? = some name) (hpart : isPart name = true) (hup : name ≠ "..") :
    fileName? p = some name := by
  obtain ⟨front, hfront⟩ := List.getLast?_eq_some_iff.1 h
  have hdot : name ≠ "." := by
    rintro rfl
    cases hpart
  have hlast : (components p).parts.getLast? = some name := by
    rw [components, hfront, List.filter_append, List.filter_cons_of_pos hpart, List.filter_nil, ← List.append_assoc,
      List.getLast?_concat]
  rw [fileName?, hlast]
  simp [hdot, hup]

theorem not_mem_of_fileName? (h : fileName? p = some name) : '/' ∉ name.toList := by
  obtain ⟨hlast, hname⟩ := Option.filter_eq_some_iff.1 h
  obtain ⟨hdot, -⟩ := of_decide_eq_true hname
  rcases List.mem_append.1 (List.mem_of_getLast? hlast) with hmem | hmem
  · split at hmem
    · exact absurd (List.mem_singleton.1 hmem) hdot
    · cases hmem
  · exact not_mem_of_mem_pieces (List.mem_filter.1 hmem).1

theorem cutName_subset (name : String) : (cutName name).1.toList ⊆ name.toList := by
  unfold cutName
  simp only
  split
  · exact List.Subset.refl _
  · intro c hc
    rw [String.toList_ofList, List.mem_reverse] at hc
    have hback := (List.dropWhile_sublist _).subset (List.mem_of_mem_tail hc)
    exact List.mem_reverse.1 hback

theorem getLast?_pieces_setExtension {extension : String} (h : '/' ∉ extension.toList) :
    fileName? p = none ∧ setExtension p extension = p ∨
      ∃ stem, (pieces (setExtension p extension)).getLast? = some (stem ++ "." ++ extension) := by
  unfold setExtension
  split
  · next hnone => exact .inl ⟨hnone, rfl⟩
  · next name hname =>
    refine .inr ⟨(cutName name).1, ?_⟩
    rw [pieces_ofPieces (by simp), List.getLast?_concat]
    have hfront : (dropLastWhile (fun s => !isPart s) (pieces p)).dropLast ⊆ pieces p := by
      refine List.Subset.trans (List.dropLast_subset _) fun s hs => ?_
      exact List.mem_reverse.1 ((List.dropWhile_sublist _).subset (List.mem_reverse.1 hs))
    intro s hs
    rcases List.mem_append.1 hs with hs | hs
    · exact not_mem_of_mem_pieces (hfront hs)
    · rw [List.mem_singleton.1 hs]
      have hstem : '/' ∉ (cutName name).1.toList := fun hc => not_mem_of_fileName? hname (cutName_subset name hc)
      simpa [hstem] using h

end Path

namespace Place

def enter (dir : Place) (piece : String) : Place :=
  if !Path.isPart piece then dir else if piece = ".." then dir.up else dir ++ [piece]

/-- The place that a path leads to, if all that it names is there. -/
def ofPath (p : String) : Place := (Path.pieces p).foldl enter (start p)

theorem isGiven_concat {dir : Place} {name : String} (hname : name ≠ "..") (hslash : '/' ∉ name.toList) :
    isGiven (dir ++ [name]) = false := by
  have hroot : dir ++ [name] ≠ root := by
    intro h
    obtain ⟨-, hn⟩ : dir = [] ∧ [name] = ["/"] := List.append_inj' h rfl
    obtain rfl : name = "/" := by simpa using hn
    exact hslash (by decide)
  simp [isGiven, hroot, hname]

theorem ofPath_eq_concat {p name : String} (h : (Path.pieces p).getLast? = some name)
    (hpart : Path.isPart name = true) (hup : name ≠ "..") :
    ofPath p = (Path.pieces p).dropLast.foldl enter (start p) ++ [name] := by
  obtain ⟨front, hfront⟩ := List.getLast?_eq_some_iff.1 h
  rw [ofPath, hfront, List.foldl_append, List.dropLast_concat]
  simp [enter, hpart, hup]

theorem foldl_enter_of_forall {ps : List String} (h : ∀ s ∈ ps, s = "") (dir : Place) : ps.foldl enter dir = dir := by
  induction ps with
  | nil => rfl
  | cons s ps ih =>
    rw [List.forall_mem_cons] at h
    rw [List.foldl_cons, h.1]
    exact ih h.2

theorem ofPath_trimmed {p : String} (hne : Path.dropLastWhile (· = "") (Path.pieces p) ≠ []) :
    ofPath (Path.ofPieces (Path.dropLastWhile (· = "") (Path.pieces p))) = ofPath p := by
  obtain ⟨rest, hpieces, hrest, hlast⟩ := Path.exists_eq_dropLastWhile_append (· = "") (Path.pieces p)
  generalize Path.dropLastWhile (· = "") (Path.pieces p) = ps at hne hpieces hlast ⊢
  have hslash : ∀ s ∈ ps, '/' ∉ s.toList := fun s hs =>
    Path.not_mem_of_mem_pieces (hpieces ▸ List.mem_append_left rest hs)
  have hempty : ∀ s ∈ rest, s = "" := fun s hs => of_decide_eq_true (hrest s hs)
  have hstart : start (Path.ofPieces ps) = start p := by
    rw [start, start, ← Path.ofPieces_pieces p, hpieces,
      Path.isAbsolute_ofPieces_append hne fun h => absurd (hlast _ h) (by decide)]
  rw [ofPath, ofPath, Path.pieces_ofPieces hne hslash, hpieces, List.foldl_append, hstart,
    foldl_enter_of_forall hempty]

end Place

namespace Disk

variable {d d' : Disk} {p target piece text : String} {dir q : Place} {e : Entry}

theorem enter_eq_ok (h : d.enter dir piece = .ok q) : q = dir.enter piece := by
  simp only [enter] at h
  split at h
  · cases h
  · split at h
    · next hpart =>
      cases h
      rw [Place.enter, if_pos hpart]
    · next hpart =>
      split at h
      · next hup =>
        cases h
        rw [Place.enter, if_neg hpart, if_pos hup]
      · next hup =>
        split at h
        · cases h
        · split at h
          · cases h
          · cases h
            rw [Place.enter, if_neg hpart, if_neg hup]

theorem foldlM_enter_eq_ok {ps : List String} (h : ps.foldlM d.enter dir = .ok q) : q = ps.foldl Place.enter dir := by
  induction ps generalizing dir with
  | nil =>
    cases h
    rfl
  | cons piece ps ih =>
    obtain ⟨next, hnext, h⟩ := Except.bind_eq_ok.1 h
    rw [List.foldl_cons, ← enter_eq_ok hnext]
    exact ih h

theorem follow_eq_ok (h : d.follow p = .ok q) : q = .ofPath p := by
  unfold follow at h
  split at h
  · cases h
  · exact foldlM_enter_eq_ok h

theorem read_eq_ok (h : d.read p = .ok text) : d.get? (.ofPath p) = some (.file text) := by
  obtain ⟨q, hq, h⟩ := Except.bind_eq_ok.1 h
  rw [← follow_eq_ok hq]
  split at h
  · next hfile =>
    cases h
    exact hfile
  · cases h
  · cases h

theorem site_eq_ok (h : d.site p = .ok q) : q = .ofPath p ∧ q.isGiven = false ∧
    ∃ name, (Path.pieces p).getLast? = some name ∧ Path.isPart name = true ∧ name ≠ ".." := by
  obtain ⟨name, hname⟩ : ∃ name, (Path.pieces p).getLast? = some name :=
    ⟨_, List.getLast?_eq_some_getLast Path.pieces_ne_nil⟩
  unfold site at h
  simp only [hname, Option.getD_some] at h
  split at h
  · cases h
  · obtain ⟨dir, hdir, h⟩ := Except.bind_eq_ok.1 h
    split at h
    · cases h
    · split at h
      · cases h
      · next hpart =>
        split at h
        · cases h
        · cases h
          obtain ⟨hpart, hup⟩ : Path.isPart name = true ∧ name ≠ ".." := by simpa using hpart
          have hslash := Path.not_mem_of_mem_pieces (List.mem_of_getLast? hname)
          refine ⟨?_, Place.isGiven_concat hup hslash, name, hname, hpart, hup⟩
          rw [Place.ofPath_eq_concat hname hpart hup, foldlM_enter_eq_ok hdir]

theorem get?_of_isGiven (h : q.isGiven = true) : d.get? q = some .directory := if_pos h

theorem get?_erase (d : Disk) (hdir : dir.isGiven = false) (q : Place) :
    (d.erase dir).get? q = if q = dir then none else d.get? q := by
  by_cases hq : q = dir
  · subst hq
    simp [get?, hdir, erase]
  · have hfind : (d.entries.filter (·.1 ≠ dir)).find? (·.1 = q) = d.entries.find? (·.1 = q) := by
      rw [List.find?_filter]
      congr
      funext entry
      by_cases hentry : entry.1 = q
      · simp [hentry, hq]
      · simp [hentry]
    rw [if_neg hq, get?, get?, erase, hfind]

theorem get?_set (d : Disk) (hdir : dir.isGiven = false) (e : Entry) (q : Place) :
    (d.set dir e).get? q = if q = dir then some e else d.get? q := by
  by_cases hq : q = dir
  · subst hq
    have hnone : (d.entries.filter (·.1 ≠ q)).find? (·.1 = q) = none := by simp
    rw [get?, hdir, if_neg (by decide), set, erase, List.find?_append, hnone]
    simp
  · have hset : (d.set dir e).get? q = (d.erase dir).get? q := by
      simp [get?, set, Ne.symm hq]
    rw [hset, d.get?_erase hdir, if_neg hq, if_neg hq]

theorem makeDir_eq_ok (h : d.makeDir p = .ok d') : d.get? (.ofPath p) = none ∧
    ∀ q, d'.get? q = if q = .ofPath p then some .directory else d.get? q := by
  obtain ⟨place, hplace, h⟩ := Except.bind_eq_ok.1 h
  obtain ⟨hp, hgiven, name, hname, hpart, -⟩ := site_eq_ok hplace
  have hne : Path.dropLastWhile (· = "") (Path.pieces p) ≠ [] := by
    intro hnil
    rw [hnil] at hname
    cases hname
    cases hpart
  rw [Place.ofPath_trimmed hne] at hp
  subst hp
  split at h
  · cases h
  · next hnone =>
    cases h
    exact ⟨by simpa using hnone, d.get?_set hgiven _⟩

theorem ensureDir_eq_ok (h : d.ensureDir p = .ok d') : d' = d ∨ d.get? (.ofPath p) = none ∧
    ∀ q, d'.get? q = if q = .ofPath p then some .directory else d.get? q := by
  unfold ensureDir at h
  split at h
  · cases h
    exact .inl rfl
  · exact .inr (makeDir_eq_ok h)

theorem create_eq_ok (h : d.create p = .ok d') (q : Place) :
    d'.get? q = if q = .ofPath p then some (.file "") else d.get? q := by
  obtain ⟨place, hplace, h⟩ := Except.bind_eq_ok.1 h
  obtain ⟨rfl, hgiven, -⟩ := site_eq_ok hplace
  split at h
  · cases h
  · cases h
    exact d.get?_set hgiven _ q

theorem fill_eq_ok (h : d.fill p text = .ok d') (q : Place) :
    d'.get? q = if q = .ofPath p then some (.file text) else d.get? q := by
  obtain ⟨place, hplace, h⟩ := Except.bind_eq_ok.1 h
  obtain ⟨rfl, hgiven, -⟩ := site_eq_ok hplace
  obtain ⟨-, -, h⟩ := Except.bind_eq_ok.1 h
  cases h
  exact d.get?_set hgiven _ q

theorem rename_eq_ok (h : d.rename p target = .ok d') : ∃ text, d.get? (.ofPath p) = some (.file text) ∧
    ∀ q, d'.get? q =
      if q = .ofPath target then some (.file text) else if q = .ofPath p then none else d.get? q := by
  obtain ⟨place, hplace, h⟩ := Except.bind_eq_ok.1 h
  obtain ⟨rfl, hgiven, -⟩ := site_eq_ok hplace
  obtain ⟨text, htext, h⟩ := Except.bind_eq_ok.1 h
  obtain ⟨goal, hgoal, h⟩ := Except.bind_eq_ok.1 h
  obtain ⟨rfl, hgiven', -⟩ := site_eq_ok hgoal
  split at h
  · cases h
  · cases h
    refine ⟨text, read_eq_ok htext, fun q => ?_⟩
    rw [get?_set _ hgiven', get?_erase _ hgiven]

def Action.paths : Action → List String
  | .ensureDir p => [p]
  | .create p => [p]
  | .fill p _ => [p]
  | .rename p target => [p, target]

theorem get?_act_of_ne {a : Action} (h : d.act a = .ok d') (hq : ∀ p ∈ a.paths, Place.ofPath p ≠ q) :
    d'.get? q = d.get? q := by
  cases a with
  | ensureDir p =>
    rcases ensureDir_eq_ok h with rfl | ⟨-, hget⟩
    · rfl
    · rw [hget, if_neg (Ne.symm (hq p List.mem_cons_self))]
  | create p => rw [create_eq_ok h, if_neg (Ne.symm (hq p List.mem_cons_self))]
  | fill p text => rw [fill_eq_ok h, if_neg (Ne.symm (hq p List.mem_cons_self))]
  | rename p target =>
    obtain ⟨text, -, hget⟩ := rename_eq_ok h
    obtain ⟨hp, htarget⟩ : Place.ofPath p ≠ q ∧ Place.ofPath target ≠ q := by simpa [Action.paths] using hq
    rw [hget, if_neg htarget.symm, if_neg hp.symm]

end Disk

end LiveMigration
