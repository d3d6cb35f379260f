import LiveMigration.Proofs.Net.Text
import LiveMigration.Shell.Command

/-!
# Tokens

The words and the operators that a POSIX shell finds in a text before it runs anything. A value comes out of
its quotation as it went in, wherever in a word it stands, and nothing of it is an operator or begins an
expansion or a pattern. So a command is the list of arguments that it was made from.
-/

namespace LiveMigration.Shell

inductive Token
  | word (s : String)
  | operator (s : String)
  | active (c : Char)
  deriving DecidableEq, Repr

def beginsOperator (c : Char) : Bool := ['|', '&', ';', '<', '>', '(', ')', '\n'].contains c

def longOperators : List (List Char) :=
  [['&', '&'], ['|', '|'], [';', ';'], ['<', '<'], ['>', '>'], ['<', '&'], ['>', '&'], ['<', '>'],
    ['<', '<', '-'], ['>', '|']]

def isActive (c : Char) : Bool :=
  ['$', '\x60', '"', '*', '?', '[', ']', '#', '~', '{', '}', '!', '^'].contains c

/-- Where the reading of a text stands: in none or in one of the tokens, of which some has been read, or
behind a backslash. -/
inductive Mode
  | between
  | word (w : List Char) (quoted : Bool)
  | single (w : List Char)
  | escaped (m : Mode)
  | operator (o : List Char)
  deriving DecidableEq, Repr

namespace Mode

def sofar : Mode → List Char
  | .word w _ | .single w => w
  | _ => []

def isQuoted : Mode → Bool
  | .word _ quoted => quoted
  | _ => false

def isFileNumber : Mode → Bool
  | .word w quoted => !quoted && w.all Char.isDigit
  | _ => false

def ended : Mode → List Token
  | .word w _ => [.word (String.ofList w)]
  | .operator o => [.operator (String.ofList o)]
  | _ => []

def outside (m : Mode) (c : Char) : List Token × Mode :=
  if c = '\'' then ([], .single m.sofar)
  else if c = '\\' then ([], .escaped m)
  else if c = ' ' ∨ c = '\t' then (m.ended, .between)
  else if beginsOperator c then
    if (c = '<' ∨ c = '>') ∧ m.isFileNumber then ([], .operator (m.sofar ++ [c]))
    else (m.ended, .operator [c])
  else if isActive c then (m.ended ++ [.active c], .between)
  else ([], .word (m.sofar ++ [c]) m.isQuoted)

def step : Mode → Char → List Token × Mode
  | .single w, c => ([], if c = '\'' then .word w true else .single (w ++ [c]))
  | .escaped m, c => ([], if c = '\n' then m else .word (m.sofar ++ [c]) true)
  | .operator o, c =>
    if longOperators.contains ((o ++ [c]).dropWhile Char.isDigit) then ([], .operator (o ++ [c]))
    else ((Mode.operator o).ended ++ (between.outside c).1, (between.outside c).2)
  | m, c => m.outside c

def readThrough (m : Mode) : List Char → List Token × Mode
  | [] => ([], m)
  | c :: s => ((m.step c).1 ++ ((m.step c).2.readThrough s).1, ((m.step c).2.readThrough s).2)

def last? : Mode → Option (List Token)
  | .single _ | .escaped _ => none
  | m => some m.ended

end Mode

/-- What a shell makes of a text. It is read from left to right; what follows a `$(` is read afresh. -/
def tokens? (s : String) : Option (List Token) :=
  let (ts, m) := Mode.between.readThrough s.toList
  m.last?.map (ts ++ ·)

section Words

variable {m m' : Mode} {s s' w w' : List Char} {c : Char}

theorem readThrough_append (m : Mode) (s s' : List Char) : m.readThrough (s ++ s') =
    ((m.readThrough s).1 ++ ((m.readThrough s).2.readThrough s').1, ((m.readThrough s).2.readThrough s').2) := by
  induction s generalizing m with
  | nil => rfl
  | cons c s ih => simp [Mode.readThrough, ih]

theorem readThrough_cons (h : m.step c = ([], m')) (s : List Char) :
    m.readThrough (c :: s) = m'.readThrough s := by
  rw [Mode.readThrough, h]
  rfl

theorem readThrough_append_of_eq (h : m.readThrough s = ([], m')) (s' : List Char) :
    m.readThrough (s ++ s') = m'.readThrough s' := by
  rw [readThrough_append, h]
  rfl

def Mode.IsPlain : Mode → Prop
  | .between | .word _ _ => True
  | _ => False

theorem step_of_isPlain (hm : m.IsPlain) (c : Char) : m.step c = m.outside c := by
  cases m with
  | between | word w quoted => rfl
  | single | escaped | operator => cases hm

theorem not_isSafe {l : List Char} (hl : l.all fun d => !isSafe d) (hc : isSafe c = true) :
    l.contains c = false := by
  refine Bool.eq_false_iff.2 fun h => ?_
  have hd := List.all_eq_true.1 hl c (List.contains_iff_mem.1 h)
  simp [hc] at hd

theorem outside_of_isSafe (m : Mode) (hc : isSafe c = true) :
    m.outside c = ([], .word (m.sofar ++ [c]) m.isQuoted) := by
  have hne : ∀ d, isSafe d = false → c ≠ d := by
    rintro d hd rfl
    cases hc.symm.trans hd
  have hoperator : beginsOperator c = false := not_isSafe (by decide) hc
  have hactive : isActive c = false := not_isSafe (by decide) hc
  have hblank : ¬ (c = ' ' ∨ c = '\t') := not_or.2 ⟨hne _ (by decide), hne _ (by decide)⟩
  rw [Mode.outside, if_neg (hne _ (by decide)), if_neg (hne _ (by decide)), if_neg hblank, hoperator, hactive]
  rfl

def Reads (s w : List Char) : Prop :=
  ∀ m : Mode, m.IsPlain → ∃ quoted, m.readThrough s = ([], .word (m.sofar ++ w) quoted)

theorem Reads.append (h : Reads s w) (h' : Reads s' w') : Reads (s ++ s') (w ++ w') := by
  intro m hm
  obtain ⟨quoted, h⟩ := h m hm
  obtain ⟨quoted', h'⟩ := h' (.word (m.sofar ++ w) quoted) trivial
  refine ⟨quoted', ?_⟩
  rw [readThrough_append_of_eq h, h', Mode.sofar, List.append_assoc]

theorem readThrough_safe (hs : s.all isSafe) (w : List Char) (quoted : Bool) :
    Mode.readThrough (.word w quoted) s = ([], .word (w ++ s) quoted) := by
  induction s generalizing w with
  | nil => simp [Mode.readThrough]
  | cons c s ih =>
    rw [List.all_cons, Bool.and_eq_true] at hs
    have hstep : Mode.step (.word w quoted) c = ([], .word (w ++ [c]) quoted) := outside_of_isSafe _ hs.1
    rw [readThrough_cons hstep, ih hs.2, List.append_assoc, List.singleton_append]

theorem reads_safe (hs : s.all isSafe) (hne : s ≠ []) : Reads s s := by
  intro m hm
  obtain ⟨c, s, rfl⟩ := List.exists_cons_of_ne_nil hne
  rw [List.all_cons, Bool.and_eq_true] at hs
  have hstep := (step_of_isPlain hm c).trans (outside_of_isSafe m hs.1)
  refine ⟨m.isQuoted, ?_⟩
  rw [readThrough_cons hstep, readThrough_safe hs.2, List.append_assoc, List.singleton_append]

/-- Within single quotes a text is read as it was; its own quotes are written outside of them. -/
theorem readThrough_single (s w : List Char) :
    Mode.readThrough (.single w) (s.flatMap quoteChar) = ([], .single (w ++ s)) := by
  induction s generalizing w with
  | nil => simp [Mode.readThrough]
  | cons c s ih =>
    have hc : Mode.readThrough (.single w) (quoteChar c) = ([], .single (w ++ [c])) := by
      rw [quoteChar]
      split
      · next hc =>
        subst hc
        rfl
      · next hc => simp [Mode.readThrough, Mode.step, hc]
    rw [List.flatMap_cons, readThrough_append_of_eq hc, ih, List.append_assoc, List.singleton_append]

theorem reads_quote (s : List Char) : Reads (quote s) s := by
  rw [quote]
  split
  · next hs => exact reads_safe hs.2 hs.1
  · intro m hm
    have hopen : m.step '\'' = ([], .single m.sofar) := step_of_isPlain hm '\''
    refine ⟨true, ?_⟩
    rw [List.cons_append, readThrough_cons hopen,
      readThrough_append_of_eq (readThrough_single s m.sofar)]
    rfl

end Words

section Lines

variable {s s' w : String} {ts ts' : List Token}

def Mode.IsComplete (m : Mode) : Prop := m.last? = some m.ended ∧ m.step ' ' = (m.ended, .between)

/-- By itself and in front of a blank, the text is these tokens. -/
def Spells (s : String) (ts : List Token) : Prop :=
  ∃ before m, Mode.IsComplete m ∧ Mode.between.readThrough s.toList = (before, m) ∧ before ++ m.ended = ts

theorem Spells.tokens?_eq (h : Spells s ts) : tokens? s = some ts := by
  obtain ⟨before, m, hm, hs, rfl⟩ := h
  rw [tokens?, hs]
  simp [hm.1]

theorem Reads.spells (h : Reads s.toList w.toList) : Spells s [.word w] := by
  obtain ⟨quoted, h⟩ := h .between trivial
  refine ⟨[], .word w.toList quoted, ⟨rfl, rfl⟩, h, ?_⟩
  simp [Mode.ended]

theorem Spells.append (h : Spells s ts) (h' : Spells s' ts') : Spells (s ++ " " ++ s') (ts ++ ts') := by
  obtain ⟨before, m, hm, hs, rfl⟩ := h
  obtain ⟨before', m', hm', hs', rfl⟩ := h'
  refine ⟨before ++ m.ended ++ before', m', hm', ?_, by simp⟩
  have hlist : (s ++ " " ++ s').toList = s.toList ++ ' ' :: s'.toList := by simp
  rw [hlist, readThrough_append, hs, Mode.readThrough, hm.2, hs', List.append_assoc]

theorem spells_intercalate {l : List α} {text : α → String} {tokens : α → List Token} (hl : l ≠ [])
    (h : ∀ a ∈ l, Spells (text a) (tokens a)) :
    Spells (" ".intercalate (l.map text)) (l.flatMap tokens) := by
  induction l with
  | nil => exact absurd rfl hl
  | cons a l ih =>
    rw [List.forall_mem_cons] at h
    cases l with
    | nil => simpa using h.1
    | cons b l =>
      have := h.1.append (ih (by simp) h.2)
      simpa [String.append_assoc] using this

end Lines

end LiveMigration.Shell
