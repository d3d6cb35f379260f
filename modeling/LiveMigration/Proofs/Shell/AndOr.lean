import LiveMigration.Proofs.Shell.Arguments

namespace LiveMigration

namespace Shell

inductive AndOr
  | command (ts : List Token)
  | join (l : AndOr) (k : Connector) (ts : List Token)
  deriving DecidableEq, Repr

def Connector.takes : Connector → UInt8 → Bool
  | .andThen, code => code = 0
  | .orElse, code => code ≠ 0

def exitCode (codes : Nat → UInt8) (place : Nat) (ts : List Token) : UInt8 :=
  if ts = words ["true"] then 0 else codes place

namespace AndOr

def extend : AndOr → List Token → AndOr
  | .command ts, ts' => .command (ts ++ ts')
  | .join l k ts, ts' => .join l k (ts ++ ts')

def push (l : AndOr) (t : Token) : AndOr :=
  if t = .operator "&&" then .join l .andThen []
  else if t = .operator "||" then .join l .orElse []
  else l.extend [t]

def read? (s : String) : Option AndOr := (tokens? s).map (List.foldl push (.command []))

def commands : AndOr → List (List Token)
  | .command ts => [ts]
  | .join l _ ts => l.commands ++ [ts]

/-- The commands that are run, and what the list ends with: the code of the last of them. -/
def run (codes : Nat → UInt8) : AndOr → List (List Token) × UInt8
  | .command ts => ([ts], exitCode codes 0 ts)
  | .join l k ts =>
    let (ran, code) := l.run codes
    if k.takes code then (ran ++ [ts], exitCode codes l.commands.length ts) else (ran, code)

def andAll (l : AndOr) (steps : List (List Token)) : AndOr := steps.foldl (fun l ts => .join l .andThen ts) l

section Reading

variable {l : AndOr} {ts : List Token}

theorem push_token (l : AndOr) (k : Connector) : l.push k.token = .join l k [] := by
  cases k <;> rfl

theorem push_of_ne {t : Token} (h : ∀ k : Connector, t ≠ k.token) (l : AndOr) : l.push t = l.extend [t] := by
  have hand : t ≠ .operator "&&" := h .andThen
  have hor : t ≠ .operator "||" := h .orElse
  rw [push, if_neg hand, if_neg hor]

theorem extend_extend (l : AndOr) (ts ts' : List Token) : (l.extend ts).extend ts' = l.extend (ts ++ ts') := by
  cases l <;> simp [extend]

theorem foldl_push (h : ∀ t ∈ ts, ∀ k : Connector, t ≠ k.token) (l : AndOr) :
    ts.foldl push l = l.extend ts := by
  induction ts generalizing l with
  | nil => cases l <;> simp [extend]
  | cons t ts ih =>
    rw [List.forall_mem_cons] at h
    rw [List.foldl_cons, push_of_ne h.1, ih h.2, extend_extend, List.singleton_append]

theorem words_ne_token (ws : List String) : ∀ t ∈ words ws, ∀ k : Connector, t ≠ k.token := by
  intro t ht k
  obtain ⟨w, -, rfl⟩ := List.mem_map.1 ht
  cases k <;> nofun

theorem foldl_push_words (l : AndOr) (k : Connector) (ws : List String) :
    (k.token :: words ws).foldl push l = .join l k (words ws) := by
  rw [List.foldl_cons, push_token, foldl_push (words_ne_token ws), extend, List.nil_append]

theorem foldl_push_andAll (l : AndOr) (steps : List (List String)) :
    (steps.flatMap fun ws => Token.operator "&&" :: words ws).foldl push l = l.andAll (steps.map words) := by
  induction steps generalizing l with
  | nil => rfl
  | cons ws steps ih =>
    have hws : (Token.operator "&&" :: words ws).foldl push l = .join l .andThen (words ws) :=
      foldl_push_words l .andThen ws
    rw [List.flatMap_cons, List.foldl_append, hws, ih]
    rfl

end Reading

section Running

variable {codes : Nat → UInt8} {l : AndOr} {steps : List (List Token)}

theorem run_join (codes : Nat → UInt8) (l : AndOr) (k : Connector) (ts : List Token) :
    (join l k ts).run codes = if k.takes (l.run codes).2 then
      ((l.run codes).1 ++ [ts], exitCode codes l.commands.length ts) else l.run codes := rfl

theorem run_andAll_of_failed (h : (l.run codes).2 ≠ 0) (steps : List (List Token)) :
    (l.andAll steps).run codes = l.run codes := by
  induction steps generalizing l with
  | nil => rfl
  | cons ts steps ih =>
    have hrun : (join l .andThen ts).run codes = l.run codes := by
      rw [run_join, if_neg (by simpa [Connector.takes] using h)]
    rw [andAll, List.foldl_cons, ← andAll, ih (by rwa [hrun]), hrun]

/-- After a success as many steps succeed as do without a break; the next one is run too, and is the last. -/
theorem run_andAll (h : (l.run codes).2 = 0) (hsteps : ∀ ts ∈ steps, ts ≠ words ["true"]) :
    ∃ n ≤ steps.length, (∀ k < n, codes (l.commands.length + k) = 0) ∧
      (n < steps.length → codes (l.commands.length + n) ≠ 0) ∧
      ((l.andAll steps).run codes).1 = (l.run codes).1 ++ steps.take (n + 1) ∧
      (((l.andAll steps).run codes).2 = 0 ↔ n = steps.length) := by
  induction steps generalizing l with
  | nil => exact ⟨0, Nat.le_refl _, nofun, nofun, by simp [andAll], by simp [andAll, h]⟩
  | cons ts steps ih =>
    rw [List.forall_mem_cons] at hsteps
    have hrun : (join l .andThen ts).run codes = ((l.run codes).1 ++ [ts], codes l.commands.length) := by
      rw [run_join, if_pos (by simpa [Connector.takes] using h), exitCode, if_neg hsteps.1]
    have hall : l.andAll (ts :: steps) = (join l .andThen ts).andAll steps := rfl
    have hlen : (join l .andThen ts).commands.length = l.commands.length + 1 := by simp [commands]
    rw [hall]
    by_cases hcode : codes l.commands.length = 0
    · obtain ⟨n, hn, hbefore, hnext, hran, hcode'⟩ := ih (by rw [hrun]; exact hcode) hsteps.2
      rw [hlen] at hbefore hnext
      refine ⟨n + 1, Nat.succ_le_succ hn, fun k hk => ?_, fun hlt => ?_, ?_, ?_⟩
      · cases k with
        | zero => exact hcode
        | succ k =>
          rw [← hbefore k (Nat.lt_of_succ_lt_succ hk)]
          congr 1
          omega
      · have := hnext (Nat.lt_of_succ_lt_succ hlt)
        rwa [Nat.add_assoc, Nat.add_comm 1] at this
      · rw [hran, hrun, List.take_succ_cons, List.append_assoc, List.singleton_append]
      · rw [hcode', List.length_cons, Nat.succ_inj]
    · refine ⟨0, Nat.zero_le _, nofun, fun _ => hcode, ?_, ?_⟩
      · rw [run_andAll_of_failed (by rw [hrun]; exact hcode), hrun]
        rfl
      · rw [run_andAll_of_failed (by rw [hrun]; exact hcode), hrun]
        simp [hcode]

end Running

end AndOr

theorem length_linkName (a : Addr) : (linkName a).length = 10 := by
  rw [linkName, String.length_ofList]
  simp

theorem linkName_injective : Function.Injective linkName := by
  intro a b h
  have hdigits (c : Addr) : Text.digits? 16 (Text.hex 8 c.word.toNat) = some c.word.toNat :=
    Text.digits?_hex (by decide) c.word.toNat_lt
  have hhex : Text.hex 8 a.word.toNat = Text.hex 8 b.word.toNat := by
    simpa [linkName] using congrArg String.toList h
  have hword : a.word.toNat = b.word.toNat := Option.some.inj (by rw [← hdigits, hhex, hdigits])
  cases a
  cases b
  simpa [UInt32.toNat_inj] using hword

def link? : List Token → Option String
  | .word "ip" :: .word "link" :: .word "del" :: .word link :: _ => some link
  | .word "ip" :: .word "link" :: .word "add" :: .word "link" :: .word _ :: .word "name" :: .word link :: _ =>
    some link
  | .word "ip" :: .word "link" :: .word "set" :: .word link :: _ => some link
  | .word "ip" :: .word "addr" :: .word "replace" :: .word _ :: .word "dev" :: .word link :: _ => some link
  | .word "ip" :: .word "neigh" :: .word "replace" :: .word _ :: .word "lladdr" :: .word _ :: .word "dev" ::
    .word link :: _ => some link
  | .word "arping" :: .word "-U" :: .word "-c" :: .word _ :: .word "-I" :: .word link :: _ => some link
  | _ => none

def linkless : List (List Token) := [words ["true"], words ["ip", "route", "flush", "cache"]]

namespace AndOr

def binding (i : Identity) (uplink : String) (peers : List Neighbor) : AndOr :=
  (join (.command (removal (linkName i.addr))) .orElse (words ["true"])).andAll
    ((bindingSteps i uplink peers).map words)

def unbinding (a : Addr) : AndOr := .join (.command (removal (linkName a))) .orElse (words ["true"])

theorem foldl_push_unbindingTokens (a : Addr) : (unbindingTokens a).foldl push (.command []) = unbinding a := by
  have hremoval : ∀ t ∈ removal (linkName a), ∀ k : Connector, t ≠ k.token := by
    intro t ht
    rcases List.mem_append.1 ht with ht | ht
    · exact words_ne_token _ t ht
    · intro k
      cases k <;> rintro rfl <;> simp [Connector.token] at ht
  have htrue (l : AndOr) : (Token.operator "||" :: words ["true"]).foldl push l = .join l .orElse (words ["true"]) :=
    foldl_push_words l .orElse _
  rw [unbindingTokens, List.foldl_append, foldl_push hremoval, htrue]
  rfl

theorem read?_unbindLink (a : Addr) : read? (Command.unbindLink a).text = some (unbinding a) := by
  have htext : (Command.unbindLink a).text = (Command.unbindChain a).text := rfl
  rw [read?, htext, (spells_unbindChain a).tokens?_eq, Option.map_some, foldl_push_unbindingTokens]

theorem read?_bindLink (i : Identity) (uplink : String) (peers : List Neighbor) :
    read? (Command.bindLink i uplink peers).text = some (binding i uplink peers) := by
  have htext : (Command.bindLink i uplink peers).text = (Command.bindChain i uplink peers).text := rfl
  rw [read?, htext, (spells_bindChain i uplink peers).tokens?_eq, Option.map_some, bindingTokens,
    List.foldl_append, foldl_push_unbindingTokens, foldl_push_andAll]
  rfl

theorem read?_announce (a : Addr) : read? (Command.announce a).text =
    some (.command (words ["arping", "-U", "-c", "1", "-I", linkName a, a.text])) := by
  have hwords : (Command.announce a).words? =
      some (plainWords ["arping", "-U", "-c", "1", "-I", linkName a, a.text]) := rfl
  have htext : (Command.announce a).text =
      lineText (plainWords ["arping", "-U", "-c", "1", "-I", linkName a, a.text]) := by
    simp only [Command.text, hwords]
  have hspells := spells_lineText (sound_words? hwords).1 (sound_words? hwords).2
  rw [read?, htext, hspells.tokens?_eq, Option.map_some]
  rfl

theorem commands_andAll (l : AndOr) (steps : List (List Token)) :
    (l.andAll steps).commands = l.commands ++ steps := by
  induction steps generalizing l with
  | nil => simp [andAll]
  | cons ts steps ih =>
    rw [andAll, List.foldl_cons, ← andAll, ih, commands, List.append_assoc, List.singleton_append]

theorem run_unbinding (codes : Nat → UInt8) (a : Addr) : (unbinding a).run codes =
    (removal (linkName a) :: if codes 0 = 0 then [] else [words ["true"]], 0) := by
  have hremoval : removal (linkName a) ≠ words ["true"] := by simp [removal, words]
  have hfirst : (command (removal (linkName a))).run codes = ([removal (linkName a)], codes 0) := by
    rw [run, exitCode, if_neg hremoval]
  rw [unbinding, run_join, hfirst]
  by_cases h : codes 0 = 0
  · simp [Connector.takes, h]
  · simp [Connector.takes, h, exitCode]

theorem ne_true_of_mem_bindingSteps (i : Identity) (uplink : String) (peers : List Neighbor) :
    ∀ ts ∈ (bindingSteps i uplink peers).map words, ts ≠ words ["true"] := by
  simp [bindingSteps, words]

theorem link?_of_mem {e : Endpoint} {uplink : String} {peers : List Neighbor} :
    ∀ ts ∈ (binding e.identity uplink peers).commands, ts ∈ linkless ∨ link? ts = some (linkName e.addr) := by
  rw [binding, commands_andAll]
  simp only [commands, bindingSteps, List.map_cons, List.map_map, List.cons_append, List.nil_append,
    List.forall_mem_cons, List.forall_mem_map, Function.comp]
  exact ⟨.inr rfl, .inl (by decide), .inr rfl, .inr rfl, .inr rfl, .inl (by decide), fun p _ => .inr rfl⟩

/-- The scripts for a link, by what a shell reads in them. Whatever the commands end with, the one that binds
an identity first removes the link, which may fail; then it runs its steps in order up to the first that fails,
and succeeds just if none does. The one that takes the link away always succeeds. All of them mean one link,
whose name is short enough and is that of no other address. -/
theorem identity_bound_or_refused (e : Endpoint) (uplink : String) (peers : List Neighbor)
    (codes : Nat → UInt8) :
    let link := linkName e.addr
    let steps := (bindingSteps e.identity uplink peers).map words
    ∃ bind unbind announce : AndOr,
      read? (Command.bindLink e.identity uplink peers).text = some bind ∧
      read? (Command.unbindLink e.addr).text = some unbind ∧
      read? (Command.announce e.addr).text = some announce ∧
      bind.commands = removal link :: words ["true"] :: steps ∧
      (∃ n ≤ steps.length, (∀ k < n, codes (2 + k) = 0) ∧ (n < steps.length → codes (2 + n) ≠ 0) ∧
        (bind.run codes).1 =
          (removal link :: if codes 0 = 0 then [] else [words ["true"]]) ++ steps.take (n + 1)) ∧
      ((bind.run codes).2 = 0 ↔ ∀ k < steps.length, codes (2 + k) = 0) ∧
      unbind.run codes = (removal link :: if codes 0 = 0 then [] else [words ["true"]], 0) ∧
      (∀ ts ∈ bind.commands ++ unbind.commands ++ announce.commands,
        ts ∈ linkless ∨ link? ts = some link) ∧
      link.length ≤ 15 ∧ ∀ a, linkName a = link → a = e.addr := by
  intro link steps
  have hfirst := run_unbinding codes e.addr
  -- The script goes on after the removal, whatever became of that.
  have hsucceeds : ((unbinding e.addr).run codes).2 = 0 := by rw [hfirst]
  obtain ⟨n, hn, hbefore, hnext, hran, hcode⟩ :=
    run_andAll hsucceeds (ne_true_of_mem_bindingSteps e.identity uplink peers)
  rw [hfirst] at hran
  refine ⟨binding e.identity uplink peers, unbinding e.addr, _, read?_bindLink .., read?_unbindLink ..,
    read?_announce .., commands_andAll .., ⟨n, hn, hbefore, hnext, hran⟩, hcode.trans ?_, hfirst, ?_, ?_, ?_⟩
  · constructor
    · rintro rfl
      exact hbefore
    · intro h
      refine Nat.le_antisymm hn (Nat.le_of_not_lt fun hlt => hnext hlt (h n hlt))
  · rw [List.forall_mem_append, List.forall_mem_append]
    refine ⟨⟨link?_of_mem, ?_⟩, ?_⟩
    · simp only [commands, unbinding, List.cons_append, List.nil_append, List.forall_mem_cons]
      exact ⟨.inr rfl, .inl (by decide), nofun⟩
    · exact List.forall_mem_singleton.2 (.inr rfl)
  · rw [length_linkName]
    decide
  · exact fun a ha => linkName_injective ha

end AndOr

end Shell

end LiveMigration
