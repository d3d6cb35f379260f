import LiveMigration.Proofs.Shell.Tokens

namespace LiveMigration

namespace Shell

def isSafeText (s : String) : Bool := s ≠ "" && s.toList.all isSafe

theorem isSafe_of_isAlphanum {c : Char} (h : c.isAlphanum = true) : isSafe c = true := by
  rw [isSafe, h, Bool.true_or]

theorem isSafeText_ofList {s : List Char} (hs : ∀ c ∈ s, isSafe c = true) (hc : c ∈ s) :
    isSafeText (String.ofList s) = true := by
  have hne : s ≠ [] := List.ne_nil_of_mem hc
  simpa [isSafeText, ← String.toList_inj, hne] using hs

theorem isSafeText_append (s : String) {t : String} (hs : isSafeText s = true) (ht : isSafeText t = true) :
    isSafeText (s ++ t) = true := by
  simp_all [isSafeText]

end Shell

open Shell

theorem Addr.isSafeText_text (a : Addr) : isSafeText a.text = true := by
  refine isSafeText_ofList (c := '.') (fun c hc => ?_) (by simp [chars, joined])
  rcases isAlphanum_of_mem_chars hc with hc | rfl
  · exact isSafe_of_isAlphanum hc
  · decide

theorem Mac.isSafeText_text (m : Mac) : isSafeText m.text = true := by
  obtain ⟨b, b', l, hl⟩ : ∃ b b' l, m.octets.toList = b :: b' :: l := by
    have hlen : m.octets.toList.length = 6 := Vector.length_toList
    match h : m.octets.toList, hlen with
    | b :: b' :: l, _ => exact ⟨b, b', l, rfl⟩
  refine isSafeText_ofList (c := ':') (fun c hc => ?_) ?_
  · rcases isAlphanum_of_mem_chars hc with hc | rfl
    · exact isSafe_of_isAlphanum hc
    · decide
  · simp [chars, hl, List.intercalate_cons_cons]

namespace Shell

theorem isSafeText_linkName (a : Addr) : isSafeText (linkName a) = true := by
  refine isSafeText_ofList (c := 'f') (fun c hc => isSafe_of_isAlphanum ?_) List.mem_cons_self
  rcases List.mem_cons.1 hc with rfl | hc
  · decide
  · rcases List.mem_cons.1 hc with rfl | hc
    · decide
    · exact Text.isAlphanum_of_mem_hex hc

theorem reads_safeText {s : String} (h : isSafeText s = true) : Reads s.toList s.toList := by
  rw [isSafeText, Bool.and_eq_true] at h
  exact reads_safe h.2 (by simpa using h.1)

theorem spells_quoteString (s : String) : Spells (quoteString s) [.word s] := by
  refine Reads.spells ?_
  rw [quoteString, String.toList_ofList]
  exact reads_quote s.toList

def Piece.isSound : Piece → Bool
  | .plain s => isSafeText s
  | .value _ => true

def Word.isSound (w : Word) : Bool := w ≠ [] && w.all Piece.isSound

theorem reads_piece {piece : Piece} (h : piece.isSound = true) :
    Reads piece.text.toList piece.meaning.toList := by
  cases piece with
  | plain s => exact reads_safeText h
  | value s =>
    rw [Piece.text, quoteString, String.toList_ofList]
    exact reads_quote s.toList

theorem reads_word {w : Word} (h : Word.isSound w = true) : Reads w.text.toList w.meaning.toList := by
  rw [Word.isSound, Bool.and_eq_true, List.all_eq_true] at h
  obtain ⟨hne, hw⟩ := h
  induction w with
  | nil => simp at hne
  | cons piece w ih =>
    rw [List.forall_mem_cons] at hw
    have hpiece := reads_piece hw.1
    by_cases hnil : w = []
    · subst hnil
      simpa [Word.text, Word.meaning] using hpiece
    · simpa [Word.text, Word.meaning, String.join_cons] using hpiece.append (ih (by simpa using hnil) hw.2)

theorem spells_lineText {l : List Word} (hl : l ≠ []) (h : l.all Word.isSound) :
    Spells (lineText l) ((arguments l).map .word) := by
  have hspells := spells_intercalate hl fun w hw => (reads_word (List.all_eq_true.1 h w hw)).spells
  rwa [arguments, List.map_map, List.map_eq_flatMap]

def words (l : List String) : List Token := l.map .word

theorem sound_plainWords {l : List String} (hl : l ≠ []) (h : l.all isSafeText) :
    plainWords l ≠ [] ∧ (plainWords l).all Word.isSound := by
  refine ⟨by simpa [plainWords] using hl, ?_⟩
  simpa [plainWords, Word.isSound, Piece.isSound] using h

theorem spells_plainWords {l : List String} (hl : l ≠ []) (h : l.all isSafeText) :
    Spells (lineText (plainWords l)) (words l) := by
  have hspells := spells_lineText (sound_plainWords hl h).1 (sound_plainWords hl h).2
  simpa [words, arguments, plainWords, Word.meaning, Piece.meaning, Function.comp_def] using hspells

def Connector.token : Connector → Token
  | .andThen => .operator "&&"
  | .orElse => .operator "||"

theorem spells_connector (k : Connector) : ∃ s, k.text = " " ++ s ++ " " ∧ Spells s [k.token] := by
  cases k with
  | andThen => exact ⟨"&&", rfl, [], _, ⟨rfl, rfl⟩, rfl, rfl⟩
  | orElse => exact ⟨"||", rfl, [], _, ⟨rfl, rfl⟩, rfl, rfl⟩

theorem Spells.chain {s : String} {ts : List Token} (h : Spells s ts) {l : List (Connector × List Word)}
    (hl : ∀ a ∈ l, a.2 ≠ [] ∧ a.2.all Word.isSound) :
    Spells (Chain.text ⟨s, l.map fun a => (a.1, lineText a.2)⟩)
      (ts ++ l.flatMap fun a => a.1.token :: words (arguments a.2)) := by
  induction l generalizing s ts with
  | nil => simpa [Chain.text] using h
  | cons a l ih =>
    rw [List.forall_mem_cons] at hl
    obtain ⟨sign, htext, hsign⟩ := spells_connector a.1
    have hrest := ih ((h.append hsign).append (spells_lineText hl.1.1 hl.1.2)) hl.2
    simpa [Chain.text, String.join_cons, htext, words, String.append_assoc] using hrest

def removal (link : String) : List Token :=
  words ["ip", "link", "del", link] ++ [.operator "2>", .word "/dev/null"]

def bindingSteps (i : Identity) (uplink : String) (peers : List Neighbor) : List (List String) :=
  ["ip", "link", "add", "link", uplink, "name", linkName i.addr, "address", i.mac.text, "type", "macvlan", "mode",
    "bridge"] ::
  ["ip", "addr", "replace", i.addr.text ++ "/32", "dev", linkName i.addr] ::
  ["ip", "link", "set", linkName i.addr, "up"] ::
  ["ip", "route", "flush", "cache"] ::
  peers.map fun p =>
    ["ip", "neigh", "replace", p.addr.text, "lladdr", p.mac.text, "dev", linkName i.addr, "nud", "permanent"]

def bindingWords (i : Identity) (uplink : String) (peers : List Neighbor) : List (List Word) :=
  (plainWords ["ip", "link", "add", "link"] ++ [valueWord uplink] ++
    plainWords ["name", linkName i.addr, "address", i.mac.text, "type", "macvlan", "mode", "bridge"]) ::
  plainWords ["ip", "addr", "replace", i.addr.text ++ "/32", "dev", linkName i.addr] ::
  plainWords ["ip", "link", "set", linkName i.addr, "up"] ::
  plainWords ["ip", "route", "flush", "cache"] ::
  peers.map fun p => plainWords
    ["ip", "neigh", "replace", p.addr.text, "lladdr", p.mac.text, "dev", linkName i.addr, "nud", "permanent"]

section Links

variable (i : Identity) (uplink : String) (peers : List Neighbor)

theorem map_arguments_bindingWords : (bindingWords i uplink peers).map arguments = bindingSteps i uplink peers := by
  simp [bindingWords, bindingSteps, arguments, plainWords, valueWord, Word.meaning, Piece.meaning,
    Function.comp_def]

theorem sound_bindingWords : ∀ l ∈ bindingWords i uplink peers, l ≠ [] ∧ l.all Word.isSound := by
  have hlink := isSafeText_linkName i.addr
  have hmac := i.mac.isSafeText_text
  have hprefix : isSafeText (i.addr.text ++ "/32") = true :=
    isSafeText_append _ i.addr.isSafeText_text (by decide)
  simp only [bindingWords, List.forall_mem_cons, List.forall_mem_map]
  refine ⟨⟨nofun, ?_⟩, sound_plainWords nofun ?_, sound_plainWords nofun ?_, sound_plainWords nofun (by decide),
    fun p _ => sound_plainWords nofun ?_⟩
  · have hname : ["name", linkName i.addr, "address", i.mac.text, "type", "macvlan", "mode", "bridge"].all
        isSafeText := by
      simp only [List.all_cons, hlink, hmac]
      decide
    rw [List.all_append, List.all_append, (sound_plainWords (List.cons_ne_nil _ _) hname).2]
    rfl
  · simp only [List.all_cons, hprefix, hlink]
    decide
  · simp only [List.all_cons, hlink]
    decide
  · simp only [List.all_cons, p.addr.isSafeText_text, p.mac.isSafeText_text, hlink]
    decide

theorem rest_bindChain : (Command.bindChain i uplink peers).rest =
    ((.orElse, plainWords ["true"]) :: (bindingWords i uplink peers).map fun l => (.andThen, l)).map
      fun a => (a.1, lineText a.2) := by
  simp [Command.bindChain, bindingWords, lineText, plainWords, valueWord, Word.text, Piece.text, toString,
    ← String.toList_inj, Function.comp_def]

end Links

theorem spells_removal (a : Addr) : Spells s!"ip link del {linkName a} 2>/dev/null" (removal (linkName a)) := by
  have hwords : Spells (lineText (plainWords ["ip", "link", "del", linkName a]))
      (words ["ip", "link", "del", linkName a]) := by
    refine spells_plainWords nofun ?_
    simp only [List.all_cons, isSafeText_linkName]
    decide
  have hsilence : Spells "2>/dev/null" [.operator "2>", .word "/dev/null"] := ⟨_, _, ⟨rfl, rfl⟩, rfl, rfl⟩
  have htext : s!"ip link del {linkName a} 2>/dev/null" =
      lineText (plainWords ["ip", "link", "del", linkName a]) ++ " " ++ "2>/dev/null" := by
    simp [lineText, plainWords, Word.text, Piece.text, toString, ← String.toList_inj]
  rw [htext]
  exact hwords.append hsilence

def unbindingTokens (a : Addr) : List Token := removal (linkName a) ++ .operator "||" :: words ["true"]

def bindingTokens (i : Identity) (uplink : String) (peers : List Neighbor) : List Token :=
  unbindingTokens i.addr ++ (bindingSteps i uplink peers).flatMap fun l => .operator "&&" :: words l

theorem spells_bindChain (i : Identity) (uplink : String) (peers : List Neighbor) :
    Spells (Command.bindChain i uplink peers).text (bindingTokens i uplink peers) := by
  have hsound : ∀ a ∈ (Connector.orElse, plainWords ["true"]) ::
      (bindingWords i uplink peers).map fun l => (Connector.andThen, l), a.2 ≠ [] ∧ a.2.all Word.isSound := by
    rw [List.forall_mem_cons, List.forall_mem_map]
    exact ⟨sound_plainWords nofun (by decide), sound_bindingWords i uplink peers⟩
  have h := (spells_removal i.addr).chain hsound
  rw [← rest_bindChain] at h
  have htokens : bindingTokens i uplink peers = removal (linkName i.addr) ++
      ((Connector.orElse, plainWords ["true"]) ::
        (bindingWords i uplink peers).map fun l => (Connector.andThen, l)).flatMap
          fun a => a.1.token :: words (arguments a.2) := by
    simp [bindingTokens, unbindingTokens, ← map_arguments_bindingWords, List.flatMap_map, Connector.token]
    rfl
  rw [htokens]
  exact h

theorem spells_unbindChain (a : Addr) : Spells (Command.unbindChain a).text (unbindingTokens a) :=
  (spells_removal a).chain (l := [(.orElse, plainWords ["true"])])
    (List.forall_mem_singleton.2 (sound_plainWords nofun (by decide)))

/-- What the shell of a host is meant to find in a command: words, of which each value is one, and what puts
commands together. A line of somebody else's is taken for what it is. -/
def Command.expected? : Command → Option (List Token)
  | .signal container name => some (words ["podman", "kill", "--signal", name, container])
  | .inspectRunning container =>
    some (words ["podman", "container", "inspect", "-f", "\x7b\x7b.State.Running\x7d\x7d", container])
  | .restoreInPlace container =>
    some (words ["podman", "container", "restore", "--tcp-established", container])
  | .sendQueue container =>
    some (words ["nsenter", "-t"] ++ [.active '"', .active '$', .operator "("] ++
      words ["podman", "container", "inspect", "-f", "\x7b\x7b.State.Pid\x7d\x7d", container] ++
      [.operator ")", .active '"'] ++ words ["-n", "ss", "-tnH", "state", "established"])
  | .checkpoint container archive =>
    some (words ["podman", "container", "checkpoint", "--tcp-established", "--keep", "--export", archive, container])
  | .restore archive container resumeTransport identity =>
    some (words (["podman", "container", "restore", "--import", archive, "--name", container, "--keep"] ++
      (if resumeTransport then ["--tcp-established"] else []) ++
      match identity with
      | none => []
      | some i => ["--ip", i.addr.text, "--mac-address", i.mac.text]))
  | .removeContainer container => some (words ["podman", "rm", "-f", container])
  | .removeLeftover container => some (words ["podman", "rm", "-f", "--ignore", container])
  | .imageExists image => some (words ["podman", "image", "exists", image])
  | .fileSize path => some (words ["stat", "-c", "%s", path])
  | .makeDir path => some (words ["mkdir", "-p", path])
  | .removeFile path => some (words ["rm", "-f", path])
  | .copy source target => some (words ["cp", source, target])
  | .secureCopy source ssh target =>
    some (words ["scp", "-q", "-o", "BatchMode=yes", source, ssh ++ ":" ++ target])
  | .bindLink i uplink peers => some (bindingTokens i uplink peers)
  | .announce addr => some (words ["arping", "-U", "-c", "1", "-I", linkName addr, addr.text])
  | .unbindLink addr => some (unbindingTokens addr)
  | .line text => tokens? text

theorem spells_sendQueue (container : String) : Spells (Command.sendQueue container).text
    (words ["nsenter", "-t"] ++ [.active '"', .active '$', .operator "("] ++
      words ["podman", "container", "inspect", "-f", "\x7b\x7b.State.Pid\x7d\x7d", container] ++
      [.operator ")", .active '"'] ++ words ["-n", "ss", "-tnH", "state", "established"]) := by
  have hbefore : Spells "nsenter -t \"$(podman container inspect -f '\x7b\x7b.State.Pid\x7d\x7d'"
      (words ["nsenter", "-t"] ++ [.active '"', .active '$', .operator "("] ++
        words ["podman", "container", "inspect", "-f", "\x7b\x7b.State.Pid\x7d\x7d"]) :=
    ⟨_, _, ⟨rfl, rfl⟩, rfl, rfl⟩
  have hafter : Spells "-n ss -tnH state established" (words ["-n", "ss", "-tnH", "state", "established"]) :=
    ⟨_, _, ⟨rfl, rfl⟩, rfl, rfl⟩
  have hcontainer : Spells (quoteString container ++ ")\"") [.word container, .operator ")", .active '"'] := by
    obtain ⟨quoted, h⟩ := reads_quote container.toList .between trivial
    refine ⟨_, .between, ⟨rfl, rfl⟩, ?_, List.append_nil _⟩
    rw [quoteString, String.toList_append, String.toList_ofList, readThrough_append_of_eq h]
    have hend : Mode.readThrough (.word container.toList quoted) [')', '"'] =
      ([.word (String.ofList container.toList), .operator ")", .active '"'], .between) := rfl
    rwa [String.ofList_toList] at hend
  have h := (hbefore.append hcontainer).append hafter
  have htext : (Command.sendQueue container).text =
      "nsenter -t \"$(podman container inspect -f '\x7b\x7b.State.Pid\x7d\x7d'" ++ " " ++
        (quoteString container ++ ")\"") ++ " " ++ "-n ss -tnH state established" := by
    simp [Command.text, Command.words?, ← String.toList_inj]
  rw [htext]
  simpa [words] using h

theorem sound_words? {c : Command} {ws : List Word} (h : c.words? = some ws) : ws ≠ [] ∧ ws.all Word.isSound := by
  cases c with
  | sendQueue | bindLink | unbindLink | line => cases h
  | restore archive container resumeTransport identity =>
    cases h
    cases resumeTransport <;> cases identity <;>
      simp [plainWords, valueWord, Word.isSound, Piece.isSound, Addr.isSafeText_text, Mac.isSafeText_text] <;> decide
  | announce addr =>
    cases h
    refine sound_plainWords nofun ?_
    simp only [List.all_cons, isSafeText_linkName, addr.isSafeText_text]
    decide
  | _ =>
    cases h
    exact ⟨nofun, rfl⟩

theorem expected?_of_words? {c : Command} {ws : List Word} (h : c.words? = some ws) :
    c.expected? = some (words (arguments ws)) := by
  cases c with
  | sendQueue | bindLink | unbindLink | line => cases h
  | restore archive container resumeTransport identity =>
    cases h
    cases resumeTransport <;> cases identity <;>
      simp [Command.expected?, words, arguments, plainWords, valueWord, Word.meaning, Piece.meaning]
  | _ =>
    cases h
    simp [Command.expected?, words, arguments, plainWords, valueWord, Word.meaning, Piece.meaning,
      String.append_assoc]

/-- However values are made up, each of them is one word to the shell, with nothing of it active; and what the
shell finds in a command is what is meant to be there. -/
theorem commands_read_as_meant :
    (∀ s, tokens? (quoteString s) = some [.word s]) ∧ ∀ c : Command, tokens? c.text = c.expected? := by
  refine ⟨fun s => (spells_quoteString s).tokens?_eq, fun c => ?_⟩
  cases hc : c.words? with
  | some ws =>
    obtain ⟨hne, hsound⟩ := sound_words? hc
    have htext : c.text = lineText ws := by simp only [Command.text, hc]
    rw [htext, expected?_of_words? hc]
    exact (spells_lineText hne hsound).tokens?_eq
  | none =>
    cases c with
    | sendQueue container => exact (spells_sendQueue container).tokens?_eq
    | bindLink i uplink peers => exact (spells_bindChain i uplink peers).tokens?_eq
    | unbindLink addr => exact (spells_unbindChain addr).tokens?_eq
    | line text => rfl
    | _ => cases hc

end Shell

end LiveMigration
