import TableFlow.Proofs.Script.Grammar
import TableFlow.Proofs.Script.RoundTrip

/-!
# Scripts are read line by line

What a line says does not depend on the lines around it.  The tokens of a script are one stream, and a key at the
end of a line that lacks its value is only noticed at the next command or at the final token; but it is charged to
its own line, before anything behind it is looked at.  So reading the stream is reading each line by its words, and
the first line with a fault is the fault of the script.

Main results:

- Definition `lineNode`: what the words of one line say.
- Theorem `read_line`: reading the tokens of a line adds what the line says, whatever was read before.
- Theorem `parse_eq_nodesFrom`: a script is its lines, read one after another.
- Theorem `lineNode_eq_error_iff`: which lines have a fault.
- Theorem `parse_line_by_line`: a script is read as each of its lines is on its own.
-/

namespace TableFlow
namespace Script

open Text (lines lines_single)

/-- The node on another line. -/
def Node.onLine (n : Node) (line : Nat) : Node := { n with line }

/-! ## Reading words -/

/-- What the words behind a command make of its node, or the fault of the first key that lacks its value. -/
def Node.readWords (n : Node) : List Word → Except Fault Node
  | [] => .ok n
  | w :: rest =>
    match w.option? with
    | none => Node.readWords { n with args := n.args ++ [w.text] } rest
    | some ⟨name, some value⟩ =>
      Node.readWords
        { n with options := n.options.insert (String.ofList name) (String.ofList value) } rest
    | some ⟨name, none⟩ =>
      match rest with
      | [] => .error (.missingValue (String.ofList name))
      | v :: after =>
        if v.mayBeValue then
          Node.readWords { n with options := n.options.insert (String.ofList name) v.text } after
        else .error (.missingValue (String.ofList name))

/-- What the words of a line say: nothing, one node, or a fault. -/
def lineNode (l : String) : Except Fault (Option Node) :=
  match words l.toList with
  | [] => .ok none
  | first :: rest =>
    if first.text = "" then .error .emptyCommand
    else if isOptionWord first.text then .error (.optionAsCommand first.text)
    else (Node.readWords { command := first.text } rest).map some

section

variable {w v : Word} {name value : List Char} (n : Node) (rest : List Word)

theorem readWords_argument (h : w.option? = none) :
    n.readWords (w :: rest) = Node.readWords { n with args := n.args ++ [w.text] } rest := by
  rw [Node.readWords.eq_def]
  simp only [h]

theorem readWords_inline (h : w.option? = some ⟨name, some value⟩) :
    n.readWords (w :: rest) = Node.readWords
      { n with options := n.options.insert (String.ofList name) (String.ofList value) } rest := by
  rw [Node.readWords.eq_def]
  simp only [h]

theorem readWords_key_value (h : w.option? = some ⟨name, none⟩) (hv : v.mayBeValue = true) :
    n.readWords (w :: v :: rest) =
      Node.readWords { n with options := n.options.insert (String.ofList name) v.text } rest := by
  rw [Node.readWords.eq_def]
  simp only [h, hv, if_true]

theorem readWords_key_alone (h : w.option? = some ⟨name, none⟩)
    (hrest : ∀ v ∈ rest.head?, v.mayBeValue = false) :
    n.readWords (w :: rest) = .error (.missingValue (String.ofList name)) := by
  rw [Node.readWords.eq_def]
  cases rest with
  | nil => simp only [h]
  | cons v after =>
      have hv := hrest v (by simp)
      simp [h, hv]

end

/-- Words are read in the same way on every line. -/
theorem readWords_onLine (n : Node) (line : Nat) (ws : List Word) :
    (n.onLine line).readWords ws = (n.readWords ws).map (·.onLine line) := by
  induction ws using words_induction generalizing n with
  | nil => rfl
  | argument w rest hoption ih =>
      rw [readWords_argument _ _ hoption, readWords_argument _ _ hoption]
      exact ih { n with args := n.args ++ [w.text] }
  | inline w rest name value hoption ih =>
      rw [readWords_inline _ _ hoption, readWords_inline _ _ hoption]
      exact ih { n with options := n.options.insert (String.ofList name) (String.ofList value) }
  | valued w v rest name hoption hv ih =>
      rw [readWords_key_value _ _ hoption hv, readWords_key_value _ _ hoption hv]
      exact ih { n with options := n.options.insert (String.ofList name) v.text }
  | alone w rest name hoption halone _ =>
      rw [readWords_key_alone _ _ hoption halone, readWords_key_alone _ _ hoption halone]
      rfl

/-! ## Reading tokens -/

/-- Anything but a value finds the fault of a key that is waiting for one. -/
theorem read_waiting {r : Reading} {key t : Token} (hopen : r.finished = false)
    (hpending : r.pending = some key) (hrole : t.role ≠ .optionValue) :
    r.read t = .error ((Fault.missingValue key.value).at key.line) := by
  have hsettled : r.settled = .error ((Fault.missingValue key.value).at key.line) := by
    rw [Reading.settled, hpending]
  rw [Reading.read, hopen, hsettled]
  cases h : t.role with
  | optionValue => exact (hrole h).elim
  | _ => rfl

/-- A word may not be a value exactly when it says something as an option. -/
theorem mayBeValue_eq_false_iff {v : Word} :
    v.mayBeValue = false ↔ ∃ o, v.option? = some o := by
  unfold Word.mayBeValue Word.option? isOptionWord
  cases v.quoted <;> simp [Option.isSome_iff_exists]

/-- A word that may not be a value gives a key. -/
theorem itemTokens_not_value {v : Word} (hv : v.mayBeValue = false) (line : Nat)
    (after : List Word) :
    ∃ t tokens, itemTokens line (v :: after) = t :: tokens ∧ t.role ≠ .optionValue := by
  obtain ⟨⟨name, value⟩, hoption⟩ := mayBeValue_eq_false_iff.1 hv
  cases value with
  | some value => exact ⟨_, _, itemTokens_inline hoption line after, by simp⟩
  | none =>
      rw [itemTokens.eq_def]
      simp only [hoption]
      exact ⟨_, _, rfl, by simp⟩

/-- Reading the tokens of words makes of a node what the words do; a key that lacks its value is noticed at the next
token, which is no value. -/
theorem read_words (ws : List Word) (done : List Node) {n : Node} {t : Token} (more : List Token)
    (ht : t.role ≠ .optionValue) :
    (itemTokens n.line ws ++ t :: more).foldlM Reading.read ⟨done, some n, none, false⟩ =
      match n.readWords ws with
      | .error fault => .error (fault.at n.line)
      | .ok m => (t :: more).foldlM Reading.read ⟨done, some m, none, false⟩ := by
  induction ws using words_induction generalizing n with
  | nil => rfl
  | argument w rest hoption ih =>
      let i : Item := .argument ⟨.argument, w.text, n.line, w.column⟩
      have hread := read_item done (n := n) (i := i) (.argument rfl rfl)
      have htokens : itemTokens n.line (w :: rest) = i.tokens ++ itemTokens n.line rest :=
        itemTokens_argument hoption _ _
      rw [htokens, readWords_argument _ _ hoption, List.append_assoc, List.foldlM_append, hread]
      exact ih (n := n.add i)
  | inline w rest name value hoption ih =>
      let i : Item := .option ⟨.optionKey, String.ofList name, n.line, w.column⟩
        ⟨.optionValue, String.ofList value, n.line, w.column + 3 + name.length⟩
      have hread := read_item done (n := n) (i := i) (.option rfl rfl rfl rfl)
      have htokens : itemTokens n.line (w :: rest) = i.tokens ++ itemTokens n.line rest :=
        itemTokens_inline hoption _ _
      rw [htokens, readWords_inline _ _ hoption, List.append_assoc, List.foldlM_append, hread]
      exact ih (n := n.add i)
  | valued w v rest name hoption hv ih =>
      let i : Item := .option ⟨.optionKey, String.ofList name, n.line, w.column⟩
        ⟨.optionValue, v.text, n.line, v.column⟩
      have hread := read_item done (n := n) (i := i) (.option rfl rfl rfl rfl)
      have htokens : itemTokens n.line (w :: v :: rest) = i.tokens ++ itemTokens n.line rest :=
        itemTokens_key_value hoption hv _ _
      rw [htokens, readWords_key_value _ _ hoption hv, List.append_assoc, List.foldlM_append, hread]
      exact ih (n := n.add i)
  | alone w rest name hoption halone _ =>
      let key : Token := ⟨.optionKey, String.ofList name, n.line, w.column⟩
      have hkey := Reading.read_eq_ok_iff.2
        (.key (t := key) (r := ⟨done, some n, none, false⟩) rfl rfl rfl rfl rfl)
      -- The token after the key is one of this line or the first one behind it, and no value.
      obtain ⟨u, tokens, hnext, hu⟩ : ∃ u tokens,
          itemTokens n.line rest ++ t :: more = u :: tokens ∧ u.role ≠ .optionValue := by
        cases rest with
        | nil => exact ⟨t, more, rfl, ht⟩
        | cons v after =>
            obtain ⟨u, tokens, htokens, hu⟩ :=
              itemTokens_not_value (halone v (by simp)) n.line after
            exact ⟨u, tokens ++ t :: more, by rw [htokens, List.cons_append], hu⟩
      rw [itemTokens_key_alone hoption _ halone, readWords_key_alone _ _ hoption halone,
        List.cons_append, List.foldlM_cons, hkey, hnext]
      refine bind_eq_error.2 (Or.inr ⟨_, rfl, ?_⟩)
      rw [List.foldlM_cons, read_waiting rfl rfl hu]
      rfl

/-- Reading the tokens of a line adds what the line says to what was read before; its faults are noticed at the next
token at the latest. -/
theorem read_line (line : Nat) (l : String) {r : Reading} {t : Token} (more : List Token)
    (hpending : r.pending = none) (hopen : r.finished = false) (ht : t.role ≠ .optionValue) :
    (lineTokens line l.toList ++ t :: more).foldlM Reading.read r =
      match lineNode l with
      | .error fault => .error (fault.at line)
      | .ok none => (t :: more).foldlM Reading.read r
      | .ok (some n) =>
        (t :: more).foldlM Reading.read ⟨r.nodes, some (n.onLine line), none, false⟩ := by
  unfold lineTokens lineNode
  cases words l.toList with
  | nil => rfl
  | cons first rest =>
      dsimp only
      let command : Token := ⟨.command, first.text, line, first.column⟩
      have hsettled : r.settled = .ok () := Reading.settled_eq_ok_iff.2 hpending
      have hread : r.read command = r.openNode command := by
        rw [Reading.read, hopen, hsettled]
        rfl
      rw [List.cons_append, List.foldlM_cons, hread, Reading.openNode]
      split
      · rfl
      · split
        · rfl
        · -- The node is opened on its line, where the words make the same of it.
          have hwords := read_words rest r.nodes
            (n := Node.onLine { command := first.text } line) more ht
          rw [readWords_onLine] at hwords
          rw [hpending, hopen]
          refine hwords.trans ?_
          cases Node.readWords { command := first.text } rest <;> rfl

/-- The tokens of lines begin with one that is no value. -/
theorem tokensFrom_begins (line : Nat) (ls : List (List Char)) :
    ∃ t more, tokensFrom line ls = t :: more ∧ t.role ≠ .optionValue := by
  induction ls generalizing line with
  | nil => exact ⟨_, _, rfl, by simp⟩
  | cons text ls ih =>
      rw [tokensFrom]
      unfold lineTokens
      cases words text with
      | nil => exact ih (line + 1)
      | cons first rest => exact ⟨_, _, rfl, by simp⟩

/-! ## Reading lines -/

/-- The nodes of lines of which the first has the given number, or the first fault. -/
def nodesFrom (line : Nat) : List String → Except Error (List Node)
  | [] => .ok []
  | l :: rest =>
    match lineNode l with
    | .error fault => .error (fault.at line)
    | .ok n => (nodesFrom (line + 1) rest).map ((n.map (·.onLine line)).toList ++ ·)

/-- Reading the tokens of lines gives the nodes of the lines. -/
theorem read_lines (line : Nat) (ls : List String) {r : Reading} (hpending : r.pending = none)
    (hopen : r.finished = false) :
    match nodesFrom line ls with
    | .error e => (tokensFrom line (ls.map String.toList)).foldlM Reading.read r = .error e
    | .ok nodes => ∃ r',
        (tokensFrom line (ls.map String.toList)).foldlM Reading.read r = .ok r' ∧
          r'.finished = true ∧ r'.nodes = nodes.reverse ++ r.nodes := by
  induction ls generalizing line r with
  | nil =>
      refine ⟨{ r with finished := true }, ?_, rfl, rfl⟩
      exact foldlM_cons_eq_ok.2 ⟨_, Reading.read_eq_ok_iff.2 (.finish rfl hopen hpending), rfl⟩
  | cons l ls ih =>
      obtain ⟨t, more, htokens, ht⟩ := tokensFrom_begins (line + 1) (ls.map String.toList)
      have hread := read_line line l more hpending hopen ht
      rw [← htokens] at hread
      rw [nodesFrom, List.map_cons, tokensFrom, hread]
      cases lineNode l with
      | error fault => rfl
      | ok found =>
          cases found with
          | none =>
              have hmore := ih (line + 1) hpending hopen
              cases hnodes : nodesFrom (line + 1) ls with
              | error e => simpa [hnodes, Except.map] using hmore
              | ok nodes => simpa [hnodes, Except.map] using hmore
          | some n =>
              have hmore := ih (line + 1)
                (r := ⟨r.nodes, some (n.onLine line), none, false⟩) rfl rfl
              cases hnodes : nodesFrom (line + 1) ls with
              | error e => simpa [hnodes, Except.map] using hmore
              | ok nodes => simpa [hnodes, Except.map, Reading.nodes] using hmore

/-- The lines of a script, each as a script of its own. -/
def scriptLines (source : String) : List String :=
  (lines source.toList).map String.ofList

/-- No line of a script holds an end of line. -/
theorem newline_not_mem_scriptLine {source l : String} (h : l ∈ scriptLines source) :
    '\n' ∉ l.toList := by
  obtain ⟨text, htext, rfl⟩ := List.mem_map.1 h
  rw [String.toList_ofList]
  exact not_mem_of_mem_lines htext

/-- A line without ends of lines is its only line, unless it is empty. -/
theorem scriptLines_of_line {l : String} (h : '\n' ∉ l.toList) :
    scriptLines l = if l = "" then [] else [l] := by
  unfold scriptLines
  split
  · next hempty =>
      rw [hempty]
      rfl
  · next hne =>
      have hletters : l.toList ≠ [] := by simpa using hne
      rw [lines_single h hletters, List.map_singleton, String.ofList_toList]

/-- A script is its lines, read one after another. -/
theorem parse_eq_nodesFrom (source : String) :
    Program.parse source = (nodesFrom 1 (scriptLines source)).map Program.mk := by
  have hread := read_lines 1 (scriptLines source) (r := Reading.start) rfl rfl
  have hlines : (scriptLines source).map String.toList = lines source.toList := by
    simp [scriptLines, Function.comp_def]
  rw [hlines] at hread
  rw [Program.parse, Program.ofTokens, tokenize]
  cases hnodes : nodesFrom 1 (scriptLines source) with
  | error e =>
      rw [hnodes] at hread
      exact bind_eq_error.2 (Or.inl hread)
  | ok nodes =>
      rw [hnodes] at hread
      obtain ⟨r, hfold, hfinished, hr⟩ := hread
      refine bind_eq_ok.2 ⟨r, hfold, ?_⟩
      rw [if_pos hfinished, hr]
      simp [Reading.nodes, Reading.start, pure, Except.pure]

/-- A single line says as a script what it says by its words. -/
theorem parse_line {l : String} (h : '\n' ∉ l.toList) :
    Program.parse l =
      match lineNode l with
      | .error fault => .error (fault.at 1)
      | .ok n => .ok ⟨(n.map (·.onLine 1)).toList⟩ := by
  rw [parse_eq_nodesFrom, scriptLines_of_line h]
  split
  · next hempty =>
      have hnode : lineNode l = .ok none := by simp [lineNode, words, hempty]
      rw [hnode]
      rfl
  · rw [nodesFrom]
    cases lineNode l with
    | error fault => rfl
    | ok n => simp [nodesFrom, Except.map]

/-- A single line is accepted as a script when it has no fault. -/
theorem parse_line_eq_ok_iff {l : String} (h : '\n' ∉ l.toList) {p : Program} :
    Program.parse l = .ok p ↔
      ∃ n, lineNode l = .ok n ∧ p = ⟨(n.map (·.onLine 1)).toList⟩ := by
  rw [parse_line h]
  cases lineNode l with
  | error fault => simp
  | ok n => simp [eq_comm]

/-- A single line is refused as a script when it has a fault. -/
theorem parse_line_eq_error_iff {l : String} (h : '\n' ∉ l.toList) {e : Error} :
    Program.parse l = .error e ↔ ∃ fault, lineNode l = .error fault ∧ e = fault.at 1 := by
  rw [parse_line h]
  cases lineNode l with
  | error fault => simp [eq_comm]
  | ok n => simp

/-! ## Lines one after another -/

section

variable {line : Nat} {ls : List String} {l : String} {fault : Fault}

/-- Lines without faults give their nodes, each with the number of its line. -/
theorem nodesFrom_of_map_eq {found : List (Option Node)} (h : ls.map lineNode = found.map .ok) :
    nodesFrom line ls =
      .ok (found.mapIdx fun i n => (n.map (·.onLine (line + i))).toList).flatten := by
  induction ls generalizing line found with
  | nil =>
      rw [List.map_eq_nil_iff.1 h.symm]
      rfl
  | cons l ls ih =>
      obtain ⟨n, found, rfl, hn, hfound⟩ := List.map_eq_cons_iff.1 h.symm
      have hshift : ∀ i, line + 1 + i = line + (i + 1) := by omega
      rw [nodesFrom, ← hn, ih hfound.symm]
      simp [Except.map, List.mapIdx_cons, hshift]

/-- The first line with a fault gives the fault, reported for its number. -/
theorem nodesFrom_of_fault {i : Nat} (hbefore : ∀ k ∈ ls.take i, ∃ n, lineNode k = .ok n)
    (hline : ls[i]? = some l) (hfault : lineNode l = .error fault) :
    nodesFrom line ls = .error (fault.at (line + i)) := by
  induction ls generalizing line i with
  | nil => cases hline
  | cons first ls ih =>
      rw [nodesFrom]
      cases i with
      | zero =>
          cases hline
          rw [hfault]
          rfl
      | succ i =>
          obtain ⟨n, hn⟩ := hbefore first (by simp)
          have hmore : nodesFrom (line + 1) ls = .error (fault.at (line + 1 + i)) :=
            ih (fun k hk => hbefore k (by simp [hk])) hline
          rw [hn, hmore]
          simp only [Except.map]
          congr 2
          omega

/-- Either no line has a fault, or there is a first one that has. -/
theorem found_or_fault (ls : List String) :
    (∃ found : List (Option Node), ls.map lineNode = found.map .ok) ∨
      ∃ i l fault, (∀ k ∈ ls.take i, ∃ n, lineNode k = .ok n) ∧ ls[i]? = some l ∧
        lineNode l = .error fault := by
  induction ls with
  | nil => exact Or.inl ⟨[], rfl⟩
  | cons first ls ih =>
      cases hfirst : lineNode first with
      | error fault => exact Or.inr ⟨0, first, fault, by simp, rfl, hfirst⟩
      | ok n =>
          rcases ih with ⟨found, hfound⟩ | ⟨i, l, fault, hbefore, hline, hfault⟩
          · exact Or.inl ⟨n :: found, by simp [hfirst, hfound]⟩
          · refine Or.inr ⟨i + 1, l, fault, ?_, hline, hfault⟩
            rw [List.take_succ_cons, List.forall_mem_cons]
            exact ⟨⟨n, hfirst⟩, hbefore⟩

end

/-! ## Lines with faults -/

/-- An unquoted word `--name` without a value: no word follows, or an unquoted word that is spelled like an option. -/
structure Dangling (w : Word) (after : List Word) : Prop where
  unquoted : w.quoted = false
  key : ∃ name, isOptionName name = true ∧ w.text.toList = '-' :: '-' :: name
  alone : ∀ v ∈ after.head?, v.quoted = false ∧ isOptionWord v.text = true

/-- The words of a line with a fault: the first one is empty or spelled like an option, quoted or not, or a later
one dangles. -/
def Broken : List Word → Prop
  | [] => False
  | first :: rest => first.text = "" ∨ isOptionWord first.text = true ∨
      ∃ w after, w :: after <:+ rest ∧ Dangling w after

/-- A word says a key and no value exactly when it is two hyphens and a name. -/
theorem optionWord_eq_key_iff {word name : List Char} :
    optionWord? word = some ⟨name, none⟩ ↔
      isOptionName name = true ∧ word = '-' :: '-' :: name := by
  constructor
  · intro h
    obtain ⟨hname, ⟨-, hword⟩ | ⟨value, hvalue, -⟩⟩ := optionWord_cases h
    · exact ⟨hname, hword⟩
    · cases hvalue
  · rintro ⟨hname, rfl⟩
    have hkey : optionWord? ("--" ++ String.ofList name).toList =
        some ⟨(String.ofList name).toList, none⟩ := optionWord_key (by simpa using hname)
    simpa [String.toList_append] using hkey

/-- A word dangles exactly when it is a key without a value of its own, and takes none. -/
theorem dangling_iff {w : Word} {after : List Word} :
    Dangling w after ↔ (∃ name, w.option? = some ⟨name, none⟩) ∧
      ∀ v ∈ after.head?, v.mayBeValue = false := by
  have hvalue : ∀ v : Word,
      v.mayBeValue = false ↔ v.quoted = false ∧ isOptionWord v.text = true := by
    intro v
    simp [Word.mayBeValue]
  have hkey : (∃ name, w.option? = some ⟨name, none⟩) ↔ w.quoted = false ∧
      ∃ name, isOptionName name = true ∧ w.text.toList = '-' :: '-' :: name := by
    unfold Word.option?
    cases w.quoted <;> simp [optionWord_eq_key_iff]
  simp only [hvalue, hkey]
  constructor
  · intro h
    exact ⟨⟨h.unquoted, h.key⟩, h.alone⟩
  · rintro ⟨⟨hunquoted, hname⟩, halone⟩
    exact ⟨hunquoted, hname, halone⟩

/-- One more word in front dangles itself, or some word behind it does. -/
theorem exists_dangling_cons {u : Word} {rest : List Word} :
    (∃ w after, w :: after <:+ u :: rest ∧ Dangling w after) ↔
      Dangling u rest ∨ ∃ w after, w :: after <:+ rest ∧ Dangling w after := by
  simp only [List.suffix_cons_iff, List.cons.injEq]
  constructor
  · rintro ⟨w, after, ⟨rfl, rfl⟩ | hsuffix, hdangling⟩
    · exact Or.inl hdangling
    · exact Or.inr ⟨w, after, hsuffix, hdangling⟩
  · rintro (hdangling | ⟨w, after, hsuffix, hdangling⟩)
    · exact ⟨u, rest, Or.inl ⟨rfl, rfl⟩, hdangling⟩
    · exact ⟨w, after, Or.inr hsuffix, hdangling⟩

/-- Words behind a command have a fault exactly when one of them dangles. -/
theorem readWords_eq_error_iff (n : Node) (ws : List Word) :
    (∃ fault, n.readWords ws = .error fault) ↔
      ∃ w after, w :: after <:+ ws ∧ Dangling w after := by
  induction ws using words_induction generalizing n with
  | nil => simp [Node.readWords]
  | argument w rest hoption ih =>
      have hw : ¬Dangling w rest := by simp [dangling_iff, hoption]
      rw [readWords_argument _ _ hoption, ih, exists_dangling_cons, or_iff_right hw]
  | inline w rest name value hoption ih =>
      have hw : ¬Dangling w rest := by simp [dangling_iff, hoption]
      rw [readWords_inline _ _ hoption, ih, exists_dangling_cons, or_iff_right hw]
  | valued w v rest name hoption hv ih =>
      have hw : ¬Dangling w (v :: rest) := by simp [dangling_iff, hv]
      have hvalue : ¬Dangling v rest := by
        intro h
        obtain ⟨name, hkey⟩ := (dangling_iff.1 h).1
        rw [mayBeValue_eq_false_iff.2 ⟨_, hkey⟩] at hv
        cases hv
      rw [readWords_key_value _ _ hoption hv, ih, exists_dangling_cons, or_iff_right hw,
        exists_dangling_cons, or_iff_right hvalue]
  | alone w rest name hoption halone _ =>
      have hw : Dangling w rest := dangling_iff.2 ⟨⟨name, hoption⟩, halone⟩
      rw [readWords_key_alone _ _ hoption halone, exists_dangling_cons]
      simp [hw]

/-- A line has a fault exactly when its words are broken. -/
theorem lineNode_eq_error_iff {l : String} :
    (∃ fault, lineNode l = .error fault) ↔ Broken (words l.toList) := by
  unfold lineNode
  cases words l.toList with
  | nil => simp [Broken]
  | cons first rest =>
      simp only [Broken]
      split
      · next hempty => simp [hempty]
      · next hempty =>
          split
          · next hoption => simp [hoption]
          · next hoption =>
              have hwords := readWords_eq_error_iff { command := first.text } rest
              rw [or_iff_right hempty, or_iff_right hoption, ← hwords]
              cases Node.readWords { command := first.text } rest <;> simp [Except.map]

/-! ## Which faults scripts have -/

/-- The faults that a line can have: no value behind a key, an empty command, or an option as the command. -/
inductive Fault.OfLine : Fault → Prop where
  | missingValue (key : String) : OfLine (.missingValue key)
  | emptyCommand : OfLine .emptyCommand
  | optionAsCommand (word : String) : OfLine (.optionAsCommand word)

/-- Words behind a command lack a value if anything. -/
theorem ofLine_of_readWords {n : Node} {ws : List Word} {fault : Fault}
    (h : n.readWords ws = .error fault) : fault.OfLine := by
  induction ws using words_induction generalizing n with
  | nil => cases h
  | argument w rest hoption ih =>
      rw [readWords_argument _ _ hoption] at h
      exact ih h
  | inline w rest name value hoption ih =>
      rw [readWords_inline _ _ hoption] at h
      exact ih h
  | valued w v rest name hoption hv ih =>
      rw [readWords_key_value _ _ hoption hv] at h
      exact ih h
  | alone w rest name hoption halone _ =>
      rw [readWords_key_alone _ _ hoption halone] at h
      cases h
      exact .missingValue _

/-- A line has one of these faults. -/
theorem ofLine_of_lineNode {l : String} {fault : Fault} (h : lineNode l = .error fault) :
    fault.OfLine := by
  unfold lineNode at h
  split at h
  · cases h
  · next first rest _ =>
      split at h
      · cases h
        exact .emptyCommand
      · split at h
        · cases h
          exact .optionAsCommand _
        · cases hwords : Node.readWords { command := first.text } rest with
          | error fault' =>
              rw [hwords] at h
              cases h
              exact ofLine_of_readWords hwords
          | ok n =>
              rw [hwords] at h
              cases h

/-- How the message of a fault begins. -/
def Fault.opening : Fault → List Char
  | .afterFinish _ => ['u']
  | .missingValue _ => ['o', 'p', 't', 'i', 'o', 'n', ' ', '\'']
  | .emptyCommand => ['e']
  | .optionAsCommand _ => ['l']
  | .strayValue _ => ['o', 'p', 't', 'i', 'o', 'n', ' ', 'v']
  | .noCommand _ => ['\'']
  | .unfinished => ['t']

/-- What a text begins with, the text begins with when more follows. -/
theorem prefix_toList_append {letters : List Char} {s : String} (h : letters <+: s.toList)
    (more : String) : letters <+: (s ++ more).toList := by
  rw [String.toList_append]
  exact h.trans (List.prefix_append _ _)

theorem Fault.opening_prefix (f : Fault) : f.opening <+: f.message.toList := by
  cases f with
  | afterFinish t => exact prefix_toList_append ⟨_, rfl⟩ t.describe
  | missingValue key => exact prefix_toList_append (prefix_toList_append ⟨_, rfl⟩ key) _
  | emptyCommand => exact ⟨_, rfl⟩
  | optionAsCommand word => exact prefix_toList_append (prefix_toList_append ⟨_, rfl⟩ word) _
  | strayValue value => exact prefix_toList_append (prefix_toList_append ⟨_, rfl⟩ value) _
  | noCommand value => exact prefix_toList_append (prefix_toList_append ⟨_, rfl⟩ value) _
  | unfinished => exact ⟨_, rfl⟩

/-- The message of a fault that a line can have is the message of no other fault. -/
theorem ofLine_of_message_eq {f g : Fault} (hf : f.OfLine) (h : f.message = g.message) :
    g.OfLine := by
  have hopening := List.prefix_or_prefix_of_prefix f.opening_prefix (h ▸ g.opening_prefix)
  cases hf <;> cases g <;> first | constructor | simp [Fault.opening] at hopening

/-! ## Scripts line by line -/

section

variable {source l : String}

/-- A line of a script is accepted as a script when it has no fault. -/
theorem accepts_line_iff (h : l ∈ scriptLines source) :
    (∃ p, Program.parse l = .ok p) ↔ ∃ n, lineNode l = .ok n := by
  simp [parse_line_eq_ok_iff (newline_not_mem_scriptLine h)]

/-- A script is accepted exactly when each of its lines is. -/
theorem accepts_iff_accepts_lines (source : String) :
    (∃ p, Program.parse source = .ok p) ↔
      ∀ l ∈ scriptLines source, ∃ p, Program.parse l = .ok p := by
  rw [parse_eq_nodesFrom]
  rcases found_or_fault (scriptLines source) with
    ⟨found, hfound⟩ | ⟨i, l, fault, hbefore, hline, hfault⟩
  · rw [nodesFrom_of_map_eq hfound]
    refine iff_of_true ⟨_, rfl⟩ ?_
    intro l hl
    have hmem : lineNode l ∈ found.map .ok := hfound ▸ List.mem_map_of_mem hl
    obtain ⟨n, _, hn⟩ := List.mem_map.1 hmem
    exact (accepts_line_iff hl).2 ⟨n, hn.symm⟩
  · rw [nodesFrom_of_fault hbefore hline hfault]
    refine iff_of_false ?_ ?_
    · rintro ⟨p, hp⟩
      cases hp
    · intro hall
      have hl : l ∈ scriptLines source := List.mem_of_getElem? hline
      obtain ⟨n, hn⟩ := (accepts_line_iff hl).1 (hall l hl)
      rw [hfault] at hn
      cases hn

/-- Lines that are accepted each hold at most one node, which is their program. -/
theorem found_of_map_parse {ls : List String} (hls : ∀ l ∈ ls, '\n' ∉ l.toList)
    {programs : List Program} (h : ls.map Program.parse = programs.map .ok) :
    ∃ found : List (Option Node), ls.map lineNode = found.map .ok ∧
      programs = found.map fun n => ⟨(n.map (·.onLine 1)).toList⟩ := by
  induction ls generalizing programs with
  | nil => exact ⟨[], rfl, List.map_eq_nil_iff.1 h.symm⟩
  | cons l ls ih =>
      obtain ⟨p, programs, rfl, hp, hmore⟩ := List.map_eq_cons_iff.1 h.symm
      rw [List.forall_mem_cons] at hls
      obtain ⟨n, hn, rfl⟩ := (parse_line_eq_ok_iff hls.1).1 hp.symm
      obtain ⟨found, hfound, rfl⟩ := ih hls.2 hmore.symm
      exact ⟨n :: found, by simp [hn, hfound], rfl⟩

/-- An accepted script has the nodes of its lines, each on its line. -/
theorem parse_of_map_parse {programs : List Program}
    (h : (scriptLines source).map Program.parse = programs.map .ok) :
    (∀ p ∈ programs, p.nodes.length ≤ 1) ∧
      Program.parse source =
        .ok ⟨(programs.mapIdx fun i p => p.nodes.map (·.onLine (i + 1))).flatten⟩ := by
  obtain ⟨found, hfound, rfl⟩ := found_of_map_parse (fun _ => newline_not_mem_scriptLine) h
  constructor
  · intro p hp
    obtain ⟨n, _, rfl⟩ := List.mem_map.1 hp
    cases n <;> simp
  · have hnodes : ∀ (n : Option Node) (line other : Nat),
        ((n.map (·.onLine line)).toList).map (·.onLine other) = (n.map (·.onLine other)).toList := by
      intro n line other
      cases n <;> rfl
    rw [parse_eq_nodesFrom, nodesFrom_of_map_eq hfound]
    simp only [Except.map, Except.ok.injEq, Program.mk.injEq]
    refine congrArg List.flatten (List.ext_getElem? fun i => ?_)
    simp only [List.getElem?_mapIdx, List.getElem?_map, Option.map_map, Function.comp_def, hnodes,
      Nat.add_comm 1 i]

/-- The first line that is refused is the error of the script, reported for its number. -/
theorem parse_of_refused_line {i : Nat} {e : Error}
    (hbefore : ∀ k ∈ (scriptLines source).take i, ∃ p, Program.parse k = .ok p)
    (hline : (scriptLines source)[i]? = some l) (hrefused : Program.parse l = .error e) :
    ∃ message, e = .grammar 1 message ∧
      Program.parse source = .error (.grammar (i + 1) message) := by
  have hl : l ∈ scriptLines source := List.mem_of_getElem? hline
  obtain ⟨fault, hfault, rfl⟩ :=
    (parse_line_eq_error_iff (newline_not_mem_scriptLine hl)).1 hrefused
  have hfound : ∀ k ∈ (scriptLines source).take i, ∃ n, lineNode k = .ok n := by
    intro k hk
    exact (accepts_line_iff (List.mem_of_mem_take hk)).1 (hbefore k hk)
  refine ⟨fault.message, rfl, ?_⟩
  rw [parse_eq_nodesFrom, nodesFrom_of_fault hfound hline hfault, Nat.add_comm 1 i]
  rfl

/-- What is reported for a script is a fault that a line can have. -/
theorem ofLine_of_parse {e : Error} (h : Program.parse source = .error e) :
    ∃ fault line, fault.OfLine ∧ e = Fault.at fault line := by
  rw [parse_eq_nodesFrom] at h
  rcases found_or_fault (scriptLines source) with
    ⟨found, hfound⟩ | ⟨i, l, fault, hbefore, hline, hfault⟩
  · rw [nodesFrom_of_map_eq hfound] at h
    cases h
  · rw [nodesFrom_of_fault hbefore hline hfault] at h
    cases h
    exact ⟨fault, _, ofLine_of_lineNode hfault, rfl⟩

end

/-- A script is read as each of its lines is on its own.  It is accepted when all of them are, and has their nodes,
each on its line; the first line that is refused is the error of the script, reported for its number.  A single line
is refused when its words are broken, and no other fault than these is ever reported for a script. -/
theorem parse_line_by_line :
    (∀ source, (∃ p, Program.parse source = .ok p) ↔
        ∀ l ∈ scriptLines source, ∃ p, Program.parse l = .ok p) ∧
      (∀ source (programs : List Program),
        (scriptLines source).map Program.parse = programs.map .ok →
        (∀ p ∈ programs, p.nodes.length ≤ 1) ∧
          Program.parse source =
            .ok ⟨(programs.mapIdx fun i p => p.nodes.map (·.onLine (i + 1))).flatten⟩) ∧
      (∀ source i l e, (∀ k ∈ (scriptLines source).take i, ∃ p, Program.parse k = .ok p) →
        (scriptLines source)[i]? = some l → Program.parse l = .error e →
          ∃ message, e = .grammar 1 message ∧
            Program.parse source = .error (.grammar (i + 1) message)) ∧
      (∀ l : String, '\n' ∉ l.toList →
        ((∃ e, Program.parse l = .error e) ↔ Broken (words l.toList))) ∧
      ∀ source e, Program.parse source = .error e →
        (∃ fault line, fault.OfLine ∧ e = Fault.at fault line) ∧
          ∀ fault line, e = Fault.at fault line → fault.OfLine := by
  refine ⟨accepts_iff_accepts_lines, ?_, ?_, ?_, ?_⟩
  · intro source programs h
    exact parse_of_map_parse h
  · intro source i l e hbefore hline hrefused
    exact parse_of_refused_line hbefore hline hrefused
  · intro l hl
    rw [← lineNode_eq_error_iff]
    simp [parse_line_eq_error_iff hl]
  · intro source e he
    obtain ⟨fault, line, hfault, rfl⟩ := ofLine_of_parse he
    refine ⟨⟨fault, line, hfault, rfl⟩, ?_⟩
    intro other otherLine hother
    exact ofLine_of_message_eq hfault (Error.grammar.inj hother).2

/-- Of two scripts the first is accepted, with its nodes on their lines; of the second one, the key at the end of the
second line lacks a value, whatever the third line says. -/
theorem parse_line_by_line_of_key_alone :
    Program.parse "load a.csv\n\nsplit 80/20 --target y" =
        .ok ⟨[{ command := "load", args := ["a.csv"], line := 1 },
          { command := "split", args := ["80/20"], options := Options.ofList [("target", "y")],
            line := 3 }]⟩ ∧
      Program.parse "load a.csv\nsplit 80/20 --target\n--stray" =
        .error (.grammar 2 "option '--target' expects a value") ∧
      Broken (words "split 80/20 --target".toList) ∧
      (Fault.missingValue "target").OfLine := by
  obtain ⟨-, haccepted, hrefused, hbroken, hfaults⟩ := parse_line_by_line
  have hfirst := (haccepted "load a.csv\n\nsplit 80/20 --target y"
    [⟨[{ command := "load", args := ["a.csv"], line := 1 }]⟩, ⟨[]⟩,
      ⟨[{ command := "split", args := ["80/20"], options := Options.ofList [("target", "y")],
          line := 1 }]⟩] (by decide +kernel)).2
  have hline : Program.parse "split 80/20 --target" =
      .error (.grammar 1 "option '--target' expects a value") := by decide +kernel
  have hbefore : ∀ k ∈ (scriptLines "load a.csv\nsplit 80/20 --target\n--stray").take 1,
      ∃ p, Program.parse k = .ok p := by
    have hlines : (scriptLines "load a.csv\nsplit 80/20 --target\n--stray").take 1 =
        ["load a.csv"] := by decide +kernel
    rw [hlines, List.forall_mem_singleton]
    exact ⟨⟨[{ command := "load", args := ["a.csv"], line := 1 }]⟩, by decide +kernel⟩
  obtain ⟨message, hmessage, hsecond⟩ :=
    hrefused "load a.csv\nsplit 80/20 --target\n--stray" 1 "split 80/20 --target" _
      hbefore (by decide +kernel) hline
  cases hmessage
  refine ⟨hfirst, hsecond, (hbroken _ (by decide +kernel)).1 ⟨_, hline⟩, ?_⟩
  exact (hfaults _ _ hsecond).2 (.missingValue "target") 2 rfl

end Script
end TableFlow
