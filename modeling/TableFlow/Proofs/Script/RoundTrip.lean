import Mathlib.Data.List.Basic
import Mathlib.Data.List.TakeWhile
import TableFlow.Proofs.Script.Lines
import TableFlow.Proofs.Script.Spelling
import TableFlow.Proofs.Script.WellFormed

/-!
# Printed programs read back

A printed program is read in three layers, and each layer gives back what the printer put in: the lines are the
printed nodes, the words of a line are the words of its node, and the tokens of these words open the node and
hand it its arguments and options one after another.

Main results:

- Theorem `lines_render`: the lines of a printed program are its printed nodes.
- Theorem `content_words_render`: the words of a printed node are the words of the node.
- Theorem `read_node`: reading the tokens of a printed node gives the node.
- Theorem `parse_render`: a printed program reads back as itself exactly when it is well formed.
-/

namespace TableFlow
namespace Script

open Text (isBlank lines Closed lines_joined)

/-- The same nodes, on consecutive lines from the first one on. -/
def Program.renumbered (p : Program) : Program :=
  ⟨p.nodes.mapIdx fun i n => { n with line := i + 1 }⟩

/-! ## Keys are spelled plainly -/

/-- Characters of option names lie between the hyphen and the small letter z. -/
theorem toNat_of_isNameChar {c : Char} (h : isNameChar c = true) :
    45 ≤ c.toNat ∧ c.toNat ≤ 122 ∧ c ≠ '"' ∧ c ≠ '\'' := by
  have hrange : 45 ≤ c.toNat ∧ c.toNat ≤ 122 := by
    simp only [isNameChar, isNameStart, Bool.or_eq_true, Bool.and_eq_true, decide_eq_true_eq,
      beq_iff_eq] at h
    rcases h with (((⟨hlow, hhigh⟩ | ⟨hlow, hhigh⟩) | rfl) | ⟨hlow, hhigh⟩) | rfl
    · have hlow : 65 ≤ c.toNat := hlow
      have hhigh : c.toNat ≤ 90 := hhigh
      omega
    · have hlow : 97 ≤ c.toNat := hlow
      have hhigh : c.toNat ≤ 122 := hhigh
      omega
    · decide
    · have hlow : 48 ≤ c.toNat := hlow
      have hhigh : c.toNat ≤ 57 := hhigh
      omega
    · decide
  refine ⟨hrange.1, hrange.2, ?_, ?_⟩
  · rintro rfl
    exact absurd hrange.1 (by decide)
  · rintro rfl
    exact absurd hrange.1 (by decide)

/-- Characters of option names are plain. -/
theorem isPlain_of_isNameChar {c : Char} (h : isNameChar c = true) : isPlain c = true := by
  obtain ⟨hlow, hhigh, hdouble, hsingle⟩ := toNat_of_isNameChar h
  have hblank : isBlank c = false := by
    simp only [isBlank, Bool.or_eq_false_iff, Bool.and_eq_false_imp, decide_eq_true_eq,
      decide_eq_false_iff_not, beq_eq_false_iff_ne]
    omega
  simp [isPlain, hblank, isQuote, hdouble, hsingle]

/-- The characters of a printed key are those of an option name. -/
theorem isNameChar_of_mem_key {key : String} (h : isOptionName key.toList = true) :
    ∀ c ∈ ("--" ++ key).toList, isNameChar c = true := by
  intro c hc
  rw [String.toList_append, List.mem_append] at hc
  rcases hc with hc | hc
  · have hhyphen : c = '-' := by simpa using hc
    rw [hhyphen]
    decide
  · exact isNameChar_of_isOptionName h c hc

/-- A key is spelled plainly. -/
theorem spells_key {key : String} (h : isOptionName key.toList = true) :
    Spells ("--" ++ key).toList ("--" ++ key).toList false :=
  spells_plain fun c hc => isPlain_of_isNameChar (isNameChar_of_mem_key h c hc)

/-- A key may begin a word. -/
theorem opens_key (key : String) : Opens ("--" ++ key).toList := by
  have hletters : ("--" ++ key).toList = '-' :: '-' :: key.toList := by
    rw [String.toList_append]
    rfl
  rw [hletters]
  refine ⟨by simp, ?_, ?_⟩
  · intro c hc
    simp only [List.head?_cons, Option.mem_some_iff] at hc
    rw [← hc]
    decide
  · intro tail _
    rfl

/-- A printed key is within its line, and ends in a character of its name. -/
theorem closed_key {key : String} (h : isOptionName key.toList = true) :
    Closed ("--" ++ key).toList := by
  refine ⟨?_, ?_⟩
  · intro hmem
    exact absurd (isNameChar_of_mem_key h _ hmem) (by decide)
  · intro hlast
    exact absurd (isNameChar_of_mem_key h _ (List.mem_of_getLast? hlast)) (by decide)

/-- A printed key is read as a key without a value of its own. -/
theorem optionWord_key {key : String} (h : isOptionName key.toList = true) :
    optionWord? ("--" ++ key).toList = some ⟨key.toList, none⟩ := by
  have hletters : ("--" ++ key).toList = '-' :: '-' :: key.toList := by
    rw [String.toList_append]
    rfl
  have htake : key.toList.takeWhile isNameChar = key.toList :=
    List.takeWhile_eq_self_iff.2 (isNameChar_of_isOptionName h)
  have hdrop : key.toList.dropWhile isNameChar = [] :=
    List.dropWhile_eq_nil_iff.2 (isNameChar_of_isOptionName h)
  rw [hletters, optionWord?]
  simp only [htake, hdrop, h, Bool.not_true, Bool.false_eq_true, if_false]

/-! ## The words of a printed node -/

/-- How a word is spelled, what it says, and whether it counts as quoted. -/
def spelledWord (word : String) : List Char × String × Bool :=
  ((quoteWord word).toList, word, needsQuotes word)

/-- How a key is spelled, and what it says. -/
def spelledKey (key : String) : List Char × String × Bool :=
  (("--" ++ key).toList, "--" ++ key, false)

/-- The words of a printed node in order. -/
def Node.spelled (n : Node) : List (List Char × String × Bool) :=
  spelledWord n.command :: n.args.map spelledWord ++
    n.options.pairs.flatMap fun (key, value) => [spelledKey key, spelledWord value]

/-- A printed node is its spelled words, joined by spaces. -/
theorem toList_render (n : Node) :
    n.render.toList = [' '].intercalate (n.spelled.map Prod.fst) := by
  have hwords : n.spelling.map String.toList = n.spelled.map Prod.fst := by
    simp only [Node.spelling, Node.spelled, List.map_append, List.map_cons, List.map_map,
      List.map_flatMap]
    rfl
  rw [Node.render, String.toList_intercalate, hwords]
  rfl

/-- A word of a printed node is a word of the node or one of its keys. -/
theorem mem_spelled {n : Node} {x : List Char × String × Bool} (h : x ∈ n.spelled) :
    (∃ word, x = spelledWord word ∧
        (word = n.command ∨ word ∈ n.args ∨ word ∈ n.options.pairs.map Prod.snd)) ∨
      ∃ key ∈ n.options.pairs.map Prod.fst, x = spelledKey key := by
  simp only [Node.spelled, List.cons_append, List.mem_cons, List.mem_append, List.mem_map,
    List.mem_flatMap, List.not_mem_nil, or_false] at h
  rcases h with rfl | ⟨a, ha, rfl⟩ | ⟨pair, hpair, rfl | rfl⟩
  · exact Or.inl ⟨_, rfl, Or.inl rfl⟩
  · exact Or.inl ⟨a, rfl, Or.inr (Or.inl ha)⟩
  · exact Or.inr ⟨pair.1, List.mem_map_of_mem hpair, rfl⟩
  · exact Or.inl ⟨pair.2, rfl, Or.inr (Or.inr (List.mem_map_of_mem hpair))⟩

/-- The words of a well-formed node are spelled so that they read back. -/
theorem spells_of_mem_spelled {n : Node} (h : n.WellFormed) :
    ∀ x ∈ n.spelled, Spells x.1 x.2.1.toList x.2.2 ∧ Opens x.1 := by
  intro x hx
  rcases mem_spelled hx with ⟨word, rfl, _⟩ | ⟨key, hkey, rfl⟩
  · exact ⟨spells_quoteWord word, opens_quoteWord word⟩
  · exact ⟨spells_key (h.keys_name key hkey), opens_key key⟩

/-- The words of a well-formed node are spelled within one line. -/
theorem closed_of_mem_spelled {n : Node} (h : n.WellFormed) :
    ∀ x ∈ n.spelled, Closed x.1 ∧ x.1 ≠ [] := by
  intro x hx
  have hne : x.1 ≠ [] := (spells_of_mem_spelled h x hx).2.ne_nil
  refine ⟨?_, hne⟩
  rcases mem_spelled hx with ⟨word, rfl, hword⟩ | ⟨key, hkey, rfl⟩
  · refine closed_quoteWord ?_
    rcases hword with rfl | hword | hword
    · exact h.command_line
    · exact h.args_line word hword
    · exact h.values_line word hword
  · exact closed_key (h.keys_name key hkey)

/-- The words of a printed node are the words of the node. -/
theorem content_words_render {n : Node} (h : n.WellFormed) :
    (words n.render.toList).map Word.content = n.spelled.map Prod.snd := by
  rw [toList_render]
  exact content_words_joined (spells_of_mem_spelled h) 1

/-! ## The lines of a printed program -/

/-- Closed texts that are joined by spaces are closed. -/
theorem closed_joined {parts : List (List Char)} (hne : parts ≠ [])
    (h : ∀ s ∈ parts, Closed s ∧ s ≠ []) :
    Closed ([' '].intercalate parts) ∧ [' '].intercalate parts ≠ [] := by
  induction parts with
  | nil => exact (hne rfl).elim
  | cons s parts ih =>
      obtain ⟨hclosed, hs⟩ := h s (by simp)
      cases parts with
      | nil =>
          rw [List.intercalate_singleton]
          exact ⟨hclosed, hs⟩
      | cons next more =>
          obtain ⟨hmore, hmorene⟩ := ih (by simp) fun t ht => h t (List.mem_cons_of_mem _ ht)
          rw [List.intercalate_cons_cons]
          refine ⟨⟨?_, ?_⟩, by simp⟩
          · simp only [List.mem_append, List.mem_singleton]
            rintro ((hmem | hmem) | hmem)
            · exact hclosed.no_newline hmem
            · exact absurd hmem (by decide)
            · exact hmore.no_newline hmem
          · rw [List.getLast?_append_of_ne_nil _ hmorene]
            exact hmore.no_return

/-- The lines of a printed program are its printed nodes. -/
theorem lines_render {p : Program} (h : p.WellFormed) :
    lines p.render.toList = p.nodes.map fun n => n.render.toList := by
  have hprinted : p.render.toList = ['\n'].intercalate (p.nodes.map fun n => n.render.toList) := by
    rw [Program.render, String.toList_intercalate, List.map_map]
    rfl
  rw [hprinted]
  refine lines_joined ?_
  intro line hline
  obtain ⟨n, hn, rfl⟩ := List.mem_map.1 hline
  simp only [toList_render]
  refine closed_joined (by simp [Node.spelled]) ?_
  intro s hs
  obtain ⟨x, hx, rfl⟩ := List.mem_map.1 hs
  exact closed_of_mem_spelled (h n hn) x hx

/-! ## The tokens of a printed node -/

/-- What a token says, in whatever column it stands. -/
def Token.said (t : Token) : Role × String × Nat :=
  (t.role, t.value, t.line)

/-- A printed word is no option, because a word that is spelled like one is quoted. -/
theorem option_of_content {w : Word} {word : String}
    (h : w.content = (word, needsQuotes word)) : w.option? = none := by
  obtain ⟨column, text, quoted⟩ := w
  simp only [Word.content, Prod.mk.injEq] at h
  obtain ⟨rfl, rfl⟩ := h
  unfold Word.option?
  cases hneeds : needsQuotes text with
  | true => rfl
  | false =>
      have hplain := (plain_of_needsQuotes_eq_false hneeds).2.2
      simpa [isOptionWord] using hplain

/-- A printed word may follow a key as its value. -/
theorem mayBeValue_of_content {w : Word} {word : String}
    (h : w.content = (word, needsQuotes word)) : w.mayBeValue = true := by
  obtain ⟨column, text, quoted⟩ := w
  simp only [Word.content, Prod.mk.injEq] at h
  obtain ⟨rfl, rfl⟩ := h
  unfold Word.mayBeValue
  cases hneeds : needsQuotes text with
  | true => rfl
  | false =>
      have hplain := (plain_of_needsQuotes_eq_false hneeds).2.2
      simp [hplain]

/-- A printed key is an option without a value of its own. -/
theorem option_of_key {w : Word} {key : String} (hkey : isOptionName key.toList = true)
    (h : w.content = ("--" ++ key, false)) : w.option? = some ⟨key.toList, none⟩ := by
  obtain ⟨column, text, quoted⟩ := w
  simp only [Word.content, Prod.mk.injEq] at h
  obtain ⟨rfl, rfl⟩ := h
  exact optionWord_key hkey

/-- The tokens of printed options are the keys, each followed by its value. -/
theorem said_options {pairs : List (String × String)}
    (hkeys : ∀ pair ∈ pairs, isOptionName pair.1.toList = true) {ws : List Word}
    (h : ws.map Word.content =
      pairs.flatMap fun (key, value) => [("--" ++ key, false), (value, needsQuotes value)])
    (line : Nat) :
    (itemTokens line ws).map Token.said =
      pairs.flatMap fun (key, value) =>
        [(.optionKey, key, line), (.optionValue, value, line)] := by
  induction pairs generalizing ws with
  | nil =>
      rw [List.flatMap_nil, List.map_eq_nil_iff] at h
      rw [h]
      rfl
  | cons pair pairs ih =>
      obtain ⟨key, value⟩ := pair
      rw [List.flatMap_cons, List.cons_append, List.cons_append, List.nil_append] at h
      obtain ⟨w, ws, rfl, hw, h⟩ := List.map_eq_cons_iff.1 h
      obtain ⟨v, ws, rfl, hv, h⟩ := List.map_eq_cons_iff.1 h
      have hname : isOptionName key.toList = true := hkeys (key, value) (by simp)
      have hvalue : v.text = value := congrArg Prod.fst hv
      have hmore := ih (fun p hp => hkeys p (by simp [hp])) h
      rw [itemTokens_key_value (option_of_key hname hw) (mayBeValue_of_content hv)]
      simp [hmore, Token.said, hvalue]

/-- The tokens of printed arguments and options are the arguments, followed by the options. -/
theorem said_items {args : List String} {pairs : List (String × String)}
    (hkeys : ∀ pair ∈ pairs, isOptionName pair.1.toList = true) {ws : List Word}
    (h : ws.map Word.content = args.map (fun a => (a, needsQuotes a)) ++
      pairs.flatMap fun (key, value) => [("--" ++ key, false), (value, needsQuotes value)])
    (line : Nat) :
    (itemTokens line ws).map Token.said =
      args.map (fun a => (.argument, a, line)) ++
        pairs.flatMap fun (key, value) =>
          [(.optionKey, key, line), (.optionValue, value, line)] := by
  induction args generalizing ws with
  | nil => exact said_options hkeys h line
  | cons a args ih =>
      rw [List.map_cons, List.cons_append] at h
      obtain ⟨w, ws, rfl, hw, h⟩ := List.map_eq_cons_iff.1 h
      have htext : w.text = a := congrArg Prod.fst hw
      rw [itemTokens_argument (option_of_content hw)]
      simp [ih h, Token.said, htext]

/-- What the tokens of a node on a line say: the command, the arguments and the options. -/
def Node.said (n : Node) (line : Nat) : List (Role × String × Nat) :=
  (.command, n.command, line) :: n.args.map (fun a => (.argument, a, line)) ++
    n.options.pairs.flatMap fun (key, value) =>
      [(.optionKey, key, line), (.optionValue, value, line)]

/-- The tokens of a printed node say what the node says. -/
theorem said_lineTokens {n : Node} (h : n.WellFormed) (line : Nat) :
    (lineTokens line n.render.toList).map Token.said = n.said line := by
  have hcontent := content_words_render h
  have hkeys : ∀ pair ∈ n.options.pairs, isOptionName pair.1.toList = true :=
    fun pair hpair => h.keys_name pair.1 (List.mem_map_of_mem hpair)
  have hspelled : n.spelled.map Prod.snd =
      (n.command, needsQuotes n.command) :: (n.args.map (fun a => (a, needsQuotes a)) ++
        n.options.pairs.flatMap fun (key, value) =>
          [("--" ++ key, false), (value, needsQuotes value)]) := by
    simp only [Node.spelled, List.map_append, List.map_cons, List.map_map, List.map_flatMap,
      List.cons_append]
    rfl
  rw [hspelled] at hcontent
  obtain ⟨first, rest, hwords, hfirst, hrest⟩ := List.map_eq_cons_iff.1 hcontent
  have htext : first.text = n.command := congrArg Prod.fst hfirst
  rw [lineTokens, hwords]
  simp [said_items hkeys hrest, Node.said, Token.said, htext]

/-! ## Reading the tokens of a printed program -/

/-- A key that is new is put at the end. -/
theorem assign_new {α : Type} {key : String} (value : α) {pairs : List (String × α)}
    (h : key ∉ pairs.map Prod.fst) : assign key value pairs = pairs ++ [(key, value)] := by
  induction pairs with
  | nil => rfl
  | cons pair pairs ih =>
      obtain ⟨k, v⟩ := pair
      rw [List.map_cons, List.mem_cons, not_or] at h
      have hk : k ≠ key := fun e => h.1 e.symm
      rw [assign, if_neg hk, ih h.2]
      rfl

/-- The node takes the arguments that stand on its line. -/
theorem read_args {args : List String} {done : List Node} {n : Node} {tokens : List Token}
    (h : tokens.map Token.said = args.map fun a => (.argument, a, n.line)) :
    tokens.foldlM Reading.read ⟨done, some n, none, false⟩ =
      .ok ⟨done, some { n with args := n.args ++ args }, none, false⟩ := by
  induction args generalizing n tokens with
  | nil =>
      rw [List.map_nil, List.map_eq_nil_iff] at h
      rw [h, List.append_nil]
      rfl
  | cons a args ih =>
      rw [List.map_cons] at h
      obtain ⟨t, tokens, rfl, ht, hargs⟩ := List.map_eq_cons_iff.1 h
      simp only [Token.said, Prod.mk.injEq] at ht
      obtain ⟨hrole, rfl, hline⟩ := ht
      refine foldlM_cons_eq_ok.2 ⟨_, Reading.read_eq_ok_iff.2 (.argument hrole rfl rfl rfl hline.symm), ?_⟩
      have hmore := ih (n := { n with args := n.args ++ [t.value] }) hargs
      simpa using hmore

/-- The node takes the options that stand on its line, in their order, if no key is given twice. -/
theorem read_options {pairs : List (String × String)} {done : List Node} {n : Node}
    {tokens : List Token} (h : tokens.map Token.said = pairs.flatMap fun (key, value) =>
      [(.optionKey, key, n.line), (.optionValue, value, n.line)])
    {options : Options} (hoptions : options.pairs = n.options.pairs ++ pairs) :
    tokens.foldlM Reading.read ⟨done, some n, none, false⟩ =
      .ok ⟨done, some { n with options := options }, none, false⟩ := by
  induction pairs generalizing n tokens with
  | nil =>
      rw [List.flatMap_nil, List.map_eq_nil_iff] at h
      rw [List.append_nil] at hoptions
      rw [h, Options.ext hoptions]
      rfl
  | cons pair pairs ih =>
      obtain ⟨key, value⟩ := pair
      rw [List.flatMap_cons, List.cons_append, List.cons_append, List.nil_append] at h
      obtain ⟨k, tokens, rfl, hk, h⟩ := List.map_eq_cons_iff.1 h
      obtain ⟨v, tokens, rfl, hv, hpairs⟩ := List.map_eq_cons_iff.1 h
      simp only [Token.said, Prod.mk.injEq] at hk hv
      obtain ⟨hkrole, rfl, hkline⟩ := hk
      obtain ⟨hvrole, rfl, hvline⟩ := hv
      have hnew : k.value ∉ n.options.pairs.map Prod.fst := by
        have hnodup := options.nodup
        rw [hoptions, List.map_append, List.map_cons] at hnodup
        intro hmem
        exact (List.nodup_append.1 hnodup).2.2 _ hmem _ (by simp) rfl
      refine foldlM_cons_eq_ok.2 ⟨_, Reading.read_eq_ok_iff.2 (.key hkrole rfl rfl rfl hkline.symm), ?_⟩
      refine foldlM_cons_eq_ok.2 ⟨_, Reading.read_eq_ok_iff.2 (.value hvrole rfl rfl rfl hvline.symm), ?_⟩
      refine ih (n := { n with options := n.options.insert k.value v.value }) hpairs ?_
      rw [hoptions, Options.pairs_insert, assign_new _ hnew, List.append_assoc]
      rfl

/-- The tokens of a node open the node and fill it. -/
theorem read_node {n : Node} (h : n.WellFormed) {line : Nat} {tokens : List Token}
    (htokens : tokens.map Token.said = n.said line) {r : Reading} (hpending : r.pending = none)
    (hopen : r.finished = false) :
    tokens.foldlM Reading.read r = .ok ⟨r.nodes, some { n with line := line }, none, false⟩ := by
  rw [Node.said, List.cons_append] at htokens
  obtain ⟨t, tokens, rfl, ht, htokens⟩ := List.map_eq_cons_iff.1 htokens
  obtain ⟨argTokens, optionTokens, rfl, hargs, hoptions⟩ := List.map_eq_append_iff.1 htokens
  simp only [Token.said, Prod.mk.injEq] at ht
  obtain ⟨hrole, hvalue, rfl⟩ := ht
  have hne : t.value ≠ "" := hvalue ▸ h.command_ne
  have hplain : isOptionWord t.value = false := hvalue ▸ h.command_plain
  refine foldlM_cons_eq_ok.2
    ⟨_, Reading.read_eq_ok_iff.2 (.command hrole hopen hpending hne hplain), ?_⟩
  rw [hvalue, hpending, hopen, List.foldlM_append,
    read_args (n := { command := n.command, line := t.line }) hargs]
  exact read_options (n := { command := n.command, args := [] ++ n.args, line := t.line })
    hoptions rfl

/-- The tokens of printed nodes give the nodes, and the reading is finished then. -/
theorem read_nodes {nodes : List Node} (h : ∀ n ∈ nodes, n.WellFormed) (line : Nat) {r : Reading}
    (hpending : r.pending = none) (hopen : r.finished = false) :
    ∃ r', (tokensFrom line (nodes.map fun n => n.render.toList)).foldlM Reading.read r = .ok r' ∧
      r'.finished = true ∧
      r'.nodes = (nodes.mapIdx fun i n => { n with line := i + line }).reverse ++ r.nodes := by
  induction nodes generalizing line r with
  | nil =>
      refine ⟨{ r with finished := true }, ?_, rfl, rfl⟩
      exact foldlM_cons_eq_ok.2 ⟨_, Reading.read_eq_ok_iff.2 (.finish rfl hopen hpending), rfl⟩
  | cons n nodes ih =>
      have hn := read_node (h n (by simp)) (said_lineTokens (h n (by simp)) line) hpending hopen
      obtain ⟨r', hfold, hfinished, hnodes⟩ := ih (fun m hm => h m (by simp [hm])) (line + 1)
        (r := ⟨r.nodes, some { n with line := line }, none, false⟩) rfl rfl
      refine ⟨r', ?_, hfinished, ?_⟩
      · rw [List.map_cons, tokensFrom, List.foldlM_append]
        exact bind_eq_ok.2 ⟨_, hn, hfold⟩
      · have hline : ∀ i, i + (line + 1) = i + 1 + line := by omega
        simp only [hline] at hnodes
        rw [hnodes, List.mapIdx_cons, List.reverse_cons, List.append_assoc]
        simp [Reading.nodes]

/-- A printed well-formed program is read back, with its nodes on consecutive lines. -/
theorem parse_render_of_wellFormed {p : Program} (h : p.WellFormed) :
    Program.parse p.render = .ok p.renumbered := by
  obtain ⟨r, hfold, hfinished, hnodes⟩ :=
    read_nodes (r := Reading.start) h 1 rfl rfl
  rw [← lines_render h] at hfold
  refine bind_eq_ok.2 ⟨r, hfold, ?_⟩
  rw [if_pos hfinished, hnodes]
  simp only [Program.renumbered, Reading.nodes, Reading.start, List.append_nil, List.reverse_reverse]
  rfl

/-- Renumbering neither makes a program well formed nor takes it away. -/
theorem wellFormed_of_renumbered {p : Program} (h : p.renumbered.WellFormed) : p.WellFormed := by
  intro n hn
  obtain ⟨i, hi, rfl⟩ := List.mem_iff_getElem.1 hn
  have hmem : { p.nodes[i] with line := i + 1 } ∈ p.renumbered.nodes := by
    refine List.mem_iff_getElem.2 ⟨i, by simpa [Program.renumbered] using hi, ?_⟩
    simp [Program.renumbered]
  exact { h _ hmem with }

/-- A printed program reads back as its nodes on consecutive lines exactly when it is well formed; whatever is
read from a script is well formed, and so it is read again from its printed form. -/
theorem parse_render :
    (∀ p : Program, Program.parse p.render = .ok p.renumbered ↔ p.WellFormed) ∧
      (∀ source p, Program.parse source = .ok p → p.WellFormed) ∧
      ∀ source p, Program.parse source = .ok p → Program.parse p.render = .ok p.renumbered := by
  refine ⟨?_, ?_, ?_⟩
  · intro p
    constructor
    · intro h
      exact wellFormed_of_renumbered (wellFormed_of_parse h)
    · exact parse_render_of_wellFormed
  · intro source p h
    exact wellFormed_of_parse h
  · intro source p h
    exact parse_render_of_wellFormed (wellFormed_of_parse h)

/-- Words with blanks, both kinds of quotes, hyphens and no characters at all survive. -/
theorem parse_render_of_quotes :
    ∃ p, Program.parse "say \"it's\" '--x' '' --k-1 'a \"b\"'\"'c\"" = .ok p ∧ p.WellFormed ∧
      Program.parse p.render = .ok p.renumbered := by
  have hparse : Program.parse "say \"it's\" '--x' '' --k-1 'a \"b\"'\"'c\"" =
      .ok ⟨[⟨"say", ["it's", "--x", ""], Options.ofList [("k-1", "a \"b\"'c")], 1⟩]⟩ := by
    decide +kernel
  exact ⟨_, hparse, parse_render.2.1 _ _ hparse, parse_render.2.2 _ _ hparse⟩

end Script
end TableFlow
