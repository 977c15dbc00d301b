import TableFlow.Proofs.Script.Grouping
import TableFlow.Proofs.Script.Spelling

/-!
# Well-formed programs

A program is well formed when a script can spell it: each command is a word that does not look like an option,
no word holds an end of line, and the keys of options are option names.  Every program that is read from a
script is well formed, because each token is: its text comes from one line, and a key is an option name.

Main results:

- Definition `Program.WellFormed`: the programs that scripts can spell.
- Theorem `sound_of_mem_tokenize`: no token of a script holds an end of line, and its keys are option names.
- Theorem `wellFormed_of_parse`: a program that was read from a script is well formed.
-/

namespace TableFlow
namespace Script

/-- A node that a script line can spell. -/
structure Node.WellFormed (n : Node) : Prop where
  command_ne : n.command ≠ ""
  command_plain : isOptionWord n.command = false
  command_line : '\n' ∉ n.command.toList
  args_line : ∀ a ∈ n.args, '\n' ∉ a.toList
  values_line : ∀ v ∈ n.options.pairs.map Prod.snd, '\n' ∉ v.toList
  keys_name : ∀ k ∈ n.options.pairs.map Prod.fst, isOptionName k.toList = true

/-- A program all of whose nodes script lines can spell. -/
def Program.WellFormed (p : Program) : Prop :=
  ∀ n ∈ p.nodes, n.WellFormed

/-! ## Lines and words hold no end of line -/

/-- No line of a text holds a newline. -/
theorem not_mem_of_mem_lines {s line : List Char} (h : line ∈ Text.lines s) : '\n' ∉ line := by
  induction s using Text.lines.induct generalizing line with
  | case1 => simp [Text.lines] at h
  | case2 rest ih =>
      rw [Text.lines, List.mem_cons] at h
      rcases h with rfl | h
      · simp
      · exact ih h
  | case3 rest ih =>
      rw [Text.lines, List.mem_cons] at h
      rcases h with rfl | h
      · simp
      · exact ih h
  | case4 c rest hc hcr hrest ih =>
      rw [Text.lines, hrest] at h
      · simp only [List.mem_singleton] at h
        subst h
        simpa using fun e => hc e.symm
      · exact hc
      · exact hcr
  | case5 c rest hc hcr first more hrest ih =>
      rw [Text.lines, hrest] at h
      · rcases List.mem_cons.1 h with rfl | h
        · have hfirst : '\n' ∉ first := ih (by simp [hrest])
          simp only [List.mem_cons, not_or]
          exact ⟨fun e => hc e.symm, hfirst⟩
        · exact ih (by simp [hrest, h])
      · exact hc
      · exact hcr

/-- A word and what is left of the line are made of characters of the line. -/
theorem mem_of_mem_scanWord (q : Option Char) (s : List Char) :
    (∀ c ∈ (scanWord q s).text, c ∈ s) ∧ ∀ c ∈ (scanWord q s).rest, c ∈ s := by
  apply scan_induction (P := fun s scan => (∀ c ∈ scan.text, c ∈ s) ∧ ∀ c ∈ scan.rest, c ∈ s)
  case stop =>
    intro s _
    simp [Scan.stop]
  case take =>
    rintro d s scan ⟨htext, hrest⟩
    simp only [Scan.take, List.mem_cons]
    exact ⟨fun c hc => hc.imp id (htext c), fun c hc => Or.inr (hrest c hc)⟩
  all_goals
    rintro d s scan ⟨htext, hrest⟩
    exact ⟨fun c hc => List.mem_cons_of_mem d (htext c hc), fun c hc => List.mem_cons_of_mem d (hrest c hc)⟩

/-- The words of a line are made of characters of the line. -/
theorem mem_of_mem_wordsFrom {column : Nat} {s : List Char} {w : Word} (hw : w ∈ wordsFrom column s)
    {c : Char} (hc : c ∈ w.text.toList) : c ∈ s := by
  induction column, s using wordsFrom.induct with
  | case1 column => simp at hw
  | case2 column d rest hblank ih =>
      rw [wordsFrom_cons, if_pos hblank] at hw
      simp [ih hw]
  | case3 column d rest hblank hcomment =>
      rw [wordsFrom_cons, if_neg hblank, if_pos hcomment] at hw
      simp at hw
  | case4 column d rest hblank hcomment scan ih =>
      rw [wordsFrom_cons, if_neg hblank, if_neg hcomment] at hw
      have hscan := mem_of_mem_scanWord none (d :: rest)
      rcases List.mem_cons.1 hw with rfl | hw
      · rw [String.toList_ofList] at hc
        exact hscan.1 c hc
      · exact hscan.2 c (ih hw)

/-! ## Tokens are sound -/

/-- What holds of every token of a script: its value is within one line, and a key is an option name. -/
structure Token.Sound (t : Token) : Prop where
  line : '\n' ∉ t.value.toList
  key : t.role = .optionKey → isOptionName t.value.toList = true

/-- The characters of an option name go on in option names. -/
theorem isNameChar_of_isOptionName {name : List Char} (h : isOptionName name = true) :
    ∀ c ∈ name, isNameChar c = true := by
  cases name with
  | nil => simp
  | cons c rest =>
      simp only [isOptionName, Bool.and_eq_true, List.all_eq_true] at h
      intro d hd
      rcases List.mem_cons.1 hd with rfl | hd
      · simp [isNameChar, h.1]
      · exact h.2 d hd

/-- An option name holds no end of line. -/
theorem newline_not_mem_name {name : List Char} (h : isOptionName name = true) : '\n' ∉ name := by
  intro hmem
  have hchar := isNameChar_of_isOptionName h '\n' hmem
  exact absurd hchar (by decide)

/-- An option word is two hyphens and an option name, and then the end, or an equals sign and a value within one
line. -/
theorem optionWord_cases {word : List Char} {o : OptionWord} (h : optionWord? word = some o) :
    isOptionName o.name = true ∧ (o.value = none ∧ word = '-' :: '-' :: o.name ∨
      ∃ value, o.value = some value ∧ '\n' ∉ value ∧ word = '-' :: '-' :: o.name ++ '=' :: value) := by
  unfold optionWord? at h
  split at h
  · next spelled =>
      have hall := List.takeWhile_append_dropWhile (p := isNameChar) (l := spelled)
      by_cases hname : isOptionName (spelled.takeWhile isNameChar) = true
      · simp only [hname, Bool.not_true, Bool.false_eq_true, if_false] at h
        split at h
        · next hrest =>
            cases h
            rw [hrest, List.append_nil] at hall
            exact ⟨hname, Or.inl ⟨rfl, by rw [hall]⟩⟩
        · next value hrest =>
            by_cases hline : value.contains '\n' = true
            · rw [if_pos hline] at h
              cases h
            · rw [if_neg hline] at h
              cases h
              rw [hrest] at hall
              refine ⟨hname, Or.inr ⟨value, rfl, by simpa using hline, ?_⟩⟩
              rw [List.cons_append, List.cons_append, hall]
        · cases h
      · simp only [hname, Bool.not_false, if_true] at h
        cases h
  · cases h

/-- An option word gives an option name, and a value without an end of line. -/
theorem sound_of_optionWord {word : List Char} {o : OptionWord} (h : optionWord? word = some o) :
    isOptionName o.name = true ∧ ∀ v ∈ o.value, '\n' ∉ v := by
  obtain ⟨hname, ⟨hvalue, -⟩ | ⟨value, hvalue, hline, -⟩⟩ := optionWord_cases h
  · exact ⟨hname, by simp [hvalue]⟩
  · exact ⟨hname, by simpa [hvalue] using hline⟩

/-- A word within one line says a sound option. -/
theorem sound_of_option {w : Word} {o : OptionWord} (h : w.option? = some o) :
    isOptionName o.name = true ∧ ∀ v ∈ o.value, '\n' ∉ v := by
  unfold Word.option? at h
  split at h
  · cases h
  · exact sound_of_optionWord h

/-- The key token of an option is sound. -/
theorem sound_key {name : List Char} (h : isOptionName name = true) (line column : Nat) :
    Token.Sound ⟨.optionKey, String.ofList name, line, column⟩ := by
  refine ⟨?_, ?_⟩
  · simpa using newline_not_mem_name h
  · simpa using h

/-- What holds of no words, and of words when it holds of those behind their first item, holds of all words.  The
first item is an argument, a key with a value of its own, a key with the next word as its value, or a key that lacks
one. -/
@[elab_as_elim]
theorem words_induction {P : List Word → Prop} (nil : P [])
    (argument : ∀ w rest, w.option? = none → P rest → P (w :: rest))
    (inline : ∀ w rest name value, w.option? = some ⟨name, some value⟩ → P rest → P (w :: rest))
    (valued : ∀ w v rest name, w.option? = some ⟨name, none⟩ → v.mayBeValue = true → P rest →
      P (w :: v :: rest))
    (alone : ∀ w rest name, w.option? = some ⟨name, none⟩ →
      (∀ v ∈ rest.head?, v.mayBeValue = false) → P rest → P (w :: rest)) (ws : List Word) : P ws := by
  induction ws using itemTokens.induct with
  | case1 => exact nil
  | case2 w rest hoption ih => exact argument w rest hoption ih
  | case3 w rest name value hoption ih => exact inline w rest name value hoption ih
  | case4 w rest name hoption ih =>
      cases rest with
      | nil => exact alone w [] name hoption (by simp) nil
      | cons v after =>
          cases hv : v.mayBeValue with
          | true => exact valued w v after name hoption hv ih.1
          | false => exact alone w (v :: after) name hoption (by simpa using hv) ih.2

/-- The tokens of words within one line are sound. -/
theorem sound_of_mem_itemTokens {line : Nat} {ws : List Word}
    (hws : ∀ w ∈ ws, '\n' ∉ w.text.toList) : ∀ t ∈ itemTokens line ws, t.Sound := by
  induction ws using words_induction with
  | nil => simp [itemTokens]
  | argument w rest hoption ih =>
      rw [List.forall_mem_cons] at hws
      rw [itemTokens_argument hoption, List.forall_mem_cons]
      exact ⟨⟨hws.1, by simp⟩, ih hws.2⟩
  | inline w rest name value hoption ih =>
      rw [List.forall_mem_cons] at hws
      have hsound := sound_of_option hoption
      rw [itemTokens_inline hoption, List.forall_mem_cons, List.forall_mem_cons]
      refine ⟨sound_key hsound.1 _ _, ⟨?_, by simp⟩, ih hws.2⟩
      simpa using hsound.2 value rfl
  | valued w v rest name hoption hv ih =>
      rw [List.forall_mem_cons, List.forall_mem_cons] at hws
      rw [itemTokens_key_value hoption hv, List.forall_mem_cons, List.forall_mem_cons]
      exact ⟨sound_key (sound_of_option hoption).1 _ _, ⟨hws.2.1, by simp⟩, ih hws.2.2⟩
  | alone w rest name hoption halone ih =>
      rw [List.forall_mem_cons] at hws
      rw [itemTokens_key_alone hoption _ halone, List.forall_mem_cons]
      exact ⟨sound_key (sound_of_option hoption).1 _ _, ih hws.2⟩

/-- The tokens of lines without ends of lines are sound. -/
theorem sound_of_mem_tokensFrom {lines : List (List Char)} (hlines : ∀ l ∈ lines, '\n' ∉ l)
    (line : Nat) : ∀ t ∈ tokensFrom line lines, t.Sound := by
  induction lines generalizing line with
  | nil =>
      simp only [tokensFrom, List.mem_singleton]
      rintro t rfl
      exact ⟨by simp, by simp⟩
  | cons text rest ih =>
      have hrest := ih (fun l hl => hlines l (by simp [hl])) (line + 1)
      have hwords : ∀ w ∈ words text, '\n' ∉ w.text.toList := by
        intro w hw hmem
        exact hlines text (by simp) (mem_of_mem_wordsFrom hw hmem)
      intro t ht
      rw [tokensFrom, List.mem_append] at ht
      rcases ht with ht | ht
      · unfold lineTokens at ht
        split at ht
        · simp at ht
        · next first more heq =>
            rw [heq] at hwords
            rcases List.mem_cons.1 ht with rfl | ht
            · exact ⟨hwords first (by simp), by simp⟩
            · exact sound_of_mem_itemTokens (fun w hw => hwords w (by simp [hw])) t ht
      · exact hrest t ht

/-- The tokens of a script are sound. -/
theorem sound_of_mem_tokenize {source : String} {t : Token} (h : t ∈ tokenize source) : t.Sound :=
  sound_of_mem_tokensFrom (fun _ hl => not_mem_of_mem_lines hl) 1 t h

/-! ## Reading sound tokens -/

/-- What has been read is well formed, and a key that waits for its value is an option name. -/
structure Reading.Sound (r : Reading) : Prop where
  nodes : ∀ n ∈ r.nodes, n.WellFormed
  pending : ∀ t ∈ r.pending, isOptionName t.value.toList = true

/-- A node takes any argument that is within one line. -/
theorem Node.WellFormed.addArg {n : Node} (h : n.WellFormed) {a : String}
    (ha : '\n' ∉ a.toList) : ({ n with args := n.args ++ [a] } : Node).WellFormed := by
  refine { h with args_line := ?_ }
  intro b hb
  rcases List.mem_append.1 hb with hb | hb
  · exact h.args_line b hb
  · rw [List.mem_singleton] at hb
    exact hb ▸ ha

/-- A pair of a list after an assignment was there before, or is the assigned one. -/
theorem mem_assign {α : Type} {key : String} {value : α} {pairs : List (String × α)}
    {p : String × α} (h : p ∈ assign key value pairs) : p = (key, value) ∨ p ∈ pairs := by
  induction pairs with
  | nil => simpa [assign] using h
  | cons q rest ih =>
      obtain ⟨k, v⟩ := q
      unfold assign at h
      split at h
      · next heq =>
          rcases List.mem_cons.1 h with rfl | h
          · simp [heq]
          · simp [h]
      · rcases List.mem_cons.1 h with rfl | h
        · simp
        · rcases ih h with rfl | h
          · simp
          · simp [h]

/-- A node takes any option with a name as its key and a value within one line. -/
theorem Node.WellFormed.addOption {n : Node} (h : n.WellFormed) {key value : String}
    (hkey : isOptionName key.toList = true) (hvalue : '\n' ∉ value.toList) :
    ({ n with options := n.options.insert key value } : Node).WellFormed := by
  refine { h with values_line := ?_, keys_name := ?_ }
  · intro v hv
    obtain ⟨p, hp, rfl⟩ := List.mem_map.1 hv
    rcases mem_assign hp with rfl | hp
    · exact hvalue
    · exact h.values_line _ (List.mem_map_of_mem hp)
  · intro k hk
    obtain ⟨p, hp, rfl⟩ := List.mem_map.1 hk
    rcases mem_assign hp with rfl | hp
    · exact hkey
    · exact h.keys_name _ (List.mem_map_of_mem hp)

/-- The current node is one of those that have been read. -/
theorem mem_nodes_of_current {r : Reading} {n : Node} (h : r.current = some n) : n ∈ r.nodes := by
  simp [Reading.nodes, h]

/-- Changing the current node changes no other node that has been read. -/
theorem mem_nodes_setCurrent {r : Reading} {n m : Node} (h : r.current = some n)
    {k : Node} (hk : k ∈ ({ r with current := some m } : Reading).nodes) :
    k = m ∨ k ∈ r.nodes := by
  simp only [Reading.nodes, List.mem_cons] at hk
  rcases hk with rfl | hk
  · exact Or.inl rfl
  · exact Or.inr (by simp [Reading.nodes, h, hk])

/-- Reading a sound token keeps what has been read sound. -/
theorem Reading.Sound.read {r r' : Reading} (h : r.Sound) {t : Token} (ht : t.Sound)
    (hread : r.read t = .ok r') : r'.Sound := by
  cases Reading.read_eq_ok_iff.1 hread with
  | command hrole hopen hpending hne hplain =>
      refine ⟨?_, by simp [hpending]⟩
      intro n hn
      simp only [Reading.nodes, List.mem_cons] at hn
      rcases hn with rfl | hn
      · exact ⟨hne, hplain, ht.line, by simp, by simp [Options.empty], by simp [Options.empty]⟩
      · exact h.nodes n hn
  | argument hrole hopen hpending hnode hline =>
      refine ⟨?_, h.pending⟩
      intro n hn
      rcases mem_nodes_setCurrent hnode hn with rfl | hn
      · exact (h.nodes _ (mem_nodes_of_current hnode)).addArg ht.line
      · exact h.nodes n hn
  | key hrole hopen hpending hnode hline =>
      refine ⟨h.nodes, ?_⟩
      intro key hkey
      cases hkey
      exact ht.key hrole
  | value hrole hopen hpending hnode hline =>
      refine ⟨?_, by simp⟩
      intro n hn
      rcases mem_nodes_setCurrent hnode hn with rfl | hn
      · exact (h.nodes _ (mem_nodes_of_current hnode)).addOption (h.pending _ hpending) ht.line
      · exact h.nodes n hn
  | finish hrole hopen hpending => exact ⟨h.nodes, h.pending⟩

/-- A program that sound tokens form is well formed. -/
theorem wellFormed_of_ofTokens {tokens : List Token} (htokens : ∀ t ∈ tokens, t.Sound) {p : Program}
    (h : Program.ofTokens tokens = .ok p) : p.WellFormed := by
  obtain ⟨r, hfold, hfinish⟩ := bind_eq_ok.1 h
  have hsound : r.Sound := by
    refine foldlM_invariant (P := Reading.Sound) ?_ ?_ hfold
    · intro r t ht r' hr hread
      exact hr.read (htokens t ht) hread
    · exact ⟨by simp [Reading.nodes, Reading.start], by simp [Reading.start]⟩
  split at hfinish
  · cases hfinish
    intro n hn
    exact hsound.nodes n (List.mem_reverse.1 hn)
  · cases hfinish

/-- A program that was read from a script is well formed. -/
theorem wellFormed_of_parse {source : String} {p : Program} (h : Program.parse source = .ok p) :
    p.WellFormed :=
  wellFormed_of_ofTokens (fun _ ht => sound_of_mem_tokenize ht) h

end Script
end TableFlow
