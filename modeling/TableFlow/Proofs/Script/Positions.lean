import TableFlow.Proofs.Script.LineByLine

/-!
# Places of tokens

Every token knows the line and the column that it comes from.  Columns count characters, in quotes and out of them, so
a token is found again at its place in the text: it begins a word there, except for a value that is written into the
word of its key, which begins behind the equals sign.  The places grow from token to token; on each line the command
comes first, and a value comes directly behind its key.

Main results:

- Definition `BeginsWord`: the columns of a line at which a word begins.
- Theorem `in_of_mem_words`: every word of a line is found at its column.
- Theorem `pairwise_wordsFrom`: a word ends before the next one begins.
- Definition `Token.Stands`: how a token of a line is found in its text.
- Theorem `tokens_keep_places`: the tokens of every script are in order and stand at their places.
-/

namespace TableFlow
namespace Script

open Text (isBlank lines)

/-! ## What scanning takes -/

/-- Scanning stops at the end of a word. -/
theorem atEnd_rest_scanWord (q : Option Char) (s : List Char) : AtEnd (scanWord q s).rest := by
  apply scan_induction (P := fun _ scan => AtEnd scan.rest)
  case stop => exact fun _ h => h
  all_goals exact fun _ _ _ h => h

/-- What scanning leaves of a line is an end of it. -/
theorem rest_scanWord_suffix (q : Option Char) (s : List Char) : (scanWord q s).rest <:+ s := by
  apply scan_induction (P := fun s scan => scan.rest <:+ s)
  case stop => exact fun s _ => List.suffix_refl s
  all_goals exact fun c s _ h => h.trans (List.suffix_cons c s)

/-- A line is what scanning takes for a word and what it leaves. -/
theorem exists_taken_scanWord (q : Option Char) (s : List Char) :
    ∃ taken, taken ++ (scanWord q s).rest = s ∧ taken.length = (scanWord q s).width := by
  obtain ⟨taken, htaken⟩ := rest_scanWord_suffix q s
  have hlength := congrArg List.length htaken
  have hwidth := width_scanWord q s
  rw [List.length_append] at hlength
  exact ⟨taken, htaken, by omega⟩

/-- A word is at most as long as what was taken for it; its quotes make the difference. -/
theorem length_text_scanWord_le (q : Option Char) (s : List Char) :
    (scanWord q s).text.length ≤ (scanWord q s).width := by
  apply scan_induction (P := fun _ scan => scan.text.length ≤ scan.width)
  case stop => exact fun _ _ => Nat.le_refl 0
  case take => exact fun _ _ _ h => Nat.succ_le_succ h
  case opened => exact fun _ _ _ h => Nat.le_succ_of_le h
  case closed => exact fun _ _ _ h => Nat.le_succ_of_le h

/-- Without quotes, a word is what was taken for it, up to the first blank. -/
theorem scanWord_unquoted {s : List Char} (h : (scanWord none s).quoted = false) :
    s = (scanWord none s).text ++ (scanWord none s).rest ∧
      ∀ c ∈ (scanWord none s).text, isBlank c = false := by
  induction s with
  | nil => simp [scanWord, Scan.stop]
  | cons c s ih =>
      simp only [scanWord] at h ⊢
      split at h
      · next hblank => simp [hblank, Scan.stop]
      · next hblank =>
          split at h
          · cases h
          · next hquote =>
              obtain ⟨hs, htext⟩ := ih h
              simp only [hblank, hquote, Bool.false_eq_true, if_false, Scan.take, List.cons_append,
                List.forall_mem_cons]
              exact ⟨congrArg (c :: ·) hs, by simp, htext⟩

/-! ## Words at their places -/

/-- A word begins at this column, counted from one: the character there is not blank, and it is the first one of the
line or stands behind a blank. -/
def BeginsWord (text : List Char) (column : Nat) : Prop :=
  ∃ before c after, text = before ++ c :: after ∧ column = before.length + 1 ∧
    isBlank c = false ∧ ∀ b ∈ before.getLast?, isBlank b = true

/-- From this column on, counted from one, the line reads `rest`. -/
def ReadsFrom (text : List Char) (column : Nat) (rest : List Char) : Prop :=
  ∃ before, text = before ++ rest ∧ column = before.length + 1

/-- The word is found in the line: it begins at its column, and without quotes it is what the line reads there, up to
the next blank. -/
structure Word.In (w : Word) (text : List Char) : Prop where
  begins : BeginsWord text w.column
  plain : w.quoted = false → (∀ c ∈ w.text.toList, isBlank c = false) ∧
    ∃ after, ReadsFrom text w.column (w.text.toList ++ after) ∧ AtEnd after

/-- The words of what is left of a line are found in the line, if a word may begin there: behind a blank, at the start
of the line, or not before the next blank. -/
theorem in_of_mem_wordsFrom {column : Nat} {s : List Char} {w : Word} (hw : w ∈ wordsFrom column s) :
    ∀ before, before.length + 1 = column →
      (∀ b ∈ before.getLast?, isBlank b = true) ∨ AtEnd s → w.In (before ++ s) := by
  induction column, s using wordsFrom.induct with
  | case1 column => simp at hw
  | case2 column c rest hblank ih =>
      intro before hcolumn _
      rw [wordsFrom_cons, if_pos hblank] at hw
      have hrest := ih hw (before ++ [c]) (by simp [← hcolumn]) (by simp [hblank])
      simpa using hrest
  | case3 column c rest hblank hcomment =>
      rw [wordsFrom_cons, if_neg hblank, if_pos hcomment] at hw
      simp at hw
  | case4 column c rest hblank hcomment scan ih =>
      intro before hcolumn hstart
      rw [wordsFrom_cons, if_neg hblank, if_neg hcomment] at hw
      rcases List.mem_cons.1 hw with rfl | hw
      · have hbehind : ∀ b ∈ before.getLast?, isBlank b = true := by
          refine hstart.resolve_right ?_
          simpa [AtEnd] using hblank
        refine ⟨⟨before, c, rest, rfl, hcolumn.symm, by simpa using hblank, hbehind⟩, ?_⟩
        intro hquoted
        obtain ⟨hs, htext⟩ := scanWord_unquoted hquoted
        rw [String.toList_ofList]
        refine ⟨htext, (scanWord none (c :: rest)).rest, ⟨before, ?_, hcolumn.symm⟩, atEnd_rest_scanWord none _⟩
        rw [← hs]
      · -- What was taken for the word stands between what is before it and the words behind it.
        obtain ⟨taken, hline, hlength⟩ := exists_taken_scanWord none (c :: rest)
        have hcolumn' : (before ++ taken).length + 1 = column + scan.width := by
          rw [List.length_append, ← hcolumn, Nat.add_right_comm, hlength]
        have hrest := ih hw (before ++ taken) hcolumn' (Or.inr (atEnd_rest_scanWord none _))
        rwa [List.append_assoc, hline] at hrest

/-- Every word of a line is found in the line. -/
theorem in_of_mem_words {text : List Char} {w : Word} (hw : w ∈ words text) : w.In text :=
  in_of_mem_wordsFrom hw [] rfl (by simp)

/-- No word of what is left of a line begins before it. -/
theorem le_column_of_mem_wordsFrom {column : Nat} {s : List Char} {w : Word} (hw : w ∈ wordsFrom column s) :
    column ≤ w.column := by
  induction column, s using wordsFrom.induct with
  | case1 column => simp at hw
  | case2 column c rest hblank ih =>
      rw [wordsFrom_cons, if_pos hblank] at hw
      exact Nat.le_of_succ_le (ih hw)
  | case3 column c rest hblank hcomment =>
      rw [wordsFrom_cons, if_neg hblank, if_pos hcomment] at hw
      simp at hw
  | case4 column c rest hblank hcomment scan ih =>
      rw [wordsFrom_cons, if_neg hblank, if_neg hcomment] at hw
      rcases List.mem_cons.1 hw with rfl | hw
      · exact Nat.le_refl column
      · exact Nat.le_trans (Nat.le_add_right column scan.width) (ih hw)

/-- Where a word has just ended, no other begins. -/
theorem lt_column_of_mem_wordsFrom {column : Nat} {s : List Char} (h : AtEnd s) {w : Word}
    (hw : w ∈ wordsFrom column s) : column < w.column := by
  cases s with
  | nil => simp at hw
  | cons c rest =>
      have hblank : isBlank c = true := h c (by simp)
      rw [wordsFrom_cons, if_pos hblank] at hw
      exact le_column_of_mem_wordsFrom hw

/-- The word ends before the other begins, with something between them. -/
def Word.Before (w v : Word) : Prop :=
  w.column + w.text.toList.length < v.column

/-- Each word ends before the next ones begin. -/
theorem pairwise_wordsFrom (column : Nat) (s : List Char) :
    (wordsFrom column s).Pairwise Word.Before := by
  induction column, s using wordsFrom.induct with
  | case1 column => simp
  | case2 column c rest hblank ih => rwa [wordsFrom_cons, if_pos hblank]
  | case3 column c rest hblank hcomment =>
      rw [wordsFrom_cons, if_neg hblank, if_pos hcomment]
      exact .nil
  | case4 column c rest hblank hcomment scan ih =>
      rw [wordsFrom_cons, if_neg hblank, if_neg hcomment]
      refine List.pairwise_cons.2 ⟨?_, ih⟩
      intro v hv
      have hlength := length_text_scanWord_le none (c :: rest)
      have hcolumn := lt_column_of_mem_wordsFrom (atEnd_rest_scanWord none (c :: rest)) hv
      simp only [Word.Before, String.toList_ofList]
      omega

/-- A line says something if a character follows its first blanks and no comment begins there. -/
def Says (text : List Char) : Prop :=
  text.dropWhile isBlank ≠ [] ∧ startsComment (text.dropWhile isBlank) = false

/-- A line has words exactly when it says something. -/
theorem wordsFrom_ne_nil_iff (column : Nat) (s : List Char) : wordsFrom column s ≠ [] ↔ Says s := by
  induction column, s using wordsFrom.induct with
  | case1 column => simp [Says]
  | case2 column c rest hblank ih =>
      rw [wordsFrom_cons, if_pos hblank, ih]
      simp [Says, hblank]
  | case3 column c rest hblank hcomment =>
      rw [wordsFrom_cons, if_neg hblank, if_pos hcomment]
      simp [Says, hblank, hcomment]
  | case4 column c rest hblank hcomment scan ih =>
      rw [wordsFrom_cons, if_neg hblank, if_neg hcomment]
      simp [Says, hblank, hcomment]

/-! ## Option words -/

/-- A word that says a key and a value is two hyphens, the name, an equals sign and the value. -/
theorem eq_of_optionWord_inline {word name value : List Char}
    (h : optionWord? word = some ⟨name, some value⟩) : word = '-' :: '-' :: name ++ '=' :: value := by
  obtain ⟨-, ⟨hvalue, -⟩ | ⟨_, hvalue, -, hword⟩⟩ := optionWord_cases h
  · cases hvalue
  · cases hvalue
    exact hword

/-- Only unquoted words say something as an option. -/
theorem option_eq_some_iff {w : Word} {o : OptionWord} :
    w.option? = some o ↔ w.quoted = false ∧ optionWord? w.text.toList = some o := by
  unfold Word.option?
  cases w.quoted <;> simp

/-! ## Tokens behind a command -/

/-- The token `v` is the value of the key `k`: it follows directly, and on the same line. -/
structure Serves (tokens : List Token) (k v : Token) : Prop where
  adjacent : [k, v] <:+: tokens
  key : k.role = .optionKey
  value : v.role = .optionValue
  line : k.line = v.line

/-- How a token is found in the text of its line. -/
inductive Token.Stands (text : List Char) (tokens : List Token) (t : Token) : Prop where
  /-- Anything but a value begins a word. -/
  | word (role : t.role ≠ .optionValue) (begins : BeginsWord text t.column)
  /-- The word of its key ends with the name, and the value begins a word. -/
  | apart (k : Token) (serves : Serves tokens k t) (after : List Char)
      (spelled : ReadsFrom text k.column ('-' :: '-' :: k.value.toList ++ after)) (ends : AtEnd after)
      (begins : BeginsWord text t.column)
  /-- The word of its key goes on with an equals sign, and the value is all that follows in this word: it begins behind
  the two hyphens, the name and the equals sign. -/
  | inline (k : Token) (serves : Serves tokens k t) (after : List Char)
      (spelled : ReadsFrom text k.column
        ('-' :: '-' :: k.value.toList ++ '=' :: (t.value.toList ++ after)))
      (plain : ∀ c ∈ t.value.toList, isBlank c = false) (ends : AtEnd after)
      (column : t.column = k.column + (2 + k.value.toList.length + 1))

theorem Serves.mono {tokens more : List Token} (h : tokens <:+: more) {k v : Token} (hs : Serves tokens k v) :
    Serves more k v :=
  { hs with adjacent := hs.adjacent.trans h }

/-- A token stands as it does when more tokens are around it. -/
theorem Token.Stands.mono {text : List Char} {tokens more : List Token} (h : tokens <:+: more) {t : Token}
    (ht : t.Stands text tokens) : t.Stands text more := by
  cases ht with
  | word role begins => exact .word role begins
  | apart k serves after spelled ends begins => exact .apart k (serves.mono h) after spelled ends begins
  | inline k serves after spelled plain ends column =>
      exact .inline k (serves.mono h) after spelled plain ends column

section

variable {line n : Nat} {text : List Char} {ws : List Word}

/-- What is known of a token of the words behind a command: it stands on their line, is neither a command nor final,
and does not stand before all of the words. -/
structure Token.OfWords (line : Nat) (ws : List Word) (t : Token) : Prop where
  line_eq : t.line = line
  not_command : t.role ≠ .command
  not_finish : t.role ≠ .finish
  word : ∃ w ∈ ws, w.column ≤ t.column

theorem Token.OfWords.cons {t : Token} (h : t.OfWords line ws) (w : Word) : t.OfWords line (w :: ws) := by
  obtain ⟨v, hv, hcolumn⟩ := h.word
  exact { h with word := ⟨v, List.mem_cons_of_mem w hv, hcolumn⟩ }

theorem ofWords_of_mem_itemTokens {t : Token} (ht : t ∈ itemTokens line ws) : t.OfWords line ws := by
  induction ws using words_induction with
  | nil => simp [itemTokens] at ht
  | argument w rest hoption ih =>
      rw [itemTokens_argument hoption, List.mem_cons] at ht
      rcases ht with rfl | ht
      · exact ⟨rfl, by simp, by simp, w, by simp, Nat.le_refl _⟩
      · exact (ih ht).cons w
  | inline w rest name value hoption ih =>
      rw [itemTokens_inline hoption, List.mem_cons, List.mem_cons] at ht
      rcases ht with rfl | rfl | ht
      · exact ⟨rfl, by simp, by simp, w, by simp, Nat.le_refl _⟩
      · exact ⟨rfl, by simp, by simp, w, by simp, by simp only; omega⟩
      · exact (ih ht).cons w
  | valued w v rest name hoption hv ih =>
      rw [itemTokens_key_value hoption hv, List.mem_cons, List.mem_cons] at ht
      rcases ht with rfl | rfl | ht
      · exact ⟨rfl, by simp, by simp, w, by simp, Nat.le_refl _⟩
      · exact ⟨rfl, by simp, by simp, v, by simp, Nat.le_refl _⟩
      · exact ((ih ht).cons v).cons w
  | alone w rest name hoption halone ih =>
      rw [itemTokens_key_alone hoption _ halone, List.mem_cons] at ht
      rcases ht with rfl | ht
      · exact ⟨rfl, by simp, by simp, w, by simp, Nat.le_refl _⟩
      · exact (ih ht).cons w

/-- The tokens of words stand behind a place that all of the words stand behind. -/
theorem lt_column_of_mem_itemTokens (hws : ∀ w ∈ ws, n < w.column) :
    ∀ t ∈ itemTokens line ws, n < t.column := by
  intro t ht
  obtain ⟨w, hw, hcolumn⟩ := (ofWords_of_mem_itemTokens ht).word
  exact Nat.lt_of_lt_of_le (hws w hw) hcolumn

/-- A word that ends before others begins before their tokens. -/
theorem Word.column_lt_of_before {w : Word} (hw : ∀ v ∈ ws, w.Before v) :
    ∀ t ∈ itemTokens line ws, w.column < t.column :=
  lt_column_of_mem_itemTokens fun v hv => Nat.lt_of_le_of_lt (Nat.le_add_right _ _) (hw v hv)

/-- The tokens of words stand in the order of the words. -/
theorem pairwise_itemTokens (line : Nat) (hws : ws.Pairwise Word.Before) :
    (itemTokens line ws).Pairwise (·.column < ·.column) := by
  induction ws using words_induction with
  | nil => simp [itemTokens]
  | argument w rest hoption ih =>
      obtain ⟨hw, hrest⟩ := List.pairwise_cons.1 hws
      rw [itemTokens_argument hoption]
      exact List.pairwise_cons.2 ⟨Word.column_lt_of_before hw, ih hrest⟩
  | inline w rest name value hoption ih =>
      obtain ⟨hw, hrest⟩ := List.pairwise_cons.1 hws
      have hlength : 3 + name.length ≤ w.text.toList.length := by
        rw [eq_of_optionWord_inline (option_eq_some_iff.1 hoption).2]
        simp only [List.length_append, List.length_cons]
        omega
      -- The value begins within its word, or where the word ends if nothing follows the equals sign.
      have hvalue : ∀ t ∈ itemTokens line rest, w.column + 3 + name.length < t.column := by
        refine lt_column_of_mem_itemTokens fun v hv => ?_
        have hbefore : w.column + w.text.toList.length < v.column := hw v hv
        omega
      rw [itemTokens_inline hoption, List.pairwise_cons, List.pairwise_cons, List.forall_mem_cons]
      exact ⟨⟨by simp only; omega, Word.column_lt_of_before hw⟩, hvalue, ih hrest⟩
  | valued w v rest name hoption hv ih =>
      simp only [List.pairwise_cons, List.forall_mem_cons] at hws
      obtain ⟨⟨hwv, hw⟩, hvrest, hrest⟩ := hws
      rw [itemTokens_key_value hoption hv, List.pairwise_cons, List.pairwise_cons, List.forall_mem_cons]
      exact ⟨⟨Nat.lt_of_le_of_lt (Nat.le_add_right _ _) hwv, Word.column_lt_of_before hw⟩,
        Word.column_lt_of_before hvrest, ih hrest⟩
  | alone w rest name hoption halone ih =>
      obtain ⟨hw, hrest⟩ := List.pairwise_cons.1 hws
      rw [itemTokens_key_alone hoption _ halone]
      exact List.pairwise_cons.2 ⟨Word.column_lt_of_before hw, ih hrest⟩

/-- A value that is said in the word of its key is found there. -/
theorem Word.In.stands_inline {w : Word} (hw : w.In text) {name value : List Char}
    (hoption : w.option? = some ⟨name, some value⟩) (line : Nat) (rest : List Token) :
    Token.Stands text
      (⟨.optionKey, String.ofList name, line, w.column⟩ ::
        ⟨.optionValue, String.ofList value, line, w.column + 3 + name.length⟩ :: rest)
      ⟨.optionValue, String.ofList value, line, w.column + 3 + name.length⟩ := by
  obtain ⟨hquoted, hword⟩ := option_eq_some_iff.1 hoption
  obtain ⟨hplain, after, hreads, hends⟩ := hw.plain hquoted
  rw [eq_of_optionWord_inline hword] at hplain hreads
  refine .inline ⟨.optionKey, String.ofList name, line, w.column⟩ ⟨?_, rfl, rfl, rfl⟩ after ?_ ?_ hends ?_
  · exact (List.prefix_append [_, _] _).isInfix
  · simpa using hreads
  · simp only [String.toList_ofList]
    intro c hc
    exact hplain c (by simp [hc])
  · simp only [String.toList_ofList]
    omega

/-- A value that is said in the word behind its key is found there. -/
theorem Word.In.stands_apart {w v : Word} (hw : w.In text) (hv : v.In text) {name : List Char}
    (hoption : w.option? = some ⟨name, none⟩) (line : Nat) (rest : List Token) :
    Token.Stands text
      (⟨.optionKey, String.ofList name, line, w.column⟩ :: ⟨.optionValue, v.text, line, v.column⟩ :: rest)
      ⟨.optionValue, v.text, line, v.column⟩ := by
  obtain ⟨hquoted, hword⟩ := option_eq_some_iff.1 hoption
  obtain ⟨-, after, hreads, hends⟩ := hw.plain hquoted
  rw [(optionWord_eq_key_iff.1 hword).2] at hreads
  refine .apart ⟨.optionKey, String.ofList name, line, w.column⟩ ⟨?_, rfl, rfl, rfl⟩ after ?_ hends hv.begins
  · exact (List.prefix_append [_, _] _).isInfix
  · simpa using hreads

/-- The tokens of words that are found in a line are found there too. -/
theorem stands_of_mem_itemTokens (line : Nat) (hws : ∀ w ∈ ws, w.In text) :
    ∀ t ∈ itemTokens line ws, t.Stands text (itemTokens line ws) := by
  induction ws using words_induction with
  | nil => simp [itemTokens]
  | argument w rest hoption ih =>
      rw [List.forall_mem_cons] at hws
      rw [itemTokens_argument hoption, List.forall_mem_cons]
      refine ⟨.word (by simp) hws.1.begins, ?_⟩
      intro t ht
      exact (ih hws.2 t ht).mono (List.suffix_cons _ _).isInfix
  | inline w rest name value hoption ih =>
      rw [List.forall_mem_cons] at hws
      rw [itemTokens_inline hoption, List.forall_mem_cons, List.forall_mem_cons]
      refine ⟨.word (by simp) hws.1.begins, hws.1.stands_inline hoption line _, ?_⟩
      intro t ht
      exact (ih hws.2 t ht).mono (List.suffix_append [_, _] _).isInfix
  | valued w v rest name hoption hv ih =>
      rw [List.forall_mem_cons, List.forall_mem_cons] at hws
      rw [itemTokens_key_value hoption hv, List.forall_mem_cons, List.forall_mem_cons]
      refine ⟨.word (by simp) hws.1.begins, hws.1.stands_apart hws.2.1 hoption line _, ?_⟩
      intro t ht
      exact (ih hws.2.2 t ht).mono (List.suffix_append [_, _] _).isInfix
  | alone w rest name hoption halone ih =>
      rw [List.forall_mem_cons] at hws
      rw [itemTokens_key_alone hoption _ halone, List.forall_mem_cons]
      refine ⟨.word (by simp) hws.1.begins, ?_⟩
      intro t ht
      exact (ih hws.2 t ht).mono (List.suffix_cons _ _).isInfix

/-! ## Tokens of one line -/

/-- A line with tokens is a command and the tokens of the words behind it. -/
theorem lineTokens_cases (line : Nat) (text : List Char) :
    (words text = [] ∧ lineTokens line text = []) ∨ ∃ first rest, words text = first :: rest ∧
      lineTokens line text = ⟨.command, first.text, line, first.column⟩ :: itemTokens line rest := by
  unfold lineTokens
  cases words text with
  | nil => exact Or.inl ⟨rfl, rfl⟩
  | cons first rest => exact Or.inr ⟨first, rest, rfl, rfl⟩

/-- A line has tokens exactly when it says something. -/
theorem lineTokens_ne_nil_iff : lineTokens line text ≠ [] ↔ Says text := by
  rw [← wordsFrom_ne_nil_iff 1 text]
  change _ ↔ words text ≠ []
  rcases lineTokens_cases line text with ⟨hwords, htokens⟩ | ⟨first, rest, hwords, htokens⟩
  · simp [hwords, htokens]
  · simp [hwords, htokens]

/-- The tokens of a line are on the line, and none is final. -/
theorem on_of_mem_lineTokens {t : Token} (ht : t ∈ lineTokens line text) :
    t.line = line ∧ t.role ≠ .finish := by
  rcases lineTokens_cases line text with ⟨hwords, htokens⟩ | ⟨first, rest, hwords, htokens⟩
  · simp [htokens] at ht
  · rw [htokens, List.mem_cons] at ht
    rcases ht with rfl | ht
    · simp
    · have hitem := ofWords_of_mem_itemTokens ht
      exact ⟨hitem.line_eq, hitem.not_finish⟩

/-- The columns of a line grow from token to token. -/
theorem pairwise_lineTokens (line : Nat) (text : List Char) :
    (lineTokens line text).Pairwise (·.column < ·.column) := by
  rcases lineTokens_cases line text with ⟨hwords, htokens⟩ | ⟨first, rest, hwords, htokens⟩
  · simp [htokens]
  · have hbefore : (words text).Pairwise Word.Before := pairwise_wordsFrom 1 text
    rw [hwords, List.pairwise_cons] at hbefore
    rw [htokens]
    exact List.pairwise_cons.2 ⟨Word.column_lt_of_before hbefore.1, pairwise_itemTokens line hbefore.2⟩

/-- The command of a line is its first token. -/
theorem command_iff_of_mem_lineTokens {t : Token} (ht : t ∈ lineTokens line text) :
    t.role = .command ↔ ∀ u ∈ lineTokens line text, t.column ≤ u.column := by
  have hpairwise := pairwise_lineTokens line text
  rcases lineTokens_cases line text with ⟨hwords, htokens⟩ | ⟨first, rest, hwords, htokens⟩
  · simp [htokens] at ht
  · rw [htokens] at ht hpairwise ⊢
    obtain ⟨hfirst, -⟩ := List.pairwise_cons.1 hpairwise
    rcases List.mem_cons.1 ht with rfl | ht
    · refine iff_of_true rfl ?_
      rw [List.forall_mem_cons]
      exact ⟨Nat.le_refl _, fun u hu => Nat.le_of_lt (hfirst u hu)⟩
    · refine iff_of_false (ofWords_of_mem_itemTokens ht).not_command ?_
      intro hall
      exact Nat.not_lt.2 (hall _ (by simp)) (hfirst t ht)

/-- The tokens of a line are found in it. -/
theorem stands_of_mem_lineTokens {t : Token} (ht : t ∈ lineTokens line text) :
    t.Stands text (lineTokens line text) := by
  have hin : ∀ w ∈ words text, w.In text := fun w hw => in_of_mem_words hw
  rcases lineTokens_cases line text with ⟨hwords, htokens⟩ | ⟨first, rest, hwords, htokens⟩
  · simp [htokens] at ht
  · rw [hwords, List.forall_mem_cons] at hin
    rw [htokens] at ht ⊢
    rcases List.mem_cons.1 ht with rfl | ht
    · exact .word (by simp) hin.1.begins
    · exact (stands_of_mem_itemTokens line hin.2 t ht).mono (List.suffix_cons _ _).isInfix

end

/-! ## Tokens of scripts -/

/-- The tokens of lines are those of each line, and the final one. -/
theorem tokensFrom_eq (line : Nat) (ls : List (List Char)) :
    tokensFrom line ls = (ls.mapIdx fun i text => lineTokens (line + i) text).flatten ++
      [⟨.finish, "", line + ls.length, 1⟩] := by
  induction ls generalizing line with
  | nil => rfl
  | cons text ls ih =>
      have hshift : ∀ i, line + 1 + i = line + (i + 1) := by omega
      rw [tokensFrom, ih]
      simp [List.mapIdx_cons, hshift]

/-- A token of lines is one of some line, or the final one. -/
theorem mem_tokensFrom_iff {line : Nat} {ls : List (List Char)} {t : Token} :
    t ∈ tokensFrom line ls ↔ (∃ i text, ls[i]? = some text ∧ t ∈ lineTokens (line + i) text) ∨
      t = ⟨.finish, "", line + ls.length, 1⟩ := by
  rw [tokensFrom_eq, List.mem_append, List.mem_flatten, List.mem_singleton]
  refine or_congr_left ⟨?_, ?_⟩
  · rintro ⟨tokens, htokens, ht⟩
    obtain ⟨i, hi, rfl⟩ := List.mem_mapIdx.1 htokens
    exact ⟨i, ls[i], List.getElem?_eq_getElem hi, ht⟩
  · rintro ⟨i, text, htext, ht⟩
    obtain ⟨hi, rfl⟩ := List.getElem?_eq_some_iff.1 htext
    exact ⟨_, List.mem_mapIdx.2 ⟨i, hi, rfl⟩, ht⟩

/-- The tokens of each line stand together among the tokens of all lines. -/
theorem lineTokens_infix_tokensFrom {line i : Nat} {ls : List (List Char)} {text : List Char} (h : ls[i]? = some text) :
    lineTokens (line + i) text <:+: tokensFrom line ls := by
  obtain ⟨hi, rfl⟩ := List.getElem?_eq_some_iff.1 h
  rw [tokensFrom_eq]
  have hmem : lineTokens (line + i) ls[i] ∈ ls.mapIdx fun i text => lineTokens (line + i) text :=
    List.mem_mapIdx.2 ⟨i, hi, rfl⟩
  exact (List.infix_of_mem_flatten hmem).trans (List.prefix_append _ _).isInfix

/-- The token stands on an earlier line, or before the other one on its line. -/
def Token.Before (t u : Token) : Prop :=
  t.line < u.line ∨ t.line = u.line ∧ t.column < u.column

/-- Each token of lines stands before the next ones. -/
theorem pairwise_tokensFrom (line : Nat) (ls : List (List Char)) :
    (tokensFrom line ls).Pairwise Token.Before := by
  induction ls generalizing line with
  | nil => simp [tokensFrom]
  | cons text ls ih =>
      rw [tokensFrom, List.pairwise_append]
      refine ⟨(pairwise_lineTokens line text).imp_of_mem ?_, ih (line + 1), ?_⟩
      · intro t u ht hu hcolumn
        have hline : t.line = u.line :=
          (on_of_mem_lineTokens ht).1.trans (on_of_mem_lineTokens hu).1.symm
        exact Or.inr ⟨hline, hcolumn⟩
      · intro t ht u hu
        have hline := (on_of_mem_lineTokens ht).1
        rcases mem_tokensFrom_iff.1 hu with ⟨i, text', _, hu⟩ | rfl
        · have hlater := (on_of_mem_lineTokens hu).1
          exact Or.inl (by omega)
        · exact Or.inl (by simp only; omega)

section

variable {line i : Nat} {ls : List (List Char)} {text : List Char} {t : Token}

/-- The last token of lines is final, and no other one is. -/
theorem exists_body_tokensFrom (line : Nat) (ls : List (List Char)) :
    ∃ body, tokensFrom line ls = body ++ [⟨.finish, "", line + ls.length, 1⟩] ∧ ∀ t ∈ body, t.role ≠ .finish := by
  refine ⟨_, tokensFrom_eq line ls, ?_⟩
  intro t ht
  obtain ⟨tokens, htokens, ht⟩ := List.mem_flatten.1 ht
  obtain ⟨i, hi, rfl⟩ := List.mem_mapIdx.1 htokens
  exact (on_of_mem_lineTokens ht).2

/-- A token of lines that is not final is one of some line. -/
theorem exists_line_of_mem_tokensFrom (ht : t ∈ tokensFrom line ls) (hrole : t.role ≠ .finish) :
    ∃ i text, ls[i]? = some text ∧ t ∈ lineTokens (line + i) text := by
  refine (mem_tokensFrom_iff.1 ht).resolve_right ?_
  rintro rfl
  exact hrole rfl

/-- The tokens of lines that stand on one of the lines are the tokens of this line. -/
theorem mem_tokensFrom_and_line_iff (h : ls[i]? = some text) :
    t ∈ tokensFrom line ls ∧ t.line = line + i ↔ t ∈ lineTokens (line + i) text := by
  constructor
  · rintro ⟨ht, hline⟩
    obtain ⟨hi, -⟩ := List.getElem?_eq_some_iff.1 h
    rcases mem_tokensFrom_iff.1 ht with ⟨j, text', htext', ht⟩ | rfl
    · have hj : j = i := by
        have hother := (on_of_mem_lineTokens ht).1
        omega
      subst hj
      cases h.symm.trans htext'
      exact ht
    · simp only at hline
      omega
  · intro ht
    exact ⟨(lineTokens_infix_tokensFrom h).subset ht, (on_of_mem_lineTokens ht).1⟩

/-- The lines that say something have tokens, and no others. -/
theorem exists_token_on_line_iff (h : ls[i]? = some text) :
    (∃ t ∈ tokensFrom line ls, t.line = line + i) ↔ Says text := by
  have hsays : lineTokens (line + i) text ≠ [] ↔ Says text := lineTokens_ne_nil_iff
  rw [← hsays, Ne, List.eq_nil_iff_forall_not_mem, not_forall_not]
  exact exists_congr fun t => mem_tokensFrom_and_line_iff h

/-- Of the tokens of a line the first one is a command, and no other. -/
theorem command_iff_of_mem_tokensFrom (ht : t ∈ tokensFrom line ls) (hrole : t.role ≠ .finish) :
    t.role = .command ↔ ∀ u ∈ tokensFrom line ls, u.line = t.line → t.column ≤ u.column := by
  obtain ⟨i, text, htext, ht⟩ := exists_line_of_mem_tokensFrom ht hrole
  rw [command_iff_of_mem_lineTokens ht, (on_of_mem_lineTokens ht).1]
  simp only [← mem_tokensFrom_and_line_iff htext, and_imp]

/-- The tokens of lines are found in their lines. -/
theorem stands_of_mem_tokensFrom (ht : t ∈ tokensFrom line ls) (hrole : t.role ≠ .finish) :
    ∃ i text, ls[i]? = some text ∧ t.line = line + i ∧ t.Stands text (tokensFrom line ls) := by
  obtain ⟨i, text, htext, ht⟩ := exists_line_of_mem_tokensFrom ht hrole
  have hstands := (stands_of_mem_lineTokens ht).mono (lineTokens_infix_tokensFrom htext)
  exact ⟨i, text, htext, (on_of_mem_lineTokens ht).1, hstands⟩

end

/-! ## Order and places -/

/-- The tokens are in order, and stand at their places in the lines. -/
structure KeepPlaces (ls : List (List Char)) (tokens : List Token) : Prop where
  /-- Each token stands before the next ones. -/
  ordered : tokens.Pairwise Token.Before
  /-- The last token, and no other, is final; it is empty and begins the line after the last. -/
  final : ∃ body, tokens = body ++ [⟨.finish, "", 1 + ls.length, 1⟩] ∧ ∀ t ∈ body, t.role ≠ .finish
  /-- The lines that say something have tokens, and no others. -/
  spoken : ∀ i text, ls[i]? = some text → ((∃ t ∈ tokens, t.line = 1 + i) ↔ Says text)
  /-- Of the tokens of a line the first one is a command, and no other. -/
  command : ∀ t ∈ tokens, t.role ≠ .finish →
    (t.role = .command ↔ ∀ u ∈ tokens, u.line = t.line → t.column ≤ u.column)
  /-- A key is an option name. -/
  key : ∀ t ∈ tokens, t.role = .optionKey → isOptionName t.value.toList = true
  /-- All tokens but the final one are found in their lines. -/
  stands : ∀ t ∈ tokens, t.role ≠ .finish →
    ∃ i text, ls[i]? = some text ∧ t.line = 1 + i ∧ t.Stands text tokens

/-- The tokens of every script are in order: on each line a command comes first, values directly follow their keys,
and one final token comes after the last line.  Each of them is found in the text at its line and column. -/
theorem tokens_keep_places (source : String) : KeepPlaces (lines source.toList) (tokenize source) where
  ordered := pairwise_tokensFrom 1 _
  final := exists_body_tokensFrom 1 _
  spoken := fun _ _ htext => exists_token_on_line_iff htext
  command := fun _ ht hrole => command_iff_of_mem_tokensFrom ht hrole
  key := fun _ ht => (sound_of_mem_tokenize ht).key
  stands := fun _ ht hrole => stands_of_mem_tokensFrom ht hrole

end Script
end TableFlow
