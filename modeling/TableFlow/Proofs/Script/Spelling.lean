import TableFlow.Script.Printer
import TableFlow.Script.Word

/-!
# Spelled words read back

The printer spells a word plainly, in one kind of quotes, or in parts that touch.  Whatever the spelling, the
scanner takes exactly it off the front of a line and gives the word back, provided that what follows is the
end of the line or a blank.

Main results:

- Definition `Spells`: some characters are taken off a line as one word.
- Theorem `spells_quoteWord`: the spelling of every word spells that word, and counts as quoted exactly when it
  needed quotes.
- Theorem `content_words_joined`: the words of spellings joined by single spaces are the spelled words.
-/

namespace TableFlow
namespace Script

open Text (isBlank)

/-! ## Scanning plain and quoted parts -/

/-- A character that neither ends a word nor opens a quoted part. -/
def isPlain (c : Char) : Bool :=
  !isBlank c && !isQuote c

/-- A word ends here: the line is over, or a blank follows. -/
def AtEnd (tail : List Char) : Prop :=
  ∀ c ∈ tail.head?, isBlank c = true

@[simp] theorem atEnd_nil : AtEnd [] := by
  simp [AtEnd]

@[simp] theorem atEnd_space (tail : List Char) : AtEnd (' ' :: tail) := by
  have hblank : isBlank ' ' = true := by decide
  simp [AtEnd, hblank]

/-- What holds at the end of a word, and goes on to hold with one more character in front, whether it belongs to the
word or is one of its quotes, holds of every scan. -/
theorem scan_induction {P : List Char → Scan → Prop} (stop : ∀ s, AtEnd s → P s (.stop s))
    (take : ∀ c s scan, P s scan → P (c :: s) (scan.take c))
    (opened : ∀ c s scan, P s scan → P (c :: s) scan.opened)
    (closed : ∀ c s scan, P s scan → P (c :: s) scan.closed) (q : Option Char) (s : List Char) :
    P s (scanWord q s) := by
  induction s generalizing q with
  | nil => cases q <;> exact stop [] atEnd_nil
  | cons c s ih =>
      cases q with
      | some q =>
          simp only [scanWord]
          split
          · exact closed c s _ (ih none)
          · exact take c s _ (ih (some q))
      | none =>
          simp only [scanWord]
          split
          · next hblank => exact stop (c :: s) (by simpa [AtEnd] using hblank)
          · split
            · exact opened c s _ (ih (some c))
            · exact take c s _ (ih none)

/-- A quote is not blank, so that it belongs to a word. -/
theorem isBlank_of_isQuote {q : Char} (hq : isQuote q = true) : isBlank q = false := by
  simp only [isQuote, Bool.or_eq_true, beq_iff_eq] at hq
  rcases hq with rfl | rfl <;> decide

/-- Scanning stops at the end of a word. -/
theorem scanWord_atEnd {tail : List Char} (h : AtEnd tail) :
    scanWord none tail = .stop tail := by
  cases tail with
  | nil => rfl
  | cons c rest =>
      have hc : isBlank c = true := h c (by simp)
      simp [scanWord, hc]

/-- A plain character is taken as it is. -/
theorem scanWord_plain {c : Char} (h : isPlain c = true) (tail : List Char) :
    scanWord none (c :: tail) = (scanWord none tail).take c := by
  simp only [isPlain, Bool.and_eq_true, Bool.not_eq_true'] at h
  simp [scanWord, h.1, h.2]

/-- An open quoted part takes everything up to the next quote of its kind, and that quote. -/
theorem scanWord_inside {q : Char} {part : List Char} (h : q ∉ part) (tail : List Char) :
    (scanWord (some q) (part ++ q :: tail)).text = part ++ (scanWord none tail).text ∧
      (scanWord (some q) (part ++ q :: tail)).rest = (scanWord none tail).rest := by
  induction part with
  | nil => simp [scanWord, Scan.closed]
  | cons c part ih =>
      have hc : c ≠ q := fun e => h (by simp [e])
      have hpart : q ∉ part := fun hmem => h (by simp [hmem])
      simpa [scanWord, Scan.take, hc] using ih hpart

/-- A quoted part gives its content, and makes the word quoted. -/
theorem scanWord_quoted {q : Char} (hq : isQuote q = true) {part : List Char} (h : q ∉ part)
    (tail : List Char) :
    (scanWord none (q :: part ++ q :: tail)).text = part ++ (scanWord none tail).text ∧
      (scanWord none (q :: part ++ q :: tail)).quoted = true ∧
      (scanWord none (q :: part ++ q :: tail)).rest = (scanWord none tail).rest := by
  have hinside := scanWord_inside h tail
  simp [scanWord, isBlank_of_isQuote hq, hq, Scan.opened, hinside]

/-! ## Characters that spell a word -/

/-- The characters are scanned as one word with this text, whatever ends it; `quoted` tells whether some part
of it was quoted. -/
structure Spells (s text : List Char) (quoted : Bool) : Prop where
  text_eq : ∀ tail, AtEnd tail → (scanWord none (s ++ tail)).text = text
  quoted_eq : ∀ tail, AtEnd tail → (scanWord none (s ++ tail)).quoted = quoted
  rest_eq : ∀ tail, AtEnd tail → (scanWord none (s ++ tail)).rest = tail

/-- A word may begin with these characters: the first one is not blank, and they begin no comment. -/
structure Opens (s : List Char) : Prop where
  ne_nil : s ≠ []
  not_blank : ∀ c ∈ s.head?, isBlank c = false
  not_comment : ∀ tail, AtEnd tail → startsComment (s ++ tail) = false

/-- Plain characters spell themselves. -/
theorem spells_plain {s : List Char} (h : ∀ c ∈ s, isPlain c = true) : Spells s s false := by
  have hscan : ∀ tail, AtEnd tail → (scanWord none (s ++ tail)).text = s ∧
      (scanWord none (s ++ tail)).quoted = false ∧ (scanWord none (s ++ tail)).rest = tail := by
    intro tail htail
    induction s with
    | nil => simp [scanWord_atEnd htail, Scan.stop]
    | cons c s ih =>
        have hc : isPlain c = true := h c (by simp)
        have hs := ih fun d hd => h d (by simp [hd])
        simpa [scanWord_plain hc, Scan.take] using hs
  exact ⟨fun tail ht => (hscan tail ht).1, fun tail ht => (hscan tail ht).2.1,
    fun tail ht => (hscan tail ht).2.2⟩

/-- A text between quotes of a kind that it does not hold spells the text. -/
theorem spells_between {q : Char} (hq : isQuote q = true) {part : List Char} (h : q ∉ part) :
    Spells (q :: part ++ [q]) part true := by
  have hscan : ∀ tail, AtEnd tail →
      (scanWord none (q :: part ++ [q] ++ tail)).text = part ∧
        (scanWord none (q :: part ++ [q] ++ tail)).quoted = true ∧
        (scanWord none (q :: part ++ [q] ++ tail)).rest = tail := by
    intro tail htail
    have hscan := scanWord_quoted hq h tail
    simp only [scanWord_atEnd htail, Scan.stop, List.append_nil] at hscan
    simpa using hscan
  exact ⟨fun tail ht => (hscan tail ht).1, fun tail ht => (hscan tail ht).2.1,
    fun tail ht => (hscan tail ht).2.2⟩

/-- What begins with a quote may begin a word. -/
theorem opens_quote {q : Char} (hq : isQuote q = true) (s : List Char) : Opens (q :: s) := by
  refine ⟨by simp, ?_, ?_⟩
  · intro c hc
    simp only [List.head?_cons, Option.mem_some_iff] at hc
    exact hc ▸ isBlank_of_isQuote hq
  · intro tail _
    simp only [isQuote, Bool.or_eq_true, beq_iff_eq] at hq
    rcases hq with rfl | rfl <;> rfl

/-! ## Words in parts that touch -/

/-- The parts of a text between separators, put together again. -/
theorem intercalate_splitAt (separator : Char) (s : List Char) :
    [separator].intercalate (Text.splitAt separator s) = s := by
  induction s with
  | nil => rfl
  | cons c s ih =>
      have hne := Text.splitAt_ne_nil separator s
      unfold Text.splitAt
      by_cases hc : c = separator
      · rw [if_pos hc, List.intercalate_cons_of_ne_nil hne, ih, hc]
        rfl
      · rw [if_neg hc]
        cases hparts : Text.splitAt separator s with
        | nil => exact (hne hparts).elim
        | cons part more =>
            rw [hparts] at ih
            simp only [List.intercalate_cons_cons_left, ih]

/-- No part of a text between separators holds the separator. -/
theorem not_mem_of_mem_splitAt {separator : Char} {s part : List Char}
    (h : part ∈ Text.splitAt separator s) : separator ∉ part := by
  induction s generalizing part with
  | nil =>
      simp only [Text.splitAt, List.mem_singleton] at h
      simp [h]
  | cons c s ih =>
      unfold Text.splitAt at h
      by_cases hc : c = separator
      · rw [if_pos hc, List.mem_cons] at h
        rcases h with rfl | h
        · simp
        · exact ih h
      · rw [if_neg hc] at h
        cases hparts : Text.splitAt separator s with
        | nil => exact (Text.splitAt_ne_nil separator s hparts).elim
        | cons first more =>
            rw [hparts] at h ih
            rcases List.mem_cons.1 h with rfl | h
            · have hfirst : separator ∉ first := ih (by simp)
              simp only [List.mem_cons, not_or]
              exact ⟨fun e => hc e.symm, hfirst⟩
            · exact ih (by simp [h])

/-- Scanning a part between double quotes gives the part; an empty part was left out. -/
theorem scanWord_doubleQuoted {part : List Char} (h : '"' ∉ part) (tail : List Char) :
    (scanWord none (doubleQuoted part ++ tail)).text = part ++ (scanWord none tail).text ∧
      (scanWord none (doubleQuoted part ++ tail)).rest = (scanWord none tail).rest := by
  cases part with
  | nil => simp [doubleQuoted]
  | cons c part =>
      have hscan := scanWord_quoted (q := '"') (by decide) h tail
      simpa [doubleQuoted] using ⟨hscan.1, hscan.2.2⟩

/-- Scanning the separator of parts gives one double quote, and makes the word quoted. -/
theorem scanWord_separator (tail : List Char) :
    (scanWord none (['\'', '"', '\''] ++ tail)).text = '"' :: (scanWord none tail).text ∧
      (scanWord none (['\'', '"', '\''] ++ tail)).quoted = true ∧
      (scanWord none (['\'', '"', '\''] ++ tail)).rest = (scanWord none tail).rest :=
  scanWord_quoted (q := '\'') (by decide) (by decide : '\'' ∉ ['"']) tail

/-- Scanning parts put together with quoted double quotes gives the parts with double quotes between them. -/
theorem scanWord_parts {parts : List (List Char)} (h : ∀ part ∈ parts, '"' ∉ part)
    {tail : List Char} (htail : AtEnd tail) :
    (scanWord none (['\'', '"', '\''].intercalate (parts.map doubleQuoted) ++ tail)).text =
        ['"'].intercalate parts ∧
      (scanWord none (['\'', '"', '\''].intercalate (parts.map doubleQuoted) ++ tail)).rest =
        tail := by
  induction parts with
  | nil => simp [List.intercalate_nil, scanWord_atEnd htail, Scan.stop]
  | cons part parts ih =>
      have hpart : '"' ∉ part := h part (by simp)
      cases parts with
      | nil =>
          have hscan := scanWord_doubleQuoted hpart tail
          simpa [scanWord_atEnd htail, Scan.stop] using hscan
      | cons next more =>
          have hmore := ih fun p hp => h p (List.mem_cons_of_mem _ hp)
          simp only [List.map_cons] at hmore
          simp only [List.map_cons, List.intercalate_cons_cons, List.append_assoc]
          rw [(scanWord_doubleQuoted hpart _).1, (scanWord_doubleQuoted hpart _).2,
            (scanWord_separator _).1, (scanWord_separator _).2.2, hmore.1, hmore.2]
          simp

/-- What begins with a quote is scanned as a quoted word. -/
theorem scanWord_quote_quoted {q : Char} (hq : isQuote q = true) (s : List Char) :
    (scanWord none (q :: s)).quoted = true := by
  simp [scanWord, isBlank_of_isQuote hq, hq, Scan.opened]

/-- A word in parts begins with a quote if it holds a double quote. -/
theorem mixedQuotes_begins {word : List Char} (h : '"' ∈ word) :
    ∃ q s, isQuote q = true ∧ mixedQuotes word = q :: s := by
  have hparts := intercalate_splitAt '"' word
  unfold mixedQuotes
  cases hsplit : Text.splitAt '"' word with
  | nil => exact (Text.splitAt_ne_nil '"' word hsplit).elim
  | cons part more =>
      rw [hsplit] at hparts
      cases part with
      | cons c part =>
          refine ⟨'"', ['\'', '"', '\''].intercalate
            ((c :: part ++ ['"']) :: more.map doubleQuoted), by decide, ?_⟩
          simp only [List.map_cons, doubleQuoted, List.isEmpty_cons, Bool.false_eq_true, if_false,
            List.cons_append, List.intercalate_cons_cons_left]
      | nil =>
          cases more with
          | nil =>
              rw [← hparts] at h
              simp at h
          | cons next more =>
              refine ⟨'\'', ['"', '\''] ++ ['\'', '"', '\''].intercalate
                ((next :: more).map doubleQuoted), by decide, ?_⟩
              simp [doubleQuoted, List.intercalate_cons_cons]

/-- A word in parts spells the word. -/
theorem spells_mixedQuotes {word : List Char} (h : '"' ∈ word) :
    Spells (mixedQuotes word) word true := by
  have hparts : ∀ part ∈ Text.splitAt '"' word, '"' ∉ part :=
    fun part hpart => not_mem_of_mem_splitAt hpart
  refine ⟨?_, ?_, ?_⟩
  · intro tail htail
    rw [mixedQuotes, (scanWord_parts hparts htail).1, intercalate_splitAt]
  · intro tail _
    obtain ⟨q, s, hq, hbegins⟩ := mixedQuotes_begins h
    rw [hbegins, List.cons_append]
    exact scanWord_quote_quoted hq _
  · intro tail htail
    rw [mixedQuotes, (scanWord_parts hparts htail).2]

/-! ## The spelling of a word -/

/-- Whether two characters begin a comment does not depend on what follows them. -/
theorem startsComment_cons_cons (c d : Char) (s : List Char) :
    startsComment (c :: d :: s) = (c == '#' || c == '/' && d == '/') := by
  by_cases hhash : c = '#'
  · simp [startsComment, hhash]
  · by_cases hslashes : c = '/' ∧ d = '/'
    · simp [startsComment, hslashes]
    · rw [startsComment]
      · simpa [hhash] using hslashes
      · rintro _ ⟨⟩
        exact hhash rfl
      · rintro _ ⟨⟩
        exact hslashes ⟨rfl, rfl⟩

/-- What ends a word makes no comment of it: what comes after a single slash is no slash. -/
theorem startsComment_append {s tail : List Char} (hne : s ≠ []) (hs : startsComment s = false)
    (htail : AtEnd tail) : startsComment (s ++ tail) = false := by
  match s, tail with
  | [], _ => exact (hne rfl).elim
  | [c], [] => exact hs
  | [c], d :: tail =>
      have hblank : isBlank d = true := htail d (by simp)
      have hslash : d ≠ '/' := by
        rintro rfl
        exact absurd hblank (by decide)
      have hhash : c ≠ '#' := by
        rintro rfl
        cases hs
      simp [startsComment_cons_cons, hhash, hslash]
  | c :: d :: s, tail =>
      rw [startsComment_cons_cons] at hs
      rw [List.cons_append, List.cons_append, startsComment_cons_cons, hs]

/-- A word that needs no quotes is plain, may begin where it stands, and is no option word. -/
theorem plain_of_needsQuotes_eq_false {word : String} (h : needsQuotes word = false) :
    (∀ c ∈ word.toList, isPlain c = true) ∧ Opens word.toList ∧ isOptionWord word = false := by
  unfold needsQuotes at h
  split at h
  · cases h
  · cases h
  · cases h
  · next hnil hhash hslashes =>
      simp only [Bool.or_eq_false_iff, List.any_eq_false] at h
      obtain ⟨hchars, hoption⟩ := h
      have hplain : ∀ c ∈ word.toList, isPlain c = true := by
        intro c hc
        have hnot := hchars c hc
        simp only [Bool.or_eq_true, beq_iff_eq, not_or, Bool.not_eq_true] at hnot
        simp [isPlain, isQuote, hnot]
      have hcomment : startsComment word.toList = false := by
        rw [startsComment]
        · exact hhash
        · exact hslashes
      refine ⟨hplain, ⟨hnil, ?_, fun _ htail => startsComment_append hnil hcomment htail⟩, hoption⟩
      intro c hc
      have := hplain c (List.mem_of_mem_head? hc)
      simp only [isPlain, Bool.and_eq_true, Bool.not_eq_true'] at this
      exact this.1

/-- A word is spelled plainly if it needs no quotes; else between quotes of a kind that it does not hold, or in parts if
it holds both kinds. -/
theorem quoteWord_cases (word : String) :
    (needsQuotes word = false ∧ quoteWord word = word) ∨
    (needsQuotes word = true ∧ ∃ q, isQuote q = true ∧ q ∉ word.toList ∧
      (quoteWord word).toList = q :: word.toList ++ [q]) ∨
    (needsQuotes word = true ∧ '"' ∈ word.toList ∧ (quoteWord word).toList = mixedQuotes word.toList) := by
  unfold quoteWord
  cases needsQuotes word with
  | false => exact Or.inl ⟨rfl, rfl⟩
  | true =>
      right
      simp only [Bool.not_true, Bool.false_eq_true, if_false, List.contains_iff_mem]
      by_cases hdouble : '"' ∈ word.toList
      · by_cases hsingle : '\'' ∈ word.toList
        · exact Or.inr ⟨trivial, hdouble, by simp [hdouble, hsingle]⟩
        · exact Or.inl ⟨trivial, '\'', by decide, hsingle, by simp [hdouble, hsingle]⟩
      · exact Or.inl ⟨trivial, '"', by decide, hdouble, by simp [hdouble]⟩

/-- The spelling of a word spells it, and counts as quoted exactly when the word needs quotes. -/
theorem spells_quoteWord (word : String) :
    Spells (quoteWord word).toList word.toList (needsQuotes word) := by
  rcases quoteWord_cases word with ⟨hneeds, hplain⟩ | ⟨hneeds, q, hq, hnot, hquoted⟩ | ⟨hneeds, hdouble, hparts⟩
  · rw [hplain, hneeds]
    exact spells_plain (plain_of_needsQuotes_eq_false hneeds).1
  · rw [hquoted, hneeds]
    exact spells_between hq hnot
  · rw [hparts, hneeds]
    exact spells_mixedQuotes hdouble

/-- The spelling of a word may begin a word. -/
theorem opens_quoteWord (word : String) : Opens (quoteWord word).toList := by
  rcases quoteWord_cases word with ⟨hneeds, hplain⟩ | ⟨-, q, hq, -, hquoted⟩ | ⟨-, hdouble, hparts⟩
  · rw [hplain]
    exact (plain_of_needsQuotes_eq_false hneeds).2.1
  · rw [hquoted]
    exact opens_quote hq _
  · obtain ⟨q, s, hq, hbegins⟩ := mixedQuotes_begins hdouble
    rw [hparts, hbegins]
    exact opens_quote hq s

/-! ## Lines of spelled words -/

/-- What a word of a line says, wherever it stands: its text, and whether some part of it was quoted. -/
def Word.content (w : Word) : String × Bool :=
  (w.text, w.quoted)

/-- A spelled word is the next word of a line that begins with it. -/
theorem wordsFrom_spelled {s text : List Char} {quoted : Bool} (hspells : Spells s text quoted)
    (hopens : Opens s) {tail : List Char} (htail : AtEnd tail) (column : Nat) :
    ∃ width, wordsFrom column (s ++ tail) =
      ⟨column, String.ofList text, quoted⟩ :: wordsFrom (column + width) tail := by
  cases s with
  | nil => exact (hopens.ne_nil rfl).elim
  | cons c s =>
      have hblank : isBlank c = false := hopens.not_blank c (by simp)
      have hcomment := hopens.not_comment tail htail
      have htext := hspells.text_eq tail htail
      have hquoted := hspells.quoted_eq tail htail
      have hrest := hspells.rest_eq tail htail
      rw [List.cons_append] at hcomment htext hquoted hrest ⊢
      refine ⟨(scanWord none (c :: (s ++ tail))).width, ?_⟩
      rw [wordsFrom_cons]
      simp [hblank, hcomment, htext, hquoted, hrest]

/-- The words of spellings joined by single spaces are the spelled words. -/
theorem content_words_joined {spellings : List (List Char × String × Bool)}
    (h : ∀ x ∈ spellings, Spells x.1 x.2.1.toList x.2.2 ∧ Opens x.1) (column : Nat) :
    (wordsFrom column ([' '].intercalate (spellings.map Prod.fst))).map Word.content =
      spellings.map Prod.snd := by
  induction spellings generalizing column with
  | nil => simp [List.intercalate_nil]
  | cons x spellings ih =>
      obtain ⟨hspells, hopens⟩ := h x (by simp)
      have hmore := ih fun y hy => h y (List.mem_cons_of_mem _ hy)
      cases spellings with
      | nil =>
          obtain ⟨width, hwords⟩ := wordsFrom_spelled hspells hopens atEnd_nil column
          rw [List.append_nil] at hwords
          simp [List.intercalate_singleton, hwords, Word.content]
      | cons y spellings =>
          simp only [List.map_cons, List.intercalate_cons_cons, List.append_assoc,
            List.singleton_append] at hmore ⊢
          obtain ⟨width, hwords⟩ := wordsFrom_spelled hspells hopens
            (atEnd_space ([' '].intercalate (y.1 :: spellings.map Prod.fst))) column
          have hspace : isBlank ' ' = true := by decide
          rw [hwords, wordsFrom_cons]
          simp [hspace, hmore, Word.content]

end Script
end TableFlow
