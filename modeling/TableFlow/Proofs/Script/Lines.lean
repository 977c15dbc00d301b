import TableFlow.Proofs.Script.Spelling
import TableFlow.Proofs.Script.WellFormed
import TableFlow.Proofs.Text.Lines

/-!
# Lines of a printed program

A printed program has one line for each node.  No printed line holds an end of line, unless a word does, and
none ends in a carriage return, which the reader would take for a part of the end of line: a word that ends in
one is quoted, so that its line ends in the quote.

Main result:

- Theorem `closed_quoteWord`: the spelling of a word within one line cannot be mistaken.
-/

namespace TableFlow
namespace Script

open Text (isBlank Closed)

/-- The text ends in a quote. -/
def EndsInQuote (s : List Char) : Prop :=
  ∃ q, isQuote q = true ∧ s.getLast? = some q

/-- A part between double quotes is empty or ends in a quote. -/
theorem doubleQuoted_ends (part : List Char) :
    doubleQuoted part = [] ∨ EndsInQuote (doubleQuoted part) := by
  cases part with
  | nil => exact Or.inl rfl
  | cons c part =>
      refine Or.inr ⟨'"', by decide, ?_⟩
      simp [doubleQuoted, List.getLast?_cons]

/-- Parts that touch are empty or end in a quote. -/
theorem parts_end (parts : List (List Char)) :
    ['\'', '"', '\''].intercalate (parts.map doubleQuoted) = [] ∨
      EndsInQuote (['\'', '"', '\''].intercalate (parts.map doubleQuoted)) := by
  induction parts with
  | nil => exact Or.inl rfl
  | cons part parts ih =>
      cases parts with
      | nil =>
          rw [List.map_singleton, List.intercalate_singleton]
          exact doubleQuoted_ends part
      | cons next more =>
          right
          rw [List.map_cons, List.map_cons, List.intercalate_cons_cons, ← List.map_cons,
            List.append_assoc]
          rcases ih with hnil | ⟨q, hq, hlast⟩
          · refine ⟨'\'', by decide, ?_⟩
            rw [hnil, List.append_nil, List.getLast?_append]
            rfl
          · refine ⟨q, hq, ?_⟩
            rw [List.getLast?_append, List.getLast?_append, hlast]
            rfl

/-- The spelling of a word in quotes ends in a quote. -/
theorem quoteWord_ends {word : String} (h : needsQuotes word = true) :
    EndsInQuote (quoteWord word).toList := by
  rcases quoteWord_cases word with ⟨hneeds, -⟩ | ⟨-, q, hq, -, hquoted⟩ | ⟨-, hdouble, hmixed⟩
  · rw [h] at hneeds
    cases hneeds
  · rw [hquoted]
    exact ⟨q, hq, List.getLast?_concat⟩
  · obtain ⟨q, s, -, hbegins⟩ := mixedQuotes_begins hdouble
    rw [hmixed]
    refine (parts_end (Text.splitAt '"' word.toList)).resolve_left fun hnil => ?_
    rw [← mixedQuotes, hbegins] at hnil
    cases hnil

/-- What stands between quotes is made of its characters and of quotes. -/
theorem mem_between {q c : Char} {part : List Char} (hq : isQuote q = true) (h : c ∈ q :: part ++ [q]) :
    c ∈ part ∨ isQuote c = true := by
  simp only [List.cons_append, List.mem_cons, List.mem_append, List.not_mem_nil, or_false] at h
  rcases h with rfl | h | rfl
  · exact Or.inr hq
  · exact Or.inl h
  · exact Or.inr hq

theorem mem_doubleQuoted {part : List Char} {c : Char} (h : c ∈ doubleQuoted part) : c ∈ part ∨ isQuote c = true := by
  unfold doubleQuoted at h
  split at h
  · cases h
  · exact mem_between (by decide) h

/-- Parts between double quotes are made of the characters of the parts and of quotes. -/
theorem mem_parts {parts : List (List Char)} {c : Char}
    (h : c ∈ ['\'', '"', '\''].intercalate (parts.map doubleQuoted)) :
    c ∈ ['"'].intercalate parts ∨ isQuote c = true := by
  induction parts with
  | nil => exact Or.inl h
  | cons part parts ih =>
      cases parts with
      | nil =>
          rw [List.map_singleton, List.intercalate_singleton] at h
          rw [List.intercalate_singleton]
          exact mem_doubleQuoted h
      | cons next more =>
          rw [List.map_cons, List.map_cons, List.intercalate_cons_cons, ← List.map_cons] at h
          rw [List.intercalate_cons_cons]
          simp only [List.mem_append] at h ⊢
          rcases h with (hpart | hquotes) | hmore
          · exact (mem_doubleQuoted hpart).imp (fun hc => Or.inl (Or.inl hc)) id
          · right
            simp only [List.mem_cons, List.not_mem_nil, or_false] at hquotes
            rcases hquotes with rfl | rfl | rfl <;> decide
          · exact (ih hmore).imp Or.inr id

/-- The spelling of a word is made of its characters and of quotes. -/
theorem mem_quoteWord {word : String} {c : Char} (h : c ∈ (quoteWord word).toList) :
    c ∈ word.toList ∨ isQuote c = true := by
  rcases quoteWord_cases word with ⟨-, hplain⟩ | ⟨-, q, hq, -, hquoted⟩ | ⟨-, -, hmixed⟩
  · rw [hplain] at h
    exact Or.inl h
  · rw [hquoted] at h
    exact mem_between hq h
  · rw [hmixed, mixedQuotes] at h
    have hmem := mem_parts h
    rwa [intercalate_splitAt] at hmem

/-- The spelling of a word within one line is closed. -/
theorem closed_quoteWord {word : String} (h : '\n' ∉ word.toList) :
    Closed (quoteWord word).toList := by
  refine ⟨?_, ?_⟩
  · intro hmem
    rcases mem_quoteWord hmem with hmem | hquote
    · exact h hmem
    · exact absurd hquote (by decide)
  · intro hlast
    cases hneeds : needsQuotes word with
    | true =>
        obtain ⟨q, hq, hends⟩ := quoteWord_ends hneeds
        rw [hends, Option.some.injEq] at hlast
        exact absurd hq (by rw [hlast]; decide)
    | false =>
        rw [quoteWord, hneeds] at hlast
        have hplain := (plain_of_needsQuotes_eq_false hneeds).1 '\r' (List.mem_of_getLast? hlast)
        exact absurd hplain (by decide)

end Script
end TableFlow
