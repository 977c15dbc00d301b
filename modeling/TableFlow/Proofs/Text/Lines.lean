import TableFlow.Text.Lines

/-!
# Lines of joined texts

A line is cut off at the newline behind it, together with a carriage return in front of the newline.  So lines that
were joined by newlines are found again, unless one of them holds a newline or ends in a carriage return.

Main results:

- Theorem `exists_lines_append`: a line without newlines is cut off where it ends, if not one character earlier.
- Theorem `lines_closed`: a line that cannot be mistaken is cut off where it ends.
- Theorem `lines_joined`: lines that are joined by newlines are read back, if none could be mistaken.
-/

namespace TableFlow
namespace Text

/-- What is cut off at the first newline is the line in front of it; only a carriage return at its end is dropped. -/
theorem exists_lines_append {line : List Char} (h : '\n' ∉ line) (rest : List Char) :
    ∃ cut, cut <+: line ∧ (line.getLast? ≠ some '\r' → cut = line) ∧
      lines (line ++ '\n' :: rest) = cut :: lines rest := by
  induction line with
  | nil => exact ⟨[], List.prefix_refl _, fun _ => rfl, by rw [List.nil_append, lines]⟩
  | cons c line ih =>
      obtain ⟨hc, hline⟩ := not_or.1 (mt List.mem_cons.2 h)
      obtain ⟨cut, hprefix, hwhole, hcut⟩ := ih hline
      by_cases hend : c = '\r' ∧ line = []
      · obtain ⟨rfl, rfl⟩ := hend
        refine ⟨[], List.nil_prefix, ?_, by rw [List.singleton_append, lines]⟩
        intro hreturn
        exact absurd rfl hreturn
      · refine ⟨c :: cut, List.cons_prefix_cons.2 ⟨rfl, hprefix⟩, ?_, ?_⟩
        · intro hreturn
          rw [hwhole]
          intro hlast
          simp [List.getLast?_cons, hlast] at hreturn
        · rw [List.cons_append, lines, hcut]
          · exact Ne.symm hc
          · intro more hcr hmore
            cases line with
            | nil => exact hend ⟨hcr, rfl⟩
            | cons d line =>
                rw [List.cons_append, List.cons.injEq] at hmore
                exact hline (by simp [hmore.1])

/-- A line that is read back when a newline follows it: it holds no newline and ends in no carriage return. -/
structure Closed (line : List Char) : Prop where
  no_newline : '\n' ∉ line
  no_return : line.getLast? ≠ some '\r'

/-- A closed line ends at the newline that follows it. -/
theorem lines_closed {line : List Char} (h : Closed line) (rest : List Char) :
    lines (line ++ '\n' :: rest) = line :: lines rest := by
  obtain ⟨cut, -, hwhole, hcut⟩ := exists_lines_append h.no_newline rest
  rw [hcut, hwhole h.no_return]

/-- A text without newlines is one line, unless it is empty. -/
theorem lines_single {line : List Char} (h : '\n' ∉ line) (hne : line ≠ []) :
    lines line = [line] := by
  induction line with
  | nil => exact (hne rfl).elim
  | cons c line ih =>
      have hc : c ≠ '\n' := fun e => h (by simp [e])
      have hline : '\n' ∉ line := fun hmem => h (by simp [hmem])
      rw [lines]
      · cases line with
        | nil => rfl
        | cons d line => rw [ih hline (by simp)]
      · exact hc
      · intro more hcr hmore
        exact hline (by simp [hmore])

/-- The first of lines that are joined by newlines is cut off, unless all of the text is one empty line. -/
theorem exists_lines_intercalate {line : List Char} (h : '\n' ∉ line) (ls : List (List Char))
    (hne : line ≠ [] ∨ ls ≠ []) :
    ∃ cut, cut <+: line ∧ (line.getLast? ≠ some '\r' → cut = line) ∧
      lines (['\n'].intercalate (line :: ls)) = cut :: lines (['\n'].intercalate ls) := by
  cases ls with
  | nil =>
      refine ⟨line, List.prefix_refl _, fun _ => rfl, ?_⟩
      rw [List.intercalate_singleton, lines_single h (hne.resolve_right (by simp))]
      rfl
  | cons next ls =>
      rw [List.intercalate_cons_cons, List.append_assoc, List.singleton_append]
      exact exists_lines_append h _

/-- Lines that are joined by newlines are read back. -/
theorem lines_joined {ls : List (List Char)} (h : ∀ l ∈ ls, Closed l ∧ l ≠ []) :
    lines (['\n'].intercalate ls) = ls := by
  induction ls with
  | nil => rfl
  | cons l ls ih =>
      obtain ⟨hclosed, hne⟩ := h l (by simp)
      obtain ⟨cut, -, hwhole, hlines⟩ := exists_lines_intercalate hclosed.no_newline ls (Or.inl hne)
      rw [hlines, hwhole hclosed.no_return, ih fun m hm => h m (by simp [hm])]

end Text
end TableFlow
