import Mathlib.Data.List.DropRight
import TableFlow.Text.Blank

/-!
# Trimmed texts

Trimming twice is trimming once, and a text without blanks is trimmed.

Main results:

- Theorem `trim_trim`: trimming twice is trimming once.
- Theorem `trimChars_eq_self`: a text without blanks is trimmed.
-/

namespace TableFlow
namespace Text

/-- Trimming drops blanks in front, then blanks at the end. -/
theorem trimChars_eq (s : List Char) : trimChars s = (s.dropWhile isBlank).rdropWhile isBlank := rfl

/-- Dropping blanks at the end leaves a text that starts with no blank. -/
theorem dropWhile_trimChars (s : List Char) : (trimChars s).dropWhile isBlank = trimChars s := by
  obtain ⟨dropped, hprefix⟩ := List.rdropWhile_prefix isBlank (s.dropWhile isBlank)
  rw [← trimChars_eq] at hprefix
  cases htrim : trimChars s with
  | nil => rfl
  | cons c rest =>
    have hfirst : isBlank c = false := by
      have hidem := List.dropWhile_idempotent isBlank s
      rw [← hprefix, htrim, List.cons_append, List.dropWhile_cons] at hidem
      split at hidem
      · have := congrArg List.length hidem
        have := (List.dropWhile_sublist (l := rest ++ dropped) isBlank).length_le
        simp only [List.length_cons] at *
        omega
      · simp_all
    rw [List.dropWhile_cons, hfirst]
    rfl

theorem trimChars_trimChars (s : List Char) : trimChars (trimChars s) = trimChars s := by
  rw [trimChars_eq (trimChars s), dropWhile_trimChars, trimChars_eq, List.rdropWhile_idempotent]

/-- Trimming twice is trimming once. -/
theorem trim_trim (s : String) : trim (trim s) = trim s := by
  rw [trim, trim, String.toList_ofList, trimChars_trimChars]

/-- Trimming leaves something of a text that is not all blanks. -/
theorem trimChars_ne_nil {s : List Char} {c : Char} (hc : c ∈ s) (h : isBlank c = false) : trimChars s ≠ [] := by
  intro hnil
  rw [trimChars_eq, List.rdropWhile_eq_nil_iff] at hnil
  rw [← List.takeWhile_append_dropWhile (p := isBlank) (l := s)] at hc
  have hblank : isBlank c = true := by
    rcases List.mem_append.1 hc with hfront | hrest
    · exact List.mem_takeWhile_imp hfront
    · exact hnil c hrest
  rw [h] at hblank
  cases hblank

/-- Trimming leaves nothing of a text of blanks. -/
theorem trimChars_eq_nil {s : List Char} (h : ∀ c ∈ s, isBlank c = true) : trimChars s = [] := by
  rw [trimChars_eq, List.dropWhile_eq_nil_iff.2 h]
  rfl

/-- A text without blanks is trimmed. -/
theorem trimChars_eq_self {s : List Char} (h : ∀ c ∈ s, isBlank c = false) : trimChars s = s := by
  have hfront : ∀ t : List Char, (∀ c ∈ t, isBlank c = false) → t.dropWhile isBlank = t := by
    intro t ht
    cases t with
    | nil => rfl
    | cons c rest => simp [ht c List.mem_cons_self]
  rw [trimChars, trimFront, trimFront, hfront s h, hfront s.reverse (by simpa using h), List.reverse_reverse]

end Text
end TableFlow
