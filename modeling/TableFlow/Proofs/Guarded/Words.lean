import TableFlow.Proofs.Guarded.Access
import TableFlow.Script.Token

/-!
# Guarded words

A line is scanned by the places of its characters: a place moves forward over blanks and over words, and each
character is asked for at its place.  The end of a part in quotes may lie beyond the end of the line, but no character
is asked for there; and the scan comes to an end, since every word takes a character.

Main results:

- Theorem `scanAt_eq`: a word is read from the characters that the line has from a place on.
- Theorem `tokenize_eq`: the tokens of a script are found without a breakdown.
-/

namespace TableFlow
namespace Guarded

open Script
open Text (isBlank)

variable {chars : List Char} {i : Nat}

/-- Read one word, or the rest of one whose quoted part is open, from a place of the line on. -/
def scanAt (chars : List Char) (quote : Option Char) (i : Nat) : Guarded Scan :=
  if _ : i < chars.length then do
    let c ← element chars i
    match quote with
    | some q =>
      if c = q then do
        let scan ← scanAt chars none (i + 1)
        pure scan.closed
      else do
        let scan ← scanAt chars (some q) (i + 1)
        pure (scan.take c)
    | none =>
      if isBlank c then pure (.stop (chars.drop i))
      else if isQuote c then do
        let scan ← scanAt chars (some c) (i + 1)
        pure scan.opened
      else do
        let scan ← scanAt chars none (i + 1)
        pure (scan.take c)
  else pure (.stop [])
termination_by chars.length - i

/-- A comment begins at a place where the line has the character. -/
def commentAt (chars : List Char) (c : Char) (i : Nat) : Bool :=
  c == '#' || c == '/' && chars[i + 1]? == some '/'

/-- The words of a line from a place on, found in at most so many rounds. -/
def wordsAt (chars : List Char) : (rounds : Nat) → Nat → Guarded (List Word)
  | 0, _ => crash "the line has no end"
  | rounds + 1, i =>
    if i < chars.length then do
      let c ← element chars i
      if isBlank c then wordsAt chars rounds (i + 1)
      else if commentAt chars c i then pure []
      else do
        let scan ← scanAt chars none i
        let rest ← wordsAt chars rounds (i + scan.width)
        pure (⟨i + 1, String.ofList scan.text, scan.quoted⟩ :: rest)
    else pure []

/-- The tokens of one line. -/
def lineTokens (line : Nat) (text : List Char) : Guarded (List Token) := do
  let found ← wordsAt text (text.length + 1) 0
  match found with
  | [] => pure []
  | first :: rest => pure (⟨.command, first.text, line, first.column⟩ :: itemTokens line rest)

/-- The tokens of lines of which the first has the given number, and the final token. -/
def tokensFrom (line : Nat) : List (List Char) → Guarded (List Token)
  | [] => .ok [⟨.finish, "", line, 1⟩]
  | text :: rest => do
    let tokens ← lineTokens line text
    let more ← tokensFrom (line + 1) rest
    pure (tokens ++ more)

/-- The tokens of a script. -/
def tokenize (source : String) : Guarded (List Token) :=
  tokensFrom 1 (Text.lines source.toList)

/-! ## Words -/

/-- A word is read from the characters that the line has from a place on. -/
theorem scanAt_eq (chars : List Char) (quote : Option Char) (i : Nat) :
    scanAt chars quote i = .ok (scanWord quote (chars.drop i)) := by
  induction hleft : chars.length - i generalizing quote i with
  | zero =>
      have hend : chars.length ≤ i := by omega
      rw [scanAt, dif_neg (Nat.not_lt.2 hend), List.drop_eq_nil_of_le hend]
      cases quote <;> rfl
  | succ n ih =>
      have hi : i < chars.length := by omega
      have hrest (quote : Option Char) := ih quote (i + 1) (by omega)
      rw [scanAt, dif_pos hi, bind_ok (element_eq hi), List.drop_eq_getElem_cons hi]
      cases quote with
      | some q =>
          by_cases hclosed : chars[i] = q
          · simp only [if_pos hclosed, bind_ok (hrest none), scanWord]
            rfl
          · simp only [if_neg hclosed, bind_ok (hrest (some q)), scanWord]
            rfl
      | none =>
          by_cases hblank : isBlank chars[i] = true
          · simp only [if_pos hblank, scanWord, ← List.drop_eq_getElem_cons hi]
            rfl
          · by_cases hquote : isQuote chars[i] = true
            · simp only [if_neg hblank, if_pos hquote, bind_ok (hrest (some chars[i])), scanWord]
              rfl
            · simp only [if_neg hblank, if_neg hquote, bind_ok (hrest none), scanWord]
              rfl

/-- The line after a word is what is left when the word has been taken. -/
theorem rest_scanWord (quote : Option Char) (s : List Char) :
    (scanWord quote s).rest = s.drop (scanWord quote s).width := by
  induction s generalizing quote with
  | nil => cases quote <;> rfl
  | cons c rest ih =>
      cases quote with
      | some q =>
          rw [scanWord]
          split
          · exact ih none
          · exact ih (some q)
      | none =>
          rw [scanWord]
          split
          · rfl
          · split
            · exact ih (some c)
            · exact ih none

/-- A comment begins at a place where it begins in the rest of the line. -/
theorem commentAt_eq (hi : i < chars.length) :
    commentAt chars chars[i] i = startsComment (chars[i] :: chars.drop (i + 1)) := by
  have hnext : chars[i + 1]? = (chars.drop (i + 1)).head? := List.head?_drop.symm
  rw [commentAt, hnext]
  generalize chars[i] = c
  generalize chars.drop (i + 1) = rest
  by_cases hhash : c = '#'
  · subst hhash
    rfl
  · by_cases hslash : c = '/'
    · subst hslash
      cases rest with
      | nil => rfl
      | cons d rest =>
          by_cases hd : d = '/'
          · subst hd
            rfl
          · simp [startsComment, hd]
    · simp [startsComment, hhash, hslash]

/-- The words of a line are found, and every round takes a character. -/
theorem wordsAt_eq {rounds : Nat} (h : chars.length - i < rounds) :
    wordsAt chars rounds i = .ok (wordsFrom (i + 1) (chars.drop i)) := by
  induction rounds generalizing i with
  | zero => exact absurd h (Nat.not_lt_zero _)
  | succ rounds ih =>
      rw [wordsAt]
      by_cases hi : i < chars.length
      · rw [if_pos hi, bind_ok (element_eq hi), List.drop_eq_getElem_cons hi, wordsFrom_cons]
        by_cases hblank : isBlank chars[i] = true
        · rw [if_pos hblank, if_pos hblank]
          exact ih (by omega)
        · rw [if_neg hblank, if_neg hblank, commentAt_eq hi]
          by_cases hcomment : startsComment (chars[i] :: chars.drop (i + 1)) = true
          · rw [if_pos hcomment, if_pos hcomment]
            rfl
          · have hwidth := width_scanWord_pos (chars.drop (i + 1)) (Bool.not_eq_true _ ▸ hblank)
            rw [if_neg hcomment, if_neg hcomment, bind_ok (scanAt_eq chars none i),
              List.drop_eq_getElem_cons hi, rest_scanWord, bind_ok (ih (by omega)), ← List.drop_eq_getElem_cons hi,
              List.drop_drop, Nat.add_right_comm]
            rfl
      · rw [if_neg hi, List.drop_eq_nil_of_le (Nat.le_of_not_lt hi), wordsFrom_nil]
        rfl

/-! ## Tokens -/

theorem lineTokens_eq (line : Nat) (text : List Char) :
    lineTokens line text = .ok (Script.lineTokens line text) := by
  rw [lineTokens, bind_ok (wordsAt_eq (by omega)), Script.lineTokens, words, List.drop_zero]
  cases wordsFrom (0 + 1) text with
  | nil => rfl
  | cons first rest => rfl

theorem tokensFrom_eq (line : Nat) (texts : List (List Char)) :
    tokensFrom line texts = .ok (Script.tokensFrom line texts) := by
  induction texts generalizing line with
  | nil => rfl
  | cons text texts ih =>
      rw [tokensFrom, bind_ok (lineTokens_eq line text), bind_ok (ih (line + 1))]
      rfl

/-- The tokens of a script are found without a breakdown. -/
theorem tokenize_eq (source : String) : tokenize source = .ok (Script.tokenize source) :=
  tokensFrom_eq 1 _

end Guarded
end TableFlow
