import TableFlow.Text.Blank

/-!
# Words

A script line falls into words, separated by blanks.  A quote, single or double, groups what follows up to
the next quote of its kind, or to the end of the line; quoted and plain parts that touch form one word.  A
word that would begin with `#` or `//` starts a comment instead, which runs to the end of the line.
-/

namespace TableFlow
namespace Script

open Text (isBlank)

/-- A word of a line. -/
structure Word where
  /-- Column of its first character, counted from one. -/
  column : Nat
  /-- Its text without quotes. -/
  text : String
  /-- Some part of it was quoted. -/
  quoted : Bool
  deriving DecidableEq, Repr, Inhabited

/-- A character that opens or closes a quoted part. -/
def isQuote (c : Char) : Bool :=
  c == '"' || c == '\''

/-- What reading one word gives. -/
structure Scan where
  /-- The characters of the word, without quotes. -/
  text : List Char
  /-- Some part of it was quoted. -/
  quoted : Bool
  /-- How many characters of the line it took. -/
  width : Nat
  /-- The line after it. -/
  rest : List Char
  deriving DecidableEq, Repr, Inhabited

namespace Scan

/-- A word that ends here. -/
def stop (rest : List Char) : Scan := ⟨[], false, 0, rest⟩

/-- One more character in front, which belongs to the word. -/
def take (c : Char) (s : Scan) : Scan := { s with text := c :: s.text, width := s.width + 1 }

/-- One more character in front, which is a quote that opens a part. -/
def opened (s : Scan) : Scan := { s with quoted := true, width := s.width + 1 }

/-- One more character in front, which is a quote that closes a part. -/
def closed (s : Scan) : Scan := { s with width := s.width + 1 }

end Scan

/-- Read one word, or the rest of one whose quoted part is open. -/
def scanWord : Option Char → List Char → Scan
  | _, [] => .stop []
  | some q, c :: rest =>
    if c = q then (scanWord none rest).closed else (scanWord (some q) rest).take c
  | none, c :: rest =>
    if isBlank c then .stop (c :: rest)
    else if isQuote c then (scanWord (some c) rest).opened
    else (scanWord none rest).take c

/-- A word and the line after it make up the line. -/
theorem width_scanWord (q : Option Char) (s : List Char) :
    (scanWord q s).width + (scanWord q s).rest.length = s.length := by
  induction s generalizing q with
  | nil => cases q <;> rfl
  | cons c rest ih =>
    cases q with
    | some q =>
      simp only [scanWord]
      split
      · have := ih none
        simp only [Scan.closed, List.length_cons]
        omega
      · have := ih (some q)
        simp only [Scan.take, List.length_cons]
        omega
    | none =>
      simp only [scanWord]
      split
      · simp [Scan.stop]
      · split
        · have := ih (some c)
          simp only [Scan.opened, List.length_cons]
          omega
        · have := ih none
          simp only [Scan.take, List.length_cons]
          omega

/-- A word that starts at a character that is not blank takes that character. -/
theorem width_scanWord_pos {c : Char} (rest : List Char) (h : isBlank c = false) :
    0 < (scanWord none (c :: rest)).width := by
  simp only [scanWord, h, Bool.false_eq_true, if_false]
  split <;> simp [Scan.opened, Scan.take]

/-- The text begins a comment. -/
def startsComment : List Char → Bool
  | '#' :: _ => true
  | '/' :: '/' :: _ => true
  | _ => false

/-- The words of a line of which `column` is the next column. -/
def wordsFrom (column : Nat) (s : List Char) : List Word :=
  match s with
  | [] => []
  | c :: rest =>
    if h : isBlank c then wordsFrom (column + 1) rest
    else if startsComment (c :: rest) then []
    else
      let scan := scanWord none (c :: rest)
      ⟨column, String.ofList scan.text, scan.quoted⟩ :: wordsFrom (column + scan.width) scan.rest
termination_by s.length
decreasing_by
  · simp
  · have hw := width_scanWord none (c :: rest)
    have hp := width_scanWord_pos rest (by simpa using h)
    omega

@[simp] theorem wordsFrom_nil (column : Nat) : wordsFrom column [] = [] := by
  unfold wordsFrom
  rfl

/-- A blank is skipped, a comment ends the line, and anything else begins a word. -/
theorem wordsFrom_cons (column : Nat) (c : Char) (rest : List Char) :
    wordsFrom column (c :: rest) =
      if isBlank c then wordsFrom (column + 1) rest
      else if startsComment (c :: rest) then []
      else
        ⟨column, String.ofList (scanWord none (c :: rest)).text,
            (scanWord none (c :: rest)).quoted⟩ ::
          wordsFrom (column + (scanWord none (c :: rest)).width) (scanWord none (c :: rest)).rest := by
  rw [wordsFrom.eq_def]
  rfl

/-- The words of a line. -/
def words (line : List Char) : List Word :=
  wordsFrom 1 line

end Script
end TableFlow
