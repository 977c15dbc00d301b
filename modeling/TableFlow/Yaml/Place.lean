import TableFlow.Yaml.Line

/-!
# Places in YAML

A place in a text knows its column, because blocks are told apart by their indentation.
-/

namespace TableFlow
namespace Yaml

/-- A place in a text. -/
structure Place where
  /-- How many characters stand before it on its line. -/
  column : Nat
  /-- What follows. -/
  rest : List Char

/-- The place some characters later on the same line. -/
def Place.advance (p : Place) (n : Nat) : Place :=
  ⟨p.column + n, p.rest.drop n⟩

/-- The next place with content: after blanks, comments and ends of lines.  Also tells whether it is on
another line.  A tab counts as a blank only where no block can start: in brackets, or after content. -/
def nextContent (flow : Bool) :
    (comment tabs crossed : Bool) → (column : Nat) → List Char → Bool × Place
  | _, _, crossed, column, [] => (crossed, ⟨column, []⟩)
  | comment, tabs, crossed, column, c :: rest =>
    if isBreak c then nextContent flow false flow true 0 rest
    else if comment then nextContent flow true tabs crossed (column + 1) rest
    else if c = ' ' || (c = '\t' && tabs) then
      nextContent flow false tabs crossed (column + 1) rest
    else if c = '#' then nextContent flow true tabs crossed (column + 1) rest
    else (crossed, ⟨column, c :: rest⟩)

/-- The next place with content in a block. -/
def Place.next (p : Place) (tabs : Bool) : Bool × Place :=
  nextContent false false tabs false p.column p.rest

/-- The next place with content in brackets. -/
def Place.nextInFlow (p : Place) : Place :=
  (nextContent true false true false p.column p.rest).2

/-- The ends of lines before the next content, and its place. -/
def lineGap : (column : Nat) → List Char → List Char × Place
  | column, [] => ([], ⟨column, []⟩)
  | column, c :: rest =>
    if isBreak c then
      let (breaks, place) := lineGap 0 rest
      (c :: breaks, place)
    else if isSpaceOrTab c then lineGap (column + 1) rest
    else ([], ⟨column, c :: rest⟩)

/-- What joins two lines of a scalar: a space for one end of a line, and one end less if there are several. -/
def joint : List Char → List Char
  | ['\n'] => [' ']
  | '\n' :: more => more
  | breaks => breaks

end Yaml
end TableFlow
