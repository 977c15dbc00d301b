import TableFlow.Yaml.Place

/-!
# Literal and folded blocks

A block is a text of its own lines, without their indentation.  A literal block keeps the ends of its lines; a
folded one joins lines with spaces.  The head of a block says what becomes of its end.
-/

namespace TableFlow
namespace Yaml

/-- How the end of a block is kept. -/
inductive Chomping where
  | strip
  | clip
  | keep
  deriving DecidableEq

/-- The head of a block: how its end is kept, its indentation if it is given, and what follows. -/
def blockHead? (s : List Char) : Option (Chomping × Option Nat × List Char) :=
  let chomp? (c : Char) : Option Chomping :=
    if c = '-' then some .strip else if c = '+' then some .keep else none
  let digit? (c : Char) : Option Nat :=
    if '1' ≤ c && c ≤ '9' then some (c.toNat - 48) else none
  let marks := s.takeWhile fun c => (chomp? c).isSome || (digit? c).isSome
  let chomps := marks.filterMap chomp?
  let digits := marks.filterMap digit?
  let line := (s.drop marks.length).takeWhile fun c => !isBreak c
  if 1 < chomps.length || 1 < digits.length || !isVoidEnd line then none
  else some (chomps.headD .clip, digits.head?, s.drop (marks.length + line.length + 1))

/-- A line of a block. -/
structure BlockLine where
  content : List Char
  /-- What ends the line; nothing at the end of the text. -/
  ending : List Char

namespace BlockLine

/-- The content of a line and its end. -/
def ofClosed (line : List Char) : BlockLine :=
  ⟨line.takeWhile fun c => !isBreak c, line.dropWhile fun c => !isBreak c⟩

/-- The line with its end. -/
def closed (line : BlockLine) : List Char :=
  line.content ++ line.ending

/-- The line has nothing but spaces. -/
def isEmpty (line : BlockLine) : Bool :=
  line.content.all (· == ' ')

/-- How far the line is indented. -/
def indentation (line : BlockLine) : Nat :=
  (line.content.takeWhile (· == ' ')).length

/-- The line without its indentation. -/
def dedent (n : Nat) (line : BlockLine) : BlockLine :=
  ⟨line.content.drop n, line.ending⟩

/-- The line starts with a blank, so that it does not fold. -/
def isIndented (line : BlockLine) : Bool :=
  line.content.head?.any isSpaceOrTab

end BlockLine

/-- The indentation of a block that does not give it: that of its first line with content, or of a longer
empty line before it.  Only spaces count, and no tab may follow them. -/
def foundIndentation? (lines : List BlockLine) : Option Nat :=
  let empty := lines.takeWhile BlockLine.isEmpty
  let longest := (empty.map fun line => line.content.length).foldl max 0
  match (lines.drop empty.length).head? with
  | some line =>
    if line.content[line.indentation]? = some '\t' then none else some (max longest line.indentation)
  | none => some longest

/-- The lines of a block, without their indentation, and the lines after it. -/
def blockLines (indent : Nat) : List BlockLine → List BlockLine × List BlockLine
  | [] => ([], [])
  | line :: rest =>
    if line.isEmpty || indent ≤ line.indentation then
      let (inside, after) := blockLines indent rest
      (line.dedent indent :: inside, after)
    else ([], line :: rest)

/-- Lines with their ends, the last one without it. -/
def literalText : List BlockLine → List Char
  | [] => []
  | [line] => line.content
  | line :: rest => line.closed ++ literalText rest

/-- The lines of a folded block after one line of it and the ends of empty lines. -/
def foldLines (previous : BlockLine) (pending : List Char) : List BlockLine → List Char
  | [] => []
  | line :: rest =>
    if line.content.isEmpty then foldLines previous (pending ++ line.ending) rest
    else
      let folds := previous.ending = ['\n'] && !previous.isIndented && !line.isIndented
      let between :=
        if !folds then previous.ending ++ pending
        else if pending.isEmpty then [' ']
        else pending
      between ++ line.content ++ foldLines line [] rest

/-- Lines of which some are joined with spaces; the last one is without its end. -/
def foldedText (lines : List BlockLine) : List Char :=
  let leading := lines.takeWhile fun line => line.content.isEmpty
  match lines.drop leading.length with
  | [] => []
  | first :: rest => leading.flatMap BlockLine.ending ++ first.content ++ foldLines first [] rest

/-- The text of a block. -/
def blockText (folded : Bool) (chomping : Chomping) (lines : List BlockLine) : List Char :=
  let trailing := (lines.reverse.takeWhile fun line => line.content.isEmpty).length
  let content := lines.take (lines.length - trailing)
  let body := if folded then foldedText content else literalText content
  let ending := (content.getLast?.map BlockLine.ending).getD []
  match chomping with
  | .strip => body
  | .clip => body ++ ending
  | .keep => body ++ ending ++ (lines.drop content.length).flatMap BlockLine.ending

/-- A literal or folded block after its sign, for a scalar that starts at `least` or to the right of it; and
the place after it. -/
def block? (folded : Bool) (least : Nat) (s : List Char) : Option (String × Place) := do
  let (chomping, given, after) ← blockHead? s
  let lines := (closedLines after).map BlockLine.ofClosed
  let indent ← match given with
    | some n => some (least - 1 + n)
    | none => (foundIndentation? lines).map fun found => max (max 1 least) found
  let (inside, beyond) := blockLines indent lines
  pure (String.ofList (blockText folded chomping inside), ⟨0, '\n' :: beyond.flatMap BlockLine.closed⟩)

end Yaml
end TableFlow
