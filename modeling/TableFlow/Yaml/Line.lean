/-!
# Lines of YAML

Which characters a text may have, which of them end a line, and which lines of a text belong to its only
document.
-/

namespace TableFlow
namespace Yaml

/-! ### Characters -/

/-- A character that may stand in a text. -/
def isAllowed (c : Char) : Bool :=
  let n := c.toNat
  n == 9 || n == 10 || n == 13 || n == 0x85 || (0x20 ≤ n && n ≤ 0x7E) ||
    (0xA0 ≤ n && n ≤ 0xFFFD && n != 0xFEFF) || 0x10000 ≤ n

/-- A character that ends a line. -/
def isBreak (c : Char) : Bool :=
  c == '\n' || c == '\r' || c == '\x85' || c == '\u2028' || c == '\u2029'

/-- A space or a tab. -/
def isSpaceOrTab (c : Char) : Bool :=
  c == ' ' || c == '\t'

/-- A character that separates words: a space, a tab or the end of a line. -/
def isGap (c : Char) : Bool :=
  isSpaceOrTab c || isBreak c

/-- The next character separates words, or there is none. -/
def gapNext : List Char → Bool
  | [] => true
  | c :: _ => isGap c

/-- The text where every end of a line that folds is spelled in one way; the separators of lines and of
paragraphs stay what they are. -/
def unifyBreaks : List Char → List Char
  | '\r' :: '\n' :: rest => '\n' :: unifyBreaks rest
  | '\r' :: rest => '\n' :: unifyBreaks rest
  | '\x85' :: rest => '\n' :: unifyBreaks rest
  | c :: rest => c :: unifyBreaks rest
  | [] => []

/-! ### Lines -/

/-- The lines of a text, each with the character that ends it. -/
def closedLines : List Char → List (List Char)
  | [] => []
  | c :: rest =>
    if isBreak c then [c] :: closedLines rest
    else
      match closedLines rest with
      | [] => [[c]]
      | line :: more => (c :: line) :: more

/-- A line ends here, or a comment starts. -/
def endsLine : List Char → Bool
  | [] => true
  | c :: _ => c == '#' || isBreak c

/-- The line has nothing but spaces and a comment. -/
def isVoid (line : List Char) : Bool :=
  endsLine (line.dropWhile (· == ' '))

/-- Nothing but blanks and a comment follows on the line. -/
def isVoidEnd (rest : List Char) : Bool :=
  endsLine (rest.dropWhile isSpaceOrTab)

/-- The line starts with a mark of three characters. -/
def isMark (mark line : List Char) : Bool :=
  line.take 3 = mark && gapNext (line.drop 3)

/-- The line starts a document. -/
def isStart (line : List Char) : Bool :=
  isMark ['-', '-', '-'] line

/-- The line ends a document. -/
def isEnd (line : List Char) : Bool :=
  isMark ['.', '.', '.'] line && isVoidEnd (line.drop 3)

/-- The line names the version of the language; there are two. -/
def isVersion (line : List Char) : Bool :=
  let number := (line.drop 5).dropWhile isSpaceOrTab
  line.take 5 = ['%', 'Y', 'A', 'M', 'L'] && (line.drop 5).head?.any isSpaceOrTab &&
    (number.take 3 = ['1', '.', '1'] || number.take 3 = ['1', '.', '2']) && isVoidEnd (number.drop 3)

/-- The text of a document. -/
structure Body where
  /-- A mark stands before it on its first line. -/
  marked : Bool
  /-- The text, without the mark. -/
  text : List Char

/-- The text of the only document of some lines; nothing if there are several. -/
def body? (lines : List (List Char)) : Option Body :=
  let start := lines.dropWhile isVoid
  let versioned := start.head?.any isVersion
  let start := if versioned then start.tail.dropWhile isVoid else start
  let marked := start.head?.any isStart
  let unmarked := match start with
    | first :: rest => if marked then first.drop 3 :: rest else first :: rest
    | [] => []
  let content := unmarked.takeWhile fun line => !isStart line && !isMark ['.', '.', '.'] line
  let beyond := unmarked.drop content.length
  let closed := (beyond.head?.all isEnd) && beyond.all fun line => isVoid line || isEnd line
  let present := beyond.isEmpty || marked || !content.all isVoid
  if closed && present && (marked || !versioned) then some ⟨marked, content.flatten⟩ else none

end Yaml
end TableFlow
