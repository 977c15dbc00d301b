import TableFlow.Yaml.Place
import TableFlow.Yaml.Scalar

/-!
# Scalars in running text

Scalars without quotes, in single quotes and in double quotes.  Their lines fold: a line ends as a space, and
an empty line as the end of a line.
-/

namespace TableFlow
namespace Yaml

/-! ### Scalars without quotes -/

/-- A sign of the syntax in brackets. -/
def isFlowSign (c : Char) : Bool :=
  c == ',' || c == '[' || c == ']' || c == '\x7b' || c == '\x7d'

/-- A colon in brackets directly before another sign of the syntax. -/
def isPressedColon : List Char → Bool
  | ':' :: c :: _ => isFlowSign c || c == '?'
  | _ => false

/-- A scalar without quotes may start here. -/
def startsPlain (flow : Bool) : List Char → Bool
  | [] => false
  | c :: rest =>
    if c = '-' then !gapNext rest
    else if c = '?' || c = ':' then !flow && !gapNext rest
    else
      !(isGap c || isFlowSign c || c == '#' || c == '&' || c == '*' || c == '!' ||
        c == '|' || c == '>' || c == '\'' || c == '"' || c == '%' || c == '@' || c == '\x60')

/-- The part of a scalar without quotes that stands on this line, and what follows it. -/
def plainRun (flow : Bool) : (afterBlank : Bool) → List Char → List Char × List Char
  | _, [] => ([], [])
  | afterBlank, c :: rest =>
    if isBreak c || (c = '#' && afterBlank) || (c = ':' && gapNext rest) ||
        (flow && (isFlowSign c || isPressedColon (c :: rest)))
    then ([], c :: rest)
    else
      let (run, after) := plainRun flow (isSpaceOrTab c) rest
      (c :: run, after)

/-- A line without the blanks at its end. -/
def trimEnd (s : List Char) : List Char :=
  (s.reverse.dropWhile isSpaceOrTab).reverse

/-- A tab stands before the next content where its line has to be indented by spaces. -/
def tabIndents (least : Nat) : (crossed : Bool) → (column : Nat) → List Char → Bool
  | _, _, [] => false
  | crossed, column, c :: rest =>
    if isBreak c then tabIndents least true 0 rest
    else if c = '\t' && crossed && column < least then true
    else if isSpaceOrTab c then tabIndents least crossed (column + 1) rest
    else false

/-- Lines of a scalar without quotes, and what follows them; later lines start at `least` or to the right of
it.  What lies between the scalar and content on a later line of a block is spelled with spaces only. -/
def plainLines? (flow : Bool) (least : Nat) : (fuel : Nat) → List Char → Option (List Char × List Char)
  | 0, s => some ([], s)
  | fuel + 1, s =>
    let (run, after) := plainRun flow false s
    let content := trimEnd run
    if !after.head?.any isBreak then
      if flow && isPressedColon after then none else some (content, after)
    else if tabIndents least false 0 after then none
    else
      let (breaks, place) := lineGap 0 after
      let goesOn := place.rest.head?.any (· != '#') && (flow || least ≤ place.column) &&
        !(plainRun flow false place.rest).1.isEmpty
      if goesOn then
        (plainLines? flow least fuel place.rest).map fun (more, after) =>
          (content ++ joint breaks ++ more, after)
      else if flow then
        if isPressedColon place.rest then none else some (content, after)
      else some (content, '\n' :: List.replicate place.column ' ' ++ place.rest)

/-! ### Scalars in quotes -/

/-- The blanks in front and what follows them. -/
def splitBlanks (s : List Char) : List Char × List Char :=
  (s.takeWhile isSpaceOrTab, s.dropWhile isSpaceOrTab)

/-- The text in single quotes after the first quote, and what follows the last one. -/
def singleBody? : (fuel : Nat) → List Char → Option (List Char × List Char)
  | 0, _ => none
  | fuel + 1, s =>
    match s with
    | [] => none
    | '\'' :: '\'' :: rest => (singleBody? fuel rest).map fun (text, after) => ('\'' :: text, after)
    | '\'' :: rest => some ([], rest)
    | c :: rest =>
      let (blanks, beyond) := splitBlanks (c :: rest)
      if beyond.head?.any isBreak then
        let (breaks, place) := lineGap 0 beyond
        (singleBody? fuel place.rest).map fun (text, after) => (joint breaks ++ text, after)
      else if blanks.isEmpty then (singleBody? fuel rest).map fun (text, after) => (c :: text, after)
      else (singleBody? fuel beyond).map fun (text, after) => (blanks ++ text, after)

/-- The character that a letter after a backslash stands for. -/
def escape? (c : Char) : Option Char :=
  match c with
  | '0' => some '\x00'
  | 'a' => some '\x07'
  | 'b' => some '\x08'
  | 't' => some '\t'
  | '\t' => some '\t'
  | 'n' => some '\n'
  | 'v' => some '\x0b'
  | 'f' => some '\x0c'
  | 'r' => some '\r'
  | 'e' => some '\x1b'
  | ' ' => some ' '
  | '"' => some '"'
  | '/' => some '/'
  | '\\' => some '\\'
  | 'N' => some '\x85'
  | '_' => some '\xa0'
  | 'L' => some '\u2028'
  | 'P' => some '\u2029'
  | _ => none

/-- How many hexadecimal digits follow a letter after a backslash. -/
def escapeWidth (c : Char) : Nat :=
  if c = 'x' then 2 else if c = 'u' then 4 else if c = 'U' then 8 else 0

/-- The character of a code point. -/
def character? (n : Nat) : Option Char :=
  if n < 0xD800 || (0xDFFF < n && n < 0x110000) then some (Char.ofNat n) else none

/-- The text in double quotes after the first quote, and what follows the last one. -/
def doubleBody? : (fuel : Nat) → List Char → Option (List Char × List Char)
  | 0, _ => none
  | fuel + 1, s =>
    match s with
    | [] => none
    | '"' :: rest => some ([], rest)
    | '\\' :: c :: rest =>
      if isBreak c then
        let (breaks, place) := lineGap 0 rest
        (doubleBody? fuel place.rest).map fun (text, after) => (breaks ++ text, after)
      else
        let width := escapeWidth c
        let value? := if width = 0 then escape? c
          else if rest.length < width then none
          else (naturalIn? 16 (rest.take width)).bind character?
        match value? with
        | none => none
        | some value =>
          (doubleBody? fuel (rest.drop width)).map fun (text, after) => (value :: text, after)
    | c :: rest =>
      let (blanks, beyond) := splitBlanks (c :: rest)
      if beyond.head?.any isBreak then
        let (breaks, place) := lineGap 0 beyond
        (doubleBody? fuel place.rest).map fun (text, after) => (joint breaks ++ text, after)
      else if blanks.isEmpty then (doubleBody? fuel rest).map fun (text, after) => (c :: text, after)
      else (doubleBody? fuel beyond).map fun (text, after) => (blanks ++ text, after)

/-- A quote starts a scalar here. -/
def startsQuoted : List Char → Bool
  | c :: _ => c == '\'' || c == '"'
  | [] => false

/-- The text in quotes, and what follows it. -/
def quoted? (s : List Char) : Option (List Char × List Char) :=
  match s with
  | '\'' :: rest => singleBody? (rest.length + 1) rest
  | '"' :: rest => doubleBody? (rest.length + 1) rest
  | _ => none

end Yaml
end TableFlow
