import TableFlow.Text.Utf8
import TableFlow.Yaml.Line
import TableFlow.Yaml.Scalar

/-!
# Writing YAML

Documents in block style.  A text is written plainly when it reads back as itself, in single quotes when it
would read as something else or has signs of the syntax in it, in double quotes when it has characters that
need an escape, and as a literal block when it has several lines.
-/

namespace TableFlow
namespace Yaml

/-- A character that needs no escape. -/
def isShown (c : Char) : Bool :=
  let n := c.toNat
  n == 10 || (0x20 ≤ n && n ≤ 0x7E) || (0xA0 ≤ n && n ≤ 0xFFFD && n != 0xFEFF) || 0x10000 ≤ n

/-- What a text has in it that bears on how it can be written. -/
structure Traits where
  /-- It has signs of the syntax of blocks. -/
  indicators : Bool
  /-- It has several lines. -/
  broken : Bool
  /-- It starts or ends with a space or the end of a line. -/
  ragged : Bool
  /-- It ends with a space. -/
  trailingSpace : Bool
  /-- The end of a line stands before a space. -/
  breakSpace : Bool
  /-- It has a character that needs an escape, or a space before the end of a line. -/
  special : Bool

/-- The characters that are signs of the syntax at the start of a text. -/
def leadSigns : List Char :=
  ['#', ',', '[', ']', '\x7b', '\x7d', '&', '*', '!', '|', '>', '\'', '"', '%', '@', '\x60']

/-- The first character is a sign of the syntax. -/
def leadIndicates : List Char → Bool
  | [] => false
  | c :: rest => leadSigns.contains c || ((c == '?' || c == ':' || c == '-') && gapNext rest)

/-- A later character is a sign of the syntax. -/
def laterIndicates : (afterGap : Bool) → List Char → Bool
  | _, [] => false
  | afterGap, c :: rest =>
    (c == ':' && gapNext rest) || (c == '#' && afterGap) || laterIndicates (isGap c) rest

/-- Some two characters that stand next to each other pass the test. -/
def anyPair (test : Char → Char → Bool) : List Char → Bool
  | a :: b :: rest => test a b || anyPair test (b :: rest)
  | _ => false

/-- The traits of a text. -/
def traits (s : List Char) : Traits where
  indicators :=
    s.take 3 = ['-', '-', '-'] || s.take 3 = ['.', '.', '.'] || leadIndicates s ||
      (match s with
       | [] => false
       | c :: rest => laterIndicates (isGap c) rest)
  broken := s.any isBreak
  ragged :=
    (s.head?.any fun c => c == ' ' || isBreak c) || (s.getLast?.any fun c => c == ' ' || isBreak c)
  trailingSpace := s.getLast? == some ' '
  breakSpace := anyPair (fun a b => isBreak a && b == ' ') s
  special := s.any (fun c => !isShown c) || anyPair (fun a b => a == ' ' && isBreak b) s

/-- Spaces in front of a line. -/
def spaces (n : Nat) : List Char :=
  List.replicate n ' '

/-- Lines with spaces in front of each that is not empty. -/
def indented (indent : Nat) : (fresh : Bool) → List Char → List Char
  | _, [] => []
  | fresh, c :: rest =>
    if isBreak c then c :: indented indent true rest
    else (if fresh then spaces indent else []) ++ c :: indented indent false rest

/-- A text in single quotes, where a single quote is written twice. -/
def singleQuoted (indent : Nat) (s : List Char) : List Char :=
  let body := indented indent false (s.flatMap fun c => if c = '\'' then ['\'', '\''] else [c])
  '\'' :: body ++ (if s.getLast?.any isBreak then spaces indent else []) ++ ['\'']

/-- A number in so many upper case hexadecimal digits. -/
def hexDigits (width n : Nat) : List Char :=
  let digits := (Nat.toDigits 16 n).map Char.toUpper
  List.replicate (width - digits.length) '0' ++ digits

/-- A character in double quotes. -/
def escaped (c : Char) : List Char :=
  match c with
  | '\x00' => ['\\', '0']
  | '\x07' => ['\\', 'a']
  | '\x08' => ['\\', 'b']
  | '\t' => ['\\', 't']
  | '\n' => ['\\', 'n']
  | '\x0b' => ['\\', 'v']
  | '\x0c' => ['\\', 'f']
  | '\r' => ['\\', 'r']
  | '\x1b' => ['\\', 'e']
  | '"' => ['\\', '"']
  | '\\' => ['\\', '\\']
  | '\x85' => ['\\', 'N']
  | '\u2028' => ['\\', 'L']
  | '\u2029' => ['\\', 'P']
  | c =>
    if isShown c then [c]
    else if c.toNat ≤ 0xFF then '\\' :: 'x' :: hexDigits 2 c.toNat
    else if c.toNat ≤ 0xFFFF then '\\' :: 'u' :: hexDigits 4 c.toNat
    else '\\' :: 'U' :: hexDigits 8 c.toNat

/-- A text in double quotes. -/
def doubleQuoted (s : List Char) : List Char :=
  '"' :: s.flatMap escaped ++ ['"']

/-- How the end of a literal block is kept: not at all, as one end of a line, or as several. -/
def chomping (s : List Char) : List Char :=
  match s.reverse with
  | [] => ['-']
  | last :: before =>
    if !isBreak last then ['-']
    else
      match before with
      | [] => ['+']
      | c :: _ => if isBreak c then ['+'] else []

/-- A text as a literal block. -/
def literal (indent : Nat) (s : List Char) : List Char :=
  let hint := if s.head?.any fun c => c == ' ' || isBreak c then ['2'] else []
  '|' :: hint ++ chomping s ++ '\n' :: indented indent true s

/-- The rest of a line, with its end. -/
def endLine (s : List Char) : List Char :=
  if s.getLast?.any isBreak then s else s ++ ['\n']

/-- A text, with later lines of it indented. -/
def textChars (indent : Nat) (s : String) : List Char :=
  let letters := s.toList
  let t := traits letters
  let quoted :=
    if t.breakSpace || t.special then doubleQuoted letters else singleQuoted indent letters
  if letters.contains '\n' then
    if t.trailingSpace || t.special then doubleQuoted letters else literal indent letters
  else
    match plain s with
    | .text _ =>
      if Yaml.isPadded (sign letters).2 || t.indicators || t.broken || t.ragged || t.special
      then quoted else letters
    | _ => quoted

/-- A value that stands on one line, or a text; the rest of its line follows. -/
def leaf (indent : Nat) : Document → List Char
  | .blank => ['\n']
  | .null => "null\n".toList
  | .flag b => (if b then "true\n" else "false\n").toList
  | .number n => n.chars ++ ['\n']
  | .text s => endLine (textChars indent s)
  | .list _ => "[]\n".toList
  | .record _ => "\x7b\x7d\n".toList
  | .unreadable => "null\n".toList

/-- The key stands on one line before its colon. -/
def isSimpleKey : Document → Bool
  | .text s => !(s.toList.any isBreak) && (Text.bytes s).length ≤ 128
  | _ => true

/-- A key with its colon. -/
def keyChars (indent : Nat) (key : Document) : List Char :=
  if isSimpleKey key then (leaf (indent + 2) key).dropLast ++ [':']
  else '?' :: ' ' :: leaf (indent + 2) key ++ spaces indent ++ [':']

mutual

/-- A value after the dash of an item, with its later lines indented. -/
def itemChars (indent : Nat) : Document → List Char
  | .list (item :: rest) => itemLines indent (item :: rest)
  | .record (member :: rest) => memberLines indent (member :: rest)
  | other => leaf indent other

/-- The items of a list; the first one starts where the line stands. -/
def itemLines (indent : Nat) : List Document → List Char
  | [] => []
  | item :: rest =>
    '-' :: ' ' :: itemChars (indent + 2) item ++
      (if rest.isEmpty then [] else spaces indent) ++ itemLines indent rest

/-- A value after the colon of a key. -/
def valueChars (indent : Nat) : Document → List Char
  | .list (item :: rest) => '\n' :: spaces indent ++ itemLines indent (item :: rest)
  | .record (member :: rest) =>
    '\n' :: spaces (indent + 2) ++ memberLines (indent + 2) (member :: rest)
  | other => ' ' :: leaf (indent + 2) other

/-- The members of a record; the first one starts where the line stands. -/
def memberLines (indent : Nat) : List (Document × Document) → List Char
  | [] => []
  | (key, value) :: rest =>
    keyChars indent key ++ valueChars indent value ++
      (if rest.isEmpty then [] else spaces indent) ++ memberLines indent rest

end

/-- A document as YAML. -/
def text (d : Document) : String :=
  String.ofList (itemChars 0 d)

end Yaml
end TableFlow
