import TableFlow.Decimal.Layout
import TableFlow.Json.Value
import TableFlow.Text.Quoted

/-!
# Writing JSON

Two layouts of a value: on one line without blanks, and over several lines with two blanks of indentation
for each level.  A text escapes quotes, backslashes and control characters and nothing else.
-/

namespace TableFlow

/-- A number as JSON spells it: whole numbers by their digits, doubles always with a point or an exponent. -/
def Number.chars : Number → List Char
  | .int n => if n < 0 then '-' :: Nat.toDigits 10 n.natAbs else Nat.toDigits 10 n.natAbs
  | .float x => Decimal.Layout.stored.chars x

namespace Json

/-- One character of a text. -/
def escapeChar (c : Char) : List Char :=
  match c with
  | '"' => ['\\', '"']
  | '\\' => ['\\', '\\']
  | '\x08' => ['\\', 'b']
  | '\x0c' => ['\\', 'f']
  | '\n' => ['\\', 'n']
  | '\r' => ['\\', 'r']
  | '\t' => ['\\', 't']
  | c =>
    if c.toNat < 32 then
      ['\\', 'u', '0', '0', Text.hexDigit (c.toNat / 16), Text.hexDigit (c.toNat % 16)]
    else [c]

/-- A text between quotes. -/
def stringChars (s : String) : List Char :=
  '"' :: s.toList.flatMap escapeChar ++ ['"']

mutual

/-- A value on one line. -/
def compactChars : Json → List Char
  | .null => ['n', 'u', 'l', 'l']
  | .bool true => ['t', 'r', 'u', 'e']
  | .bool false => ['f', 'a', 'l', 's', 'e']
  | .number n => n.chars
  | .string s => stringChars s
  | .array [] => ['[', ']']
  | .array (item :: rest) => '[' :: item.compactChars ++ compactItems rest
  | .object [] => ['{', '}']
  | .object ((key, value) :: rest) =>
    '{' :: stringChars key ++ ':' :: value.compactChars ++ compactMembers rest

/-- The items after the first, and the end of the array. -/
def compactItems : List Json → List Char
  | [] => [']']
  | item :: rest => ',' :: item.compactChars ++ compactItems rest

/-- The members after the first, and the end of the object. -/
def compactMembers : List (String × Json) → List Char
  | [] => ['}']
  | (key, value) :: rest =>
    ',' :: stringChars key ++ ':' :: value.compactChars ++ compactMembers rest

end

/-- A new line with the indentation of a level. -/
def newLine (level : Nat) : List Char :=
  '\n' :: List.replicate (2 * level) ' '

mutual

/-- A value over several lines, at a level of indentation. -/
def prettyChars (level : Nat) : Json → List Char
  | .null => ['n', 'u', 'l', 'l']
  | .bool true => ['t', 'r', 'u', 'e']
  | .bool false => ['f', 'a', 'l', 's', 'e']
  | .number n => n.chars
  | .string s => stringChars s
  | .array [] => ['[', ']']
  | .array (item :: rest) =>
    '[' :: newLine (level + 1) ++ item.prettyChars (level + 1) ++ prettyItems level rest
  | .object [] => ['{', '}']
  | .object ((key, value) :: rest) =>
    '{' :: newLine (level + 1) ++ stringChars key ++ ':' :: ' ' ::
      value.prettyChars (level + 1) ++ prettyMembers level rest

/-- The items after the first, and the end of the array. -/
def prettyItems (level : Nat) : List Json → List Char
  | [] => newLine level ++ [']']
  | item :: rest =>
    ',' :: newLine (level + 1) ++ item.prettyChars (level + 1) ++ prettyItems level rest

/-- The members after the first, and the end of the object. -/
def prettyMembers (level : Nat) : List (String × Json) → List Char
  | [] => newLine level ++ ['}']
  | (key, value) :: rest =>
    ',' :: newLine (level + 1) ++ stringChars key ++ ':' :: ' ' ::
      value.prettyChars (level + 1) ++ prettyMembers level rest

end

/-- A value on one line. -/
def compact (j : Json) : String :=
  String.ofList j.compactChars

/-- A value over several lines. -/
def pretty (j : Json) : String :=
  String.ofList (j.prettyChars 0)

end Json
end TableFlow
