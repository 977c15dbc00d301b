import TableFlow.Decimal.Reading
import TableFlow.Json.Value

/-!
# Reading JSON

The grammar of JSON over `List Char`.  Values may nest 127 levels deep.  A whole number that fits into 64
bits stays whole; any other number is the nearest double, and one beyond the greatest double is refused.  The
members of an object are kept in the order of the text, with repetitions.
-/

namespace TableFlow
namespace Json

open Text (isDigit digitsValue)

/-- How messages name the reason why a text is not in a stored format. -/
def malformed : String := "<parser error>"

/-- Levels of nesting that are accepted. -/
def maxDepth : Nat := 127

/-- The blanks of JSON. -/
def isSpace (c : Char) : Bool :=
  c == ' ' || c == '\n' || c == '\t' || c == '\r'

/-- The text after its leading blanks. -/
def skip (s : List Char) : List Char :=
  s.dropWhile isSpace

/-- The value of a hexadecimal digit. -/
def hexValue? (c : Char) : Option Nat :=
  if '0' ≤ c && c ≤ '9' then some (c.toNat - 48)
  else if 'a' ≤ c && c ≤ 'f' then some (c.toNat - 87)
  else if 'A' ≤ c && c ≤ 'F' then some (c.toNat - 55)
  else none

/-- The value of four hexadecimal digits. -/
def unit? (a b c d : Char) : Option Nat := do
  let a ← hexValue? a
  let b ← hexValue? b
  let c ← hexValue? c
  let d ← hexValue? d
  pure (((a * 16 + b) * 16 + c) * 16 + d)

/-- The character that a letter after a backslash stands for. -/
def escape? (c : Char) : Option Char :=
  match c with
  | '"' => some '"'
  | '\\' => some '\\'
  | '/' => some '/'
  | 'b' => some '\x08'
  | 'f' => some '\x0c'
  | 'n' => some '\n'
  | 'r' => some '\r'
  | 't' => some '\t'
  | _ => none

/-- One more character in front of a text that has been read. -/
def before (c : Char) : Option (List Char × List Char) → Option (List Char × List Char)
  | none => none
  | some (text, rest) => some (c :: text, rest)

/-- The text up to the closing quote, and what follows the quote. -/
def stringBody? : List Char → Option (List Char × List Char)
  | [] => none
  | '"' :: rest => some ([], rest)
  | '\\' :: 'u' :: a :: b :: c :: d :: '\\' :: 'u' :: e :: f :: g :: h :: rest =>
    match unit? a b c d with
    | none => none
    | some high =>
      if 0xD800 ≤ high && high < 0xDC00 then
        match unit? e f g h with
        | none => none
        | some low =>
          if 0xDC00 ≤ low && low < 0xE000 then
            before (Char.ofNat (0x10000 + (high - 0xD800) * 1024 + (low - 0xDC00)))
              (stringBody? rest)
          else none
      else if 0xDC00 ≤ high && high < 0xE000 then none
      else before (Char.ofNat high) (stringBody? ('\\' :: 'u' :: e :: f :: g :: h :: rest))
  | '\\' :: 'u' :: a :: b :: c :: d :: rest =>
    match unit? a b c d with
    | none => none
    | some n =>
      if 0xD800 ≤ n && n < 0xE000 then none
      else before (Char.ofNat n) (stringBody? rest)
  | '\\' :: c :: rest =>
    match escape? c with
    | none => none
    | some plain => before plain (stringBody? rest)
  | c :: rest => if c.toNat < 32 || c == '\\' then none else before c (stringBody? rest)

/-- A number as it is spelled. -/
structure NumberText where
  negative : Bool
  whole : List Char
  /-- The digits after the point, if there is one. -/
  fraction : Option (List Char)
  /-- The exponent, if there is one. -/
  exponent : Option Int
  deriving Repr

/-- The number that a spelling denotes, unless it is beyond the greatest double. -/
def NumberText.value? (t : NumberText) : Option Number :=
  let n : Int := digitsValue t.whole
  let signed := if t.negative then -n else n
  if t.fraction.isNone && t.exponent.isNone && Number.fits signed &&
      !(t.negative && n == 0) then some (.int signed)
  else
    let x := Decimal.Spelled.value t.negative
      ⟨t.whole, t.fraction.getD [], t.exponent.getD 0⟩
    if Decimal.isFinite x then some (.float x) else none

/-- The digits in front, at least one, and the rest. -/
def digits? (s : List Char) : Option (List Char × List Char) :=
  let digits := s.takeWhile isDigit
  if digits.isEmpty then none else some (digits, s.dropWhile isDigit)

/-- The whole part: one zero, or digits that do not start with a zero. -/
def whole? (s : List Char) : Option (List Char × List Char) :=
  match s with
  | '0' :: c :: rest => if isDigit c then none else some (['0'], c :: rest)
  | all => digits? all

/-- The fraction, if there is a point. -/
def fraction? (s : List Char) : Option (Option (List Char) × List Char) :=
  match s with
  | '.' :: rest => (digits? rest).map fun (digits, after) => (some digits, after)
  | all => some (none, all)

/-- The exponent, if there is a mark for one. -/
def exponent? (s : List Char) : Option (Option Int × List Char) :=
  match s with
  | c :: rest =>
    if c == 'e' || c == 'E' then
      match rest with
      | '-' :: rest => (digits? rest).map fun (digits, after) => (some (-(digitsValue digits : Int)), after)
      | '+' :: rest => (digits? rest).map fun (digits, after) => (some (digitsValue digits : Int), after)
      | rest => (digits? rest).map fun (digits, after) => (some (digitsValue digits : Int), after)
    else some (none, c :: rest)
  | [] => some (none, [])

/-- The number in front as it is spelled, and the rest. -/
def numberText? (s : List Char) : Option (NumberText × List Char) := do
  let (negative, s) := match s with
    | '-' :: rest => (true, rest)
    | all => (false, all)
  let (whole, s) ← whole? s
  let (fraction, s) ← fraction? s
  let (exponent, s) ← exponent? s
  pure (⟨negative, whole, fraction, exponent⟩, s)

/-- The number in front, and the rest. -/
def number? (s : List Char) : Option (Number × List Char) := do
  let (spelled, rest) ← numberText? s
  let n ← spelled.value?
  pure (n, rest)

/-- A word at the start of the text, and the rest. -/
def word? {α : Type} (word : List Char) (value : α) (s : List Char) : Option (α × List Char) :=
  if s.take word.length = word then some (value, s.drop word.length) else none

mutual

/-- The value in front, and the rest.  The fuel bounds the number of calls; `depth` the levels left. -/
def value? : (fuel depth : Nat) → List Char → Option (Json × List Char)
  | 0, _, _ => none
  | fuel + 1, depth, s =>
    match skip s with
    | '"' :: rest => (stringBody? rest).map fun (text, after) => (.string (String.ofList text), after)
    | '[' :: rest =>
      match depth with
      | 0 => none
      | depth + 1 =>
        match skip rest with
        | ']' :: after => some (.array [], after)
        | rest => (items? fuel depth rest).map fun (items, after) => (.array items, after)
    | '{' :: rest =>
      match depth with
      | 0 => none
      | depth + 1 =>
        match skip rest with
        | '}' :: after => some (.object [], after)
        | rest => (members? fuel depth rest).map fun (members, after) => (.object members, after)
    | 'n' :: rest => word? ['n', 'u', 'l', 'l'] .null ('n' :: rest)
    | 't' :: rest => word? ['t', 'r', 'u', 'e'] (.bool true) ('t' :: rest)
    | 'f' :: rest => word? ['f', 'a', 'l', 's', 'e'] (.bool false) ('f' :: rest)
    | rest => (number? rest).map fun (n, after) => (.number n, after)

/-- The items of an array up to its end. -/
def items? : (fuel depth : Nat) → List Char → Option (List Json × List Char)
  | 0, _, _ => none
  | fuel + 1, depth, s =>
    match value? fuel depth s with
    | none => none
    | some (item, s) =>
      match skip s with
      | ',' :: rest => (items? fuel depth rest).map fun (items, after) => (item :: items, after)
      | ']' :: rest => some ([item], rest)
      | _ => none

/-- The members of an object up to its end. -/
def members? : (fuel depth : Nat) → List Char → Option (List (String × Json) × List Char)
  | 0, _, _ => none
  | fuel + 1, depth, s =>
    match skip s with
    | '"' :: rest =>
      match stringBody? rest with
      | none => none
      | some (key, s) =>
        match skip s with
        | ':' :: rest =>
          match value? fuel depth rest with
          | none => none
          | some (value, s) =>
            let member := (String.ofList key, value)
            match skip s with
            | ',' :: rest =>
              (members? fuel depth rest).map fun (members, after) => (member :: members, after)
            | '}' :: rest => some ([member], rest)
            | _ => none
        | _ => none
    | _ => none

end

/-- The value that a text spells, with nothing but blanks around it. -/
def parseChars? (s : List Char) : Option Json :=
  match value? (2 * s.length + 2) maxDepth s with
  | some (value, rest) => if (skip rest).isEmpty then some value else none
  | none => none

/-- The value that a text spells. -/
def parse? (s : String) : Option Json :=
  parseChars? s.toList

end Json
end TableFlow
