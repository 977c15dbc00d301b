import TableFlow.Stored.Document

/-!
# Scalars of YAML

What a scalar without quotes stands for: null, a truth value, a number, or a text if it is none of these.
-/

namespace TableFlow
namespace Yaml

open Text (isDigit digitsValue)

/-- The value of a digit in a base up to sixteen. -/
def digitIn? (base : Nat) (c : Char) : Option Nat :=
  (Json.hexValue? c).filter (· < base)

/-- The number that digits of a base spell. -/
def naturalIn? (base : Nat) (digits : List Char) : Option Nat :=
  if digits.isEmpty then none
  else digits.foldlM (fun n c => (digitIn? base c).map fun d => base * n + d) 0

/-- Digits that do not spell a number, because they start with a zero that is not needed. -/
def isPadded (s : List Char) : Bool :=
  match s with
  | '0' :: rest => !rest.isEmpty && rest.all isDigit
  | _ => false

/-- The whole number that a text without a sign spells, in one of four bases. -/
def whole? (s : List Char) : Option Nat :=
  match s with
  | '0' :: 'x' :: rest => naturalIn? 16 rest
  | '0' :: 'o' :: rest => naturalIn? 8 rest
  | '0' :: 'b' :: rest => naturalIn? 2 rest
  | all => if isPadded all then none else naturalIn? 10 all

/-- The sign in front of a number, and the rest. -/
def sign (s : List Char) : Bool × List Char :=
  match s with
  | '-' :: rest => (true, rest)
  | '+' :: rest => (false, rest)
  | all => (false, all)

/-- The number that is not whole, or the word for a value that is not finite, that a text spells. -/
def fractional? (s : List Char) : Option Float :=
  let (negative, body) := sign s
  let word := String.ofList body
  if word = ".inf" || word = ".Inf" || word = ".INF" then
    some (if negative then -(1.0 / 0.0) else 1.0 / 0.0)
  else if s = body && (word = ".nan" || word = ".NaN" || word = ".NAN") then some (0.0 / 0.0)
  else if isPadded body || (Decimal.Spelled.ofChars? body).isNone then none
  else (Decimal.readChars? s).filter Decimal.isFinite

/-- The number that a text spells. -/
def number? (s : List Char) : Option Number :=
  let (negative, body) := sign s
  match whole? body with
  | some n => some (.int (if negative then -n else n))
  | none => (fractional? s).map .float

/-- The text is a word for null. -/
def isNull (s : String) : Bool :=
  s = "~" || s = "null" || s = "Null" || s = "NULL"

/-- The truth value that a text is a word for. -/
def flag? (s : String) : Option Bool :=
  if s = "true" || s = "True" || s = "TRUE" then some true
  else if s = "false" || s = "False" || s = "FALSE" then some false
  else none

/-- What a scalar without quotes stands for. -/
def plain (s : String) : Document :=
  if s = "" then .blank
  else if isNull s then .null
  else
    match flag? s, number? s.toList with
    | some b, _ => .flag b
    | none, some n => .number n
    | none, none => .text s

end Yaml
end TableFlow
