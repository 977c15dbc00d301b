import TableFlow.Decimal.Round
import TableFlow.Text.Digit

/-!
# Reading decimals

A number is an optional sign followed by `inf`, `infinity` or `nan` in any case, or by digits with at most one
point among them or at either end, and an optional exponent.  It denotes the double nearest to its value.
-/

namespace TableFlow
namespace Decimal

open Text (isDigit digitsValue)

/-- An unsigned decimal as it is spelled. -/
structure Spelled where
  /-- The digits before the point. -/
  whole : List Char
  /-- The digits after the point. -/
  fraction : List Char
  /-- The exponent. -/
  exponent : Int
  deriving DecidableEq, Repr

/-- The double nearest to `digits * 10 ^ exponent`, where `digits` has `count` digits at most.  Exponents
far outside the range of doubles are settled without computing the power. -/
def nearest (negative : Bool) (digits count : Nat) (exponent : Int) : Float :=
  if digits = 0 then ofQuotient negative 0 1
  else if 400 < exponent then Float.ofBits (if negative then 0xFFF0000000000000 else 0x7FF0000000000000)
  else if exponent + count < -400 then ofQuotient negative 0 1
  else if 0 ≤ exponent then ofQuotient negative (digits * Nat.pow 10 exponent.toNat) 1
  else ofQuotient negative digits (Nat.pow 10 (-exponent).toNat)

/-- The double nearest to a spelled decimal. -/
def Spelled.value (negative : Bool) (s : Spelled) : Float :=
  let digits := s.whole ++ s.fraction
  nearest negative (digitsValue digits) digits.length (s.exponent - s.fraction.length)

/-- The exponent that a text spells: an optional sign and at least one digit. -/
def exponent? (s : List Char) : Option Int :=
  let (negative, digits) := match s with
    | '-' :: rest => (true, rest)
    | '+' :: rest => (false, rest)
    | all => (false, all)
  if digits.isEmpty || !digits.all isDigit then none
  else
    let n : Int := digitsValue digits
    some (if negative then -n else n)

/-- The rest of a spelled decimal after its digits. -/
def Spelled.finish? (whole fraction rest : List Char) : Option Spelled :=
  if whole.isEmpty && fraction.isEmpty then none
  else
    match rest with
    | [] => some ⟨whole, fraction, 0⟩
    | c :: tail =>
      if c == 'e' || c == 'E' then (exponent? tail).map fun e => ⟨whole, fraction, e⟩ else none

/-- Read an unsigned decimal. -/
def Spelled.ofChars? (s : List Char) : Option Spelled :=
  let whole := s.takeWhile isDigit
  match s.dropWhile isDigit with
  | '.' :: rest => Spelled.finish? whole (rest.takeWhile isDigit) (rest.dropWhile isDigit)
  | rest => Spelled.finish? whole [] rest

/-- Read an unsigned number, or one of the words for values that are not finite. -/
def unsigned? (negative : Bool) (s : List Char) : Option Float :=
  match Spelled.ofChars? s with
  | some spelled => some (spelled.value negative)
  | none =>
    let word := s.map Char.toLower
    if word = "inf".toList || word = "infinity".toList then
      some (if negative then -(1.0 / 0.0) else 1.0 / 0.0)
    else if word = "nan".toList then some (0.0 / 0.0)
    else none

/-- Read a number. -/
def readChars? : List Char → Option Float
  | '-' :: rest => unsigned? true rest
  | '+' :: rest => unsigned? false rest
  | all => unsigned? false all

/-- The double that a text denotes. -/
def read? (s : String) : Option Float :=
  readChars? s.toList

/-- The finite double that a text denotes. -/
def readFinite? (s : String) : Option Float :=
  (read? s).filter isFinite

end Decimal
end TableFlow
