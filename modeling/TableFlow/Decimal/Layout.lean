import TableFlow.Decimal.Round
import TableFlow.Decimal.Shortest

/-!
# Layouts of decimals

How the digits of a double are written: where positional notation ends, whether a whole number keeps a
point, and what stands for the values that are not finite.  Two layouts share one way of choosing digits.
-/

namespace TableFlow
namespace Decimal

/-- The choices of a decimal layout. -/
structure Layout where
  /-- A number is written positionally when its point stands this many places after the first digit. -/
  positional : Int → Bool
  /-- What follows a whole number that is written positionally. -/
  wholeEnd : String
  /-- The text of what is not a number. -/
  nan : String
  /-- The text of the positive infinity. -/
  infinity : String
  /-- The text of the negative infinity. -/
  negativeInfinity : String

/-- Numbers in messages and keys: never an exponent, and no point in a whole number. -/
def Layout.plain : Layout where
  positional := fun _ => true
  wholeEnd := ""
  nan := "NaN"
  infinity := "inf"
  negativeInfinity := "-inf"

/-- Numbers in stored data: positional from `1e-5` to below `1e16`, always with a point or an exponent, and
nothing but finite values. -/
def Layout.stored : Layout where
  positional := fun point => -5 < point && point ≤ 16
  wholeEnd := ".0"
  nan := "null"
  infinity := "null"
  negativeInfinity := "null"

/-- Zeros to fill places. -/
def zeros (n : Nat) : List Char :=
  List.replicate n '0'

/-- The digits with a point after the first `point` places. -/
def placed (wholeEnd : String) (digits : List Char) (point : Int) : List Char :=
  if point ≤ 0 then '0' :: '.' :: zeros (-point).toNat ++ digits
  else if digits.length ≤ point.toNat then
    digits ++ zeros (point.toNat - digits.length) ++ wholeEnd.toList
  else digits.take point.toNat ++ '.' :: digits.drop point.toNat

/-- The digits with a point after the first and an exponent. -/
def scientific (digits : List Char) (point : Int) : List Char :=
  let power := point - 1
  let mark := if power < 0 then ['e', '-'] else ['e', '+']
  let mantissa := match digits with
    | first :: second :: rest => first :: '.' :: second :: rest
    | short => short
  mantissa ++ mark ++ Nat.toDigits 10 power.natAbs

/-- The digits without zeros at the end. -/
def trimZeros (digits : List Char) : List Char :=
  (digits.reverse.dropWhile (· == '0')).reverse

/-- A positive decimal in a layout. -/
def Layout.digits (layout : Layout) (d : Digits) : List Char :=
  let all := Nat.toDigits 10 d.digits
  let point := (all.length : Int) + d.exponent
  let kept := trimZeros all
  if layout.positional point then placed layout.wholeEnd kept point else scientific kept point

/-- A double in a layout. -/
def Layout.chars (layout : Layout) (x : Float) : List Char :=
  match Binary.ofFloat x with
  | .nan => layout.nan.toList
  | .infinite negative => (if negative then layout.negativeInfinity else layout.infinity).toList
  | .finite negative m q =>
    let body := if m = 0 then '0' :: layout.wholeEnd.toList else layout.digits (shortest m q)
    if negative then '-' :: body else body

/-- A double in a layout. -/
def Layout.text (layout : Layout) (x : Float) : String :=
  String.ofList (layout.chars x)

/-- A double for a message or a key. -/
def plain (x : Float) : String :=
  Layout.plain.text x

/-- The digits of a natural number, with a point before the last `places` of them. -/
def withPlaces (places n : Nat) : List Char :=
  let digits := Nat.toDigits 10 n
  let padded := zeros (places + 1 - digits.length) ++ digits
  if places = 0 then padded
  else
    padded.take (padded.length - places) ++ '.' :: padded.drop (padded.length - places)

/-- A double with a fixed number of places after the point, rounded to the nearest, halves to even. -/
def fixed (places : Nat) (x : Float) : String :=
  match Binary.ofFloat x with
  | .nan => "NaN"
  | .infinite negative => if negative then "-inf" else "inf"
  | .finite negative m q =>
    let scaled := m * Nat.pow 10 places
    let n := if 0 ≤ q then scaled * Nat.pow 2 q.toNat else roundDiv scaled (Nat.pow 2 (-q).toNat)
    let body := withPlaces places n
    String.ofList (if negative then '-' :: body else body)

end Decimal
end TableFlow
