import TableFlow.Decimal.Binary

/-!
# Rounding

Quotients of natural numbers rounded to the nearest natural number and to the nearest double, and doubles rounded
to the nearest whole number.  A quotient halfway between two goes to the even one, a double halfway between two to the
one further from zero.
-/

namespace TableFlow
namespace Decimal

/-- The natural number nearest to `num / den`; halfway, the even one. -/
def roundDiv (num den : Nat) : Nat :=
  let down := num / den
  let rest := num % den
  if 2 * rest < den then down
  else if den < 2 * rest then down + 1
  else down + down % 2

/-- The bits of the double nearest to `m * 2 ^ q` when `m` has at most 53 bits and, unless `q` is the least
exponent, exactly 53.  Past the greatest double they are those of infinity. -/
def packBits (m : Nat) (q : Int) : Nat :=
  let bits := m + (q - leastExponent).toNat * leadingBit
  if 2047 * leadingBit ≤ bits then 2047 * leadingBit else bits

/-- The exponent of the last bit of the double nearest to `num / den`. -/
def lastBit (num den : Nat) : Int :=
  let guess : Int := (num.log2 : Int) - den.log2 - 52
  let short : Bool :=
    if 0 ≤ guess then num < den * Nat.pow 2 (guess.toNat + 52)
    else num * Nat.pow 2 (-guess).toNat < den * leadingBit
  max (if short then guess - 1 else guess) leastExponent

/-- The bits of the double nearest to the positive quotient `num / den`. -/
def quotientBits (num den : Nat) : Nat :=
  let q := lastBit num den
  let m := if 0 ≤ q then roundDiv num (den * Nat.pow 2 q.toNat)
    else roundDiv (num * Nat.pow 2 (-q).toNat) den
  packBits m q

/-- The double nearest to a quotient, with a sign; a zero keeps the sign. -/
def ofQuotient (negative : Bool) (num den : Nat) : Float :=
  let bits := if num = 0 then 0 else quotientBits num den
  Float.ofBits (UInt64.ofNat (if negative then bits + signBound else bits))

/-- The double nearest to an integer. -/
def ofInt (n : Int) : Float :=
  ofQuotient (decide (n < 0)) n.natAbs 1

/-- The whole number nearest to a double, with its sign; what is not finite stays as it is. -/
def nearestWhole (x : Float) : Float :=
  match Binary.ofFloat x with
  | .finite negative m q =>
    if 0 ≤ q then x
    else
      let unit := Nat.pow 2 (-q).toNat
      ofQuotient negative ((2 * m + unit) / (2 * unit)) 1
  | _ => x

end Decimal
end TableFlow
