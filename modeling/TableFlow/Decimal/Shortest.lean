import TableFlow.Decimal.Binary

/-!
# Shortest digits

The decimal with the fewest digits that reads back as a given double, and of those the one nearest to it.
A double `m * 2 ^ q` is a whole number `m * g` of decimal units `10 ^ r`, and so are, up to a factor of four,
the ends of the interval of reals that round to it; the search is then exact arithmetic on natural numbers.
-/

namespace TableFlow
namespace Decimal

/-- A decimal `digits * 10 ^ exponent`. -/
structure Digits where
  digits : Nat
  exponent : Int
  deriving DecidableEq, Repr, Inhabited

/-- The reals that round to a double, in quarters of a decimal unit. -/
structure Interval where
  low : Nat
  value : Nat
  high : Nat
  /-- The ends belong to it. -/
  closed : Bool
  deriving Repr

/-- A number of quarters lies in the interval. -/
def Interval.holds (i : Interval) (quarters : Nat) : Bool :=
  if i.closed then i.low ≤ quarters && quarters ≤ i.high
  else i.low < quarters && quarters < i.high

/-- The decimal unit steps in which the last bit of `m * 2 ^ q` is counted. -/
def bitStep (q : Int) : Nat :=
  if q < 0 then Nat.pow 5 (-q).toNat else Nat.pow 2 q.toNat

/-- The exponent of the decimal unit for `q`. -/
def unitExponent (q : Int) : Int :=
  min q 0

/-- The reals that round to `m * 2 ^ q`: half a step to each side, but only a quarter below where the
doubles get denser. -/
def Interval.of (m : Nat) (q : Int) : Interval :=
  let g := bitStep q
  let below := if m = leadingBit && leastExponent < q then g else 2 * g
  { low := 4 * m * g - below, value := 4 * m * g, high := 4 * m * g + 2 * g, closed := m % 2 = 0 }

/-- The multiple of `10 ^ k` in the interval that is nearest to its value, if one of the value's two
neighbours among them lies in it; of two equally near ones the even one. -/
def Interval.nearest? (i : Interval) (k : Nat) : Option Nat :=
  let unit := 4 * Nat.pow 10 k
  let down := i.value / unit
  let lower := i.holds (down * unit)
  let upper := i.holds ((down + 1) * unit)
  if lower && upper then
    let gapDown := i.value - down * unit
    let gapUp := (down + 1) * unit - i.value
    if gapDown < gapUp then some down
    else if gapUp < gapDown then some (down + 1)
    else some (down + down % 2)
  else if lower then some down
  else if upper then some (down + 1)
  else none

/-- The coarsest grid `10 ^ k` that meets the interval, with the point on it; the units always meet it. -/
def Interval.search (i : Interval) : Nat → Nat × Nat
  | 0 => (i.value / 4, 0)
  | k + 1 =>
    match i.nearest? (k + 1) with
    | some d => (d, k + 1)
    | none => i.search k

/-- The fewest digits that read back as `m * 2 ^ q`, for a positive `m`. -/
def shortest (m : Nat) (q : Int) : Digits :=
  let count := (Nat.toDigits 10 (m * bitStep q)).length
  let (d, k) := (Interval.of m q).search (count - 1)
  ⟨d, unitExponent q + k⟩

end Decimal
end TableFlow
