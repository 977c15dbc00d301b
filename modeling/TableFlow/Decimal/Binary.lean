import TableFlow.Counting

/-!
# Doubles as binary fractions

A finite double is `m * 2 ^ q` with a sign.  This is the view on which printing, reading and ordering of
doubles are defined; it rests on the bits of the double alone.
-/

namespace TableFlow
namespace Decimal

/-- What the bits of a double say. -/
inductive Binary where
  | nan
  | infinite (negative : Bool)
  /-- The value `m * 2 ^ q`, negated if the sign says so. -/
  | finite (negative : Bool) (m : Nat) (q : Int)
  deriving DecidableEq, Repr, Inhabited

/-- The least exponent of a double. -/
def leastExponent : Int := -1074

/-- The first mantissa of each exponent but the least. -/
def leadingBit : Nat := 0x10000000000000

/-- Read a sign, an exponent field and a fraction field. -/
def Binary.ofFields (negative : Bool) (field fraction : Nat) : Binary :=
  if field = 2047 then if fraction = 0 then .infinite negative else .nan
  else if field = 0 then .finite negative fraction leastExponent
  else .finite negative (leadingBit + fraction) (leastExponent + (field - 1 : Int))

/-- Read the bits of a double. -/
def Binary.ofBits (bits : Nat) : Binary :=
  Binary.ofFields (signBound ≤ bits) (bits / leadingBit % 2048) (bits % leadingBit)

/-- A double as a binary fraction. -/
def Binary.ofFloat (x : Float) : Binary :=
  Binary.ofBits x.toBits.toNat

/-- The double is neither infinite nor not a number. -/
def isFinite (x : Float) : Bool :=
  match Binary.ofFloat x with
  | .finite .. => true
  | _ => false

/-- The double has no fractional part. -/
def isIntegral (x : Float) : Bool :=
  match Binary.ofFloat x with
  | .finite _ m q => 0 ≤ q || m % Nat.pow 2 (-q).toNat == 0
  | _ => false

/-- The double without its fractional part; zero for what is not finite. -/
def integerPart (x : Float) : Int :=
  match Binary.ofFloat x with
  | .finite negative m q =>
    let n : Int := if 0 ≤ q then (m * Nat.pow 2 q.toNat : Nat) else (m / Nat.pow 2 (-q).toNat : Nat)
    if negative then -n else n
  | _ => 0

/-- The integer part of a double as a signed number of 64 bits; values beyond them go to the nearer end,
and what is not a number goes to zero. -/
def toInt64 (x : Float) : Int :=
  match Binary.ofFloat x with
  | .nan => 0
  | .infinite negative => if negative then -signBound else signBound - 1
  | .finite .. => max (-signBound) (min (signBound - 1) (integerPart x))

/-- The integer part of a double as a natural number of 64 bits, with values beyond them at the nearer end. -/
def toWord64 (x : Float) : Nat :=
  match Binary.ofFloat x with
  | .nan => 0
  | .infinite negative => if negative then 0 else wordBound - 1
  | .finite .. => min (wordBound - 1) (integerPart x).toNat

/-- The place of a double in the total order of doubles: by value, the negative zero before the positive
one, and what is not a number outermost by its sign. -/
def rank (x : Float) : Int :=
  let bits := x.toBits.toNat
  if signBound ≤ bits then -(bits - signBound : Int) - 1 else bits

/-- In the total order `x` comes no later than `y`. -/
def rankLe (x y : Float) : Bool :=
  rank x ≤ rank y

end Decimal
end TableFlow
