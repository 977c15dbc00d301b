import TableFlow.Decimal.Binary
import TableFlow.Decimal.Layout
import TableFlow.Decimal.Reading
import TableFlow.Text.Blank
import TableFlow.Text.Digit

/-!
# Ratios

A ratio such as `80/20` or `0.8/0.2` tells which share of the rows goes to the first part.  Reading one gives
the share, and a share has a ratio that spells it.
-/

namespace TableFlow

namespace Ratio

/-- What is wrong with a ratio. -/
inductive Fault where
  /-- It is not two numbers with a slash between them. -/
  | shape
  /-- A number has digits that cannot be read. -/
  | digits
  /-- The numbers do not sum to one or to a hundred. -/
  | sum (total : Float)

/-- The text of a fault of a ratio. -/
def Fault.message (text : String) : Fault → String
  | .shape => s!"ratio '{text}' must look like 80/20"
  | .digits => s!"invalid ratio '{text}'"
  | .sum total =>
    let shown := Decimal.plain total
    s!"ratio '{text}' sums to {shown}; parts must sum to 100 (or 1.0)"

/-- The number in front of a text, with decimal digits of any script, and the rest. -/
def number? (s : List Char) : Option (List Char × List Char) :=
  let whole := s.takeWhile Text.isAnyDigit
  if whole.isEmpty then none
  else
    match s.dropWhile Text.isAnyDigit with
    | '.' :: rest =>
      let fraction := rest.takeWhile Text.isAnyDigit
      if fraction.isEmpty then some (whole, '.' :: rest)
      else some (whole ++ '.' :: fraction, rest.dropWhile Text.isAnyDigit)
    | rest => some (whole, rest)

/-- The two numbers of a ratio as they are spelled. -/
def parts? (s : List Char) : Option (List Char × List Char) := do
  let (train, rest) ← number? (Text.trimFront s)
  match Text.trimFront rest with
  | '/' :: rest =>
    let (test, rest) ← number? (Text.trimFront rest)
    if (Text.trimFront rest).isEmpty then some (train, test) else none
  | _ => none

/-- How far the sum may be from one; for percentages a hundred times that. -/
def tolerance : Float := 0.001

/-- The sum is one or a hundred. -/
def isWhole (total : Float) : Bool :=
  (total - 100.0).abs ≤ tolerance * 100.0 || (total - 1.0).abs ≤ tolerance

/-- The share of the first part that a ratio tells. -/
def parse (text : String) : Except Fault Float :=
  match parts? text.toList with
  | none => .error .shape
  | some (train, test) =>
    match Decimal.readChars? train, Decimal.readChars? test with
    | some train, some test =>
      let total := train + test
      if isWhole total then .ok (train / total) else .error (.sum total)
    | _, _ => .error .digits

/-- A percentage without a point if it is whole, else with one place. -/
def percentage (x : Float) : String :=
  if Decimal.isIntegral x then toString (Decimal.toInt64 x) else Decimal.fixed 1 x

/-- How many places a decimal has after its point. -/
def places (s : String) : Nat :=
  ((s.toList.dropWhile (· != '.')).drop 1).length

/-- A share of the first part as a ratio: two percentages, or two exact decimals for a share that is finer
than a tenth of a percentage. -/
def ofShare (share : Float) : String :=
  let thousandths := share * 1000.0
  let nearest := Decimal.nearestWhole thousandths
  if (thousandths - nearest).abs > 1e-9 then
    let first := Decimal.plain share
    first ++ "/" ++ Decimal.fixed (places first) (1.0 - share)
  else
    let first := nearest / 10.0
    let second := Decimal.nearestWhole ((100.0 - first) * 10.0) / 10.0
    percentage first ++ "/" ++ percentage second

end Ratio

end TableFlow
