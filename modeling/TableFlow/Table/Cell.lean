import TableFlow.Json.Printer

/-!
# Cells

A cell of a table is a JSON value: null is a missing cell, a number is numeric, and all else is a category.
The key of a cell names its category; numbers of one value have one key however they are written.
-/

namespace TableFlow

/-- A cell of a table. -/
abbrev Cell := Json

namespace Cell

/-- Whole doubles below this bound are named by their integer. -/
def wholeBound : Float := 1e15

/-- The key of a number: its value in plain decimal notation, without a point if it is whole. -/
def numberKey (n : Number) : String :=
  let x := n.toFloat
  if Decimal.isIntegral x && x.abs < wholeBound then toString (Decimal.integerPart x)
  else Decimal.plain x

/-- The key of a cell; a missing cell has none. -/
def key? : Cell → Option String
  | .null => none
  | .string s => some s
  | .bool b => some (if b then "true" else "false")
  | .number n => some (numberKey n)
  | .array items => some (Json.array items).compact
  | .object members => some (Json.object members).compact

/-- The text of a cell in a delimited file. -/
def fieldText : Cell → String
  | .null => ""
  | .string s => s
  | other => other.compact

/-- A number. -/
def isNumber : Cell → Bool
  | .number _ => true
  | _ => false

/-- Neither missing nor a number. -/
def isCategory (c : Cell) : Bool :=
  !c.isNull && !isNumber c

end Cell
end TableFlow
