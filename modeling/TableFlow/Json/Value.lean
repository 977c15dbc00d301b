import TableFlow.Counting
import TableFlow.Decimal.Round
import TableFlow.KeyMap

/-!
# JSON values

The values that tables hold and that stored texts spell.  Whole numbers and doubles are kept apart, and an
object keeps its members in the order in which they are spelled; `canonical` brings them into key order.
-/

namespace TableFlow

/-- A JSON number. -/
inductive Number where
  /-- A whole number of at most 64 bits, signed or unsigned. -/
  | int (value : Int)
  /-- A finite double. -/
  | float (value : Float)
  deriving Inhabited

/-- The double nearest to a number. -/
def Number.toFloat : Number → Float
  | .int n => Decimal.ofInt n
  | .float x => x

/-- Whole numbers that have a place of their own: those of 64 bits, signed or unsigned. -/
def Number.fits (n : Int) : Bool :=
  -(signBound : Int) ≤ n && n < wordBound

/-- A JSON value. -/
inductive Json where
  | null
  | bool (value : Bool)
  | number (value : Number)
  | string (value : String)
  | array (items : List Json)
  | object (members : List (String × Json))
  deriving Inhabited

namespace Json

/-- A natural number. -/
def nat (n : Nat) : Json := .number (.int n)

/-- A double; one that is not finite becomes null. -/
def float (x : Float) : Json :=
  if Decimal.isFinite x then .number (.float x) else .null

/-- A text or null. -/
def stringOrNull : Option String → Json
  | none => .null
  | some s => .string s

/-- A list of texts. -/
def strings (items : List String) : Json :=
  .array (items.map .string)

/-- An object with its members in key order; of members with one key the last one counts. -/
def record (members : List (String × Json)) : Json :=
  .object (sortKeys members)

mutual

/-- The value with the members of every object in key order; of members with one key the last one counts. -/
def canonical : Json → Json
  | .array items => .array (canonicalItems items)
  | .object members => .object (sortKeys (canonicalMembers members))
  | .null => .null
  | .bool b => .bool b
  | .number n => .number n
  | .string s => .string s

/-- Each item in canonical form. -/
def canonicalItems : List Json → List Json
  | [] => []
  | item :: rest => item.canonical :: canonicalItems rest

/-- Each member in canonical form. -/
def canonicalMembers : List (String × Json) → List (String × Json)
  | [] => []
  | (key, value) :: rest => (key, value.canonical) :: canonicalMembers rest

end

/-- The double nearest to a number, and nothing for other values. -/
def float? : Json → Option Float
  | .number n => some n.toFloat
  | _ => none

/-- Null is the missing value. -/
def isNull : Json → Bool
  | .null => true
  | _ => false

end Json
end TableFlow
