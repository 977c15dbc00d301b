import TableFlow.Command.Args

/-!
# Scaling

Numeric columns are brought to zero mean and unit variance, or into the interval from zero to one.  Unless
columns are named, those are left out that hold codes: the recorded ones, the target, and columns of few
whole numbers.
-/

namespace TableFlow

/-- A way to scale a column. -/
inductive Scaling where
  /-- Zero mean and unit variance. -/
  | standard
  /-- From zero to one. -/
  | minMax
  deriving DecidableEq, Repr, Inhabited

namespace Scaling

/-- The ways to scale, with their names. -/
def methods : List (Scaling × List String) := [
  (.standard, ["standard", "zscore", "z-score"]),
  (.minMax, ["minmax", "min_max", "min-max", "normalize"])]

/-- The way of a name. -/
def ofName? (name : String) : Option Scaling :=
  methodOf? methods name

/-- The name of a way. -/
def name : Scaling → String
  | .standard => "standard"
  | .minMax => "minmax"

/-- The most distinct values of a column of codes. -/
def maxCodeLevels : Nat := 10

/-- The values look like codes: whole numbers, of which few are distinct as words of 64 bits. -/
def areCodes (values : List Float) : Bool :=
  !values.isEmpty && values.all Decimal.isIntegral &&
    (values.map Decimal.toInt64).eraseDups.length ≤ maxCodeLevels

/-- What is subtracted from the values of a column and what they are divided by. -/
def shiftAndDivisor (s : Scaling) (stats : ColumnStats) : Float × Float :=
  let (shift, divisor) := match s with
    | .standard => (stats.mean, stats.stdDev)
    | .minMax => (stats.min, stats.max - stats.min)
  (shift, if divisor.abs < 1e-12 then 1.0 else divisor)

/-- A scaled cell; what is no number stays as it is. -/
def scaleCell (shift divisor : Float) (cell : Cell) : Cell :=
  match cell with
  | .number n => .float ((n.toFloat - shift) / divisor)
  | other => other

/-- The table with one column scaled, which may not hold categories. -/
def column (s : Scaling) (t : Table) (name : String) : Except Error Table := do
  let index ← t.requireColumn name
  if t.columnKind index = .categorical then
    throw (.schema ("column '" ++ name ++ "' is not numeric; run `encode` before `scale`"))
  let (shift, divisor) := s.shiftAndDivisor (t.columnStats index)
  pure (t.mapColumn index (scaleCell shift divisor))

/-- A column is scaled without being named. -/
def isDefault (context : Context) (t : Table) (exclude : List String) (name : String) : Bool :=
  !exclude.contains name && !context.encodings.contains name && context.target != some name &&
    match t.columnIndex? name with
    | some index => !areCodes (t.numericValues index)
    | none => true

/-- The columns to scale: the given ones, or the numeric ones that do not hold codes. -/
def targets (context : Context) (t : Table) (columns exclude : List String) : List String :=
  if columns.isEmpty then t.numericColumns.filter (isDefault context t exclude) else columns

/-- Scale columns of the table of a context. -/
def run (s : Scaling) (columns exclude : List String) (context : Context) : StepM String := do
  let t ← StepM.ofExcept (context.requireUnsplit "scale")
  let _ ← StepM.ofExcept ((columns ++ exclude).mapM t.requireColumn)
  let targets := targets context t columns exclude
  let scaled ← StepM.ofExcept (targets.foldlM s.column t)
  let n := targets.length
  let names := ", ".intercalate targets
  StepM.change fun context => { context with dataset := some scaled }
  StepM.change fun context => context.noted s!"scale {s.name}"
  pure s!"Scaled {n} column(s) with {s.name}: {names}"

/-- The specification of the command. -/
def spec : CommandSpec where
  name := "scale"
  usage := "scale <standard|minmax> [columns...] [--exclude columns]"
  minArgs := 1
  maxArgs := none
  options := [⟨"exclude", .text⟩]
  build := fun i =>
    match ofName? i.firstArg with
    | none =>
      .error (i.error s!"unknown method '{i.firstArg}' (expected standard or minmax)")
    | some s =>
      let columns := columnList i.args.tail
      let exclude := columnList (i.option? "exclude").toList
      .ok ⟨"scale", fun _ context => s.run columns exclude context⟩

end Scaling
end TableFlow
