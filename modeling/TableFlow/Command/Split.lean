import TableFlow.Command.Args
import TableFlow.Command.Ratio
import TableFlow.Random.Choice

/-!
# Splitting

The rows of a table are dealt to two parts in random order.
-/

namespace TableFlow

/-- A step that splits the table. -/
structure Splitting where
  trainFraction : Float
  target : Option String
  seed : Option Nat

namespace Splitting

/-- How many of `n` rows a share is, rounded. -/
def trainCount (fraction : Float) (n : Nat) : Nat :=
  min (Decimal.toWord64 (Decimal.nearestWhole (Learn.count n * fraction))) n

/-- The two parts of a table. -/
def partition (t : Table) (fraction : Float) (seed : Nat) : Partition :=
  let order := Random.permutation t.rowCount seed
  let n := trainCount fraction t.rowCount
  { train := t.takeRows (order.take n)
    test := t.takeRows (order.drop n)
    trainFraction := fraction
    seed }

/-- What the table needs: rows, and the target. -/
def check (s : Splitting) (t : Table) : Except Error Unit :=
  if t.rows.isEmpty then
    .error (.precondition "non-empty dataset" "cannot split a dataset with no rows")
  else
    match s.target with
    | some name => (t.requireColumn name).map fun _ => ()
    | none => .ok ()

/-- Split the table of a context. -/
def run (s : Splitting) (context : Context) : StepM String := do
  let t ← StepM.ofExcept context.requireDataset
  StepM.ofExcept (s.check t)
  let parts := partition t s.trainFraction (s.seed.getD context.seed)
  let note := match s.target with
    | some name => s!" (target: {name})"
    | none => ""
  let message :=
    s!"Split {t.rowCount} rows into {parts.train.rowCount} train / {parts.test.rowCount} test{note}"
  StepM.change fun context => { context with split := some parts }
  StepM.change fun context => { context with model := none, metrics := KeyMap.empty }
  StepM.change fun context => { context with target := s.target <|> context.target }
  pure message

/-- The specification of the command. -/
def spec : CommandSpec where
  name := "split"
  usage := "split <train/test> [--target column] [--seed n]"
  minArgs := 1
  maxArgs := some 1
  options := [⟨"target", .text⟩, ⟨"seed", .integer⟩]
  build := fun i => do
    let trainFraction ← match Ratio.parse i.firstArg with
      | .ok fraction => pure fraction
      | .error fault => throw (i.error (fault.message i.firstArg))
    let seed ← i.natural "seed"
    let s : Splitting := ⟨trainFraction, i.option? "target", seed⟩
    pure ⟨"split", fun _ context => s.run context⟩

end Splitting
end TableFlow
