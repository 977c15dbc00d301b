import TableFlow.Command.Args

/-!
# Dropping and selecting columns
-/

namespace TableFlow
namespace Columns

/-- Take columns out of the table of a context. -/
def drop (columns : List String) (context : Context) : StepM String := do
  let t ← StepM.ofExcept (context.requireUnsplit "drop")
  let reduced ← StepM.ofExcept (t.dropColumns columns)
  let n := columns.length
  let names := ", ".intercalate columns
  StepM.change fun context =>
    { context with encodings := context.encodings.filter fun name => !columns.contains name }
  StepM.change fun context => { context with dataset := some reduced }
  StepM.change fun context => context.noted "drop"
  pure s!"Dropped {n} column(s): {names} ({reduced.columnCount} remaining)"

/-- Keep just some columns of the table of a context. -/
def select (columns : List String) (context : Context) : StepM String := do
  let t ← StepM.ofExcept (context.requireUnsplit "select")
  let reduced ← StepM.ofExcept (t.selectColumns columns)
  let n := columns.length
  let names := ", ".intercalate columns
  StepM.change fun context =>
    { context with encodings := context.encodings.filter fun name => columns.contains name }
  StepM.change fun context => { context with dataset := some reduced }
  StepM.change fun context => context.noted "select"
  pure s!"Selected {n} column(s): {names}"

/-- The specification of the command that drops columns. -/
def dropSpec : CommandSpec where
  name := "drop"
  usage := "drop <columns...>"
  minArgs := 1
  maxArgs := none
  build := fun i => do
    let columns ← i.columns
    pure ⟨"drop", fun _ context => drop columns context⟩

/-- The specification of the command that selects columns. -/
def selectSpec : CommandSpec where
  name := "select"
  usage := "select <columns...>"
  minArgs := 1
  maxArgs := none
  build := fun i => do
    let columns ← i.columns
    pure ⟨"select", fun _ context => select columns context⟩

end Columns
end TableFlow
