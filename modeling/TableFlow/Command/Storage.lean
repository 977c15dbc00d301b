import TableFlow.Command.Args

/-!
# Loading, exporting and saving
-/

namespace TableFlow
namespace Storage

/-- Load a table into a context. -/
def load (path : String) (services : Services) : StepM String := do
  let t ← StepM.ofFiles (services.load path)
  StepM.change fun context => context.replaceDataset t
  pure s!"Loaded {t.rowCount} rows x {t.columnCount} columns from {path}"

/-- Write the table of a context to a file. -/
def exportTable (path : String) (services : Services) (context : Context) : StepM String := do
  let t ← StepM.ofExcept context.requireDataset
  StepM.ofFiles (services.write path t)
  pure s!"Exported {t.rowCount} rows to {path}"

/-- What is saved of a context with a model. -/
def document (time : String) (context : Context) (model : Learn.Model) : Json :=
  .record [
    ("saved_at", .string time),
    ("model", model.summary),
    ("encodings", .object (context.encodings.entries.map fun (name, cats) =>
      (name, .strings cats))),
    ("transforms", .strings context.transforms),
    ("metrics", Learn.metricsToJson context.metrics)]

/-- Write a summary of the model of a context to a file. -/
def save (path : String) (services : Services) (context : Context) : StepM String := do
  let model ← StepM.ofExcept context.requireModel
  StepM.ofFiles (FileM.save path (Text.bytes (document services.time context model).pretty))
  pure s!"Saved {model.algorithm} model summary to {path}"

/-- The specification of a command that takes a path. -/
def pathSpec (name : String)
    (act : String → Services → Context → StepM String) : CommandSpec where
  name := name
  usage := name ++ " <path>"
  minArgs := 1
  maxArgs := some 1
  build := fun i => do
    let path ← i.path
    pure ⟨name, act path⟩

/-- The specification of the command that loads a table. -/
def loadSpec : CommandSpec := pathSpec "load" fun path services _ => load path services

/-- The specification of the command that exports the table. -/
def exportSpec : CommandSpec := pathSpec "export" exportTable

/-- The specification of the command that saves the model. -/
def saveSpec : CommandSpec := pathSpec "save" save

end Storage
end TableFlow
