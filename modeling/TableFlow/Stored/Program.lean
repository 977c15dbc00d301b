import TableFlow.Error
import TableFlow.Script.Program
import TableFlow.Stored.JsonText
import TableFlow.Yaml.Parser
import TableFlow.Yaml.Printer

/-!
# Stored programs

A program is stored as a record with the list of its nodes.  Of a node only the command has to be there; its
arguments and options are empty, and its line is zero, unless they are given.
-/

namespace TableFlow

/-- A format of stored texts. -/
inductive StoredFormat where
  | json
  | yaml
  deriving DecidableEq, Repr, Inhabited

namespace Script

/-- A node as it is stored. -/
def Node.toDocument (n : Node) : Document :=
  .named [
    ("command", .text n.command),
    ("args", .texts n.args),
    ("options", .named (n.options.pairs.map fun (key, value) => (key, .text value))),
    ("line", .nat n.line)]

/-- The node that a document stores. -/
def Node.ofDocument? (byPosition : Bool) (d : Document) : Option Node := do
  let fields ← Document.Fields.of? byPosition ["command", "args", "options", "line"] d
  let command ← fields.required? "command" Document.text?
  let args ← fields.optional? "args" [] Document.texts?
  let options ← fields.optional? "options" [] Document.textMembers?
  let line ← fields.optional? "line" 0 Document.word64?
  pure { command, args, options := .ofList options, line }

namespace Program

/-- A program as it is stored. -/
def toDocument (p : Program) : Document :=
  .named [("nodes", .list (p.nodes.map Node.toDocument))]

/-- The program that a document stores. -/
def ofDocument? (byPosition : Bool) (d : Document) : Option Program := do
  let fields ← Document.Fields.of? byPosition ["nodes"] d
  let nodes ← fields.required? "nodes" fun nodes => do
    (← nodes.items?).mapM (Node.ofDocument? byPosition)
  pure ⟨nodes⟩

/-- A program as JSON. -/
def toJson (p : Program) : String := p.toDocument.jsonText

/-- A program as YAML. -/
def toYaml (p : Program) : String := Yaml.text p.toDocument

/-- The program that a JSON text stores. -/
def ofJson (text : String) : Except Error Program :=
  match (Document.ofJsonText? text).bind (ofDocument? true) with
  | some p => .ok p
  | none => .error (.serialization s!"Invalid program JSON: {Json.malformed}")

/-- The program that a YAML text stores. -/
def ofYaml (text : String) : Except Error Program :=
  match (Yaml.parse? text).bind (ofDocument? false) with
  | some p => .ok p
  | none => .error (.serialization s!"Invalid program YAML: {Json.malformed}")

end Program
end Script
end TableFlow
