import TableFlow.Error
import TableFlow.Stored.Document

/-!
# Stored errors

An error is stored as a record with one member: the name of its kind, and what the error holds.
-/

namespace TableFlow
namespace Error

/-- An error as it is stored. -/
def toDocument : Error → Document
  | .io text => .named [("Io", .text text)]
  | .grammar line text =>
    .named [("Syntax", .named [("line", .nat line), ("message", .text text)])]
  | .validation command text =>
    .named [("Validation", .named [("command", .text command), ("message", .text text)])]
  | .precondition requires text =>
    .named [("Precondition", .named [("requires", .text requires), ("message", .text text)])]
  | .execution step line source =>
    .named [("Execution", .named [
      ("step", .text step), ("line", .nat line), ("source", source.toDocument)])]
  | .schema text => .named [("Schema", .named [("message", .text text)])]
  | .serialization text => .named [("Serde", .text text)]
  | .internal text => .named [("Internal", .text text)]

/-- The fields of an error that has several. -/
def fields? (names : List String) (d : Document) : Option Document.Fields :=
  Document.Fields.of? true names d

/-- The error that a document stores, with at most `depth` failed steps around its cause. -/
def ofDocument? : (depth : Nat) → Document → Option Error
  | depth, .record [(.text kind, d)] =>
    match kind with
    | "Io" => d.text?.map .io
    | "Serde" => d.text?.map .serialization
    | "Internal" => d.text?.map .internal
    | "Schema" => do
      let fields ← fields? ["message"] d
      pure (.schema (← fields.required? "message" Document.text?))
    | "Syntax" => do
      let fields ← fields? ["line", "message"] d
      pure (.grammar (← fields.required? "line" Document.word64?)
        (← fields.required? "message" Document.text?))
    | "Validation" => do
      let fields ← fields? ["command", "message"] d
      pure (.validation (← fields.required? "command" Document.text?)
        (← fields.required? "message" Document.text?))
    | "Precondition" => do
      let fields ← fields? ["requires", "message"] d
      pure (.precondition (← fields.required? "requires" Document.text?)
        (← fields.required? "message" Document.text?))
    | "Execution" =>
      match depth with
      | 0 => none
      | depth + 1 => do
        let fields ← fields? ["step", "line", "source"] d
        pure (.execution (← fields.required? "step" Document.text?)
          (← fields.required? "line" Document.word64?)
          (← fields.required? "source" (ofDocument? depth)))
    | _ => none
  | _, _ => none

/-- The error that a JSON value stores. -/
def ofJson? (j : Json) : Option Error :=
  ofDocument? Json.maxDepth (Document.ofJson j)

end Error
end TableFlow
