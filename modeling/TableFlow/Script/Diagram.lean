import TableFlow.Error
import TableFlow.Script.Printer
import TableFlow.Text.Name

/-!
# Diagrams

A program can be shown as a numbered list, as boxes with arrows between them, or as a flow chart for Mermaid.
-/

namespace TableFlow
namespace Script

/-- A kind of diagram. -/
inductive Diagram where
  /-- Boxes with arrows between them. -/
  | ascii
  /-- A numbered list. -/
  | text
  /-- A flow chart for Mermaid. -/
  | mermaid
  deriving DecidableEq, Repr, Inhabited

namespace Diagram

/-- The name of a kind. -/
def name : Diagram → String
  | .ascii => "ascii"
  | .text => "text"
  | .mermaid => "mermaid"

/-- The kind of a name, without regard to the case of Latin letters. -/
def ofName (name : String) : Except Error Diagram :=
  let folded := Text.foldLatin name
  if folded = "ascii" || folded = "boxes" then .ok .ascii
  else if folded = "text" || folded = "list" then .ok .text
  else if folded = "mermaid" then .ok .mermaid
  else
    .error (.validation "visualize"
      s!"unknown format '{folded}' (expected ascii, text or mermaid)")

/-- What stands for a program without nodes. -/
def emptyLabel : String := "(empty pipeline)"

/-- Spaces, so many that the text takes `width` places. -/
def padding (width : Nat) (text : String) : String :=
  "".pushn ' ' (width - text.length)

/-- The lines of a numbered list. -/
def listLines (labels : List String) : List String :=
  let width := (toString labels.length).length
  labels.mapIdx fun i label =>
    let number := toString (i + 1)
    padding width number ++ number ++ ". " ++ label

/-- The lines of a box that is `inner` places wide inside. -/
def boxLines (inner : Nat) (label : String) : List String :=
  let border := "+" ++ "".pushn '-' inner ++ "+"
  [border, "| " ++ label ++ padding (inner - 2) label ++ " |", border]

/-- The lines of the arrow between two boxes. -/
def arrowLines (inner : Nat) : List String :=
  let space := "".pushn ' ' (inner / 2 + 1)
  [space ++ "|", space ++ "v"]

/-- The lines of stacked boxes, all as wide as the longest label needs. -/
def stackLines (labels : List String) : List String :=
  let inner := (labels.map String.length).foldl max 0 + 2
  (labels.map (boxLines inner)).intersperse (arrowLines inner) |>.flatten

/-- A label in a flow chart, where a double quote is spelled out. -/
def chartLabel (label : String) : String :=
  String.ofList (label.toList.flatMap fun c => if c = '"' then "#quot;".toList else [c])

/-- The lines of a flow chart. -/
def chartLines (labels : List String) : List String :=
  let boxes := labels.mapIdx fun i label => s!"    s{i}[\"" ++ chartLabel label ++ "\"]"
  let arrows := (List.range (labels.length - 1)).map fun i => s!"    s{i} --> s{i + 1}"
  "flowchart TD" :: boxes ++ arrows

/-- A program as a diagram. -/
def render (d : Diagram) (p : Program) : String :=
  let labels := p.nodes.map Node.render
  let lines := match d, labels with
    | .mermaid, [] => ["flowchart TD", "    empty[\"" ++ emptyLabel ++ "\"]"]
    | _, [] => [emptyLabel]
    | .text, labels => listLines labels
    | .ascii, labels => stackLines labels
    | .mermaid, labels => chartLines labels
  "\n".intercalate lines

end Diagram
end Script
end TableFlow
