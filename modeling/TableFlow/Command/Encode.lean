import TableFlow.Command.Args

/-!
# Encoding

Categories become numbers: each category its place in the sorted list of the column's categories, or a column
of its own that tells which rows are of it.  The list of a column of places is recorded in the context.
-/

namespace TableFlow

/-- A way to encode a column. -/
inductive Encoding where
  /-- Each category becomes its place in the sorted categories. -/
  | label
  /-- Each category becomes a column of zeros and ones. -/
  | oneHot
  deriving DecidableEq, Repr, Inhabited

namespace Encoding

/-- The ways to encode, with their names. -/
def methods : List (Encoding × List String) := [
  (.label, ["label", "ordinal"]),
  (.oneHot, ["onehot", "one_hot", "one-hot", "dummy"])]

/-- The way of a name. -/
def ofName? (name : String) : Option Encoding :=
  methodOf? methods name

/-- The name of a way. -/
def name : Encoding → String
  | .label => "label"
  | .oneHot => "onehot"

/-- The categories of cells: their distinct keys in order. -/
def categories (cells : List Cell) : List String :=
  (sortKeys ((cells.filterMap Cell.key?).map fun key => (key, ()))).map Prod.fst

/-- The code of a cell: the place of its key; a missing cell stays missing. -/
def codeCell (categories : List String) (cell : Cell) : Cell :=
  match Cell.key? cell with
  | none => cell
  | some key => .nat (categories.idxOf key)

/-- The table with the cells of a column replaced by their codes. -/
def labelColumn (t : Table) (index : Nat) (categories : List String) : Table :=
  t.mapColumn index (codeCell categories)

/-- The cells that tell of which category a cell is; all missing if it is missing. -/
def indicators (categories : List String) (cell : Cell) : List Cell :=
  match Cell.key? cell with
  | none => categories.map fun _ => .null
  | some key => categories.map fun category => .nat (if key = category then 1 else 0)

/-- Replace the element at a place by several. -/
def spliceAt {α : Type} (index : Nat) (several : α → List α) (items : List α) : List α :=
  match items, index with
  | [], _ => []
  | item :: rest, 0 => several item ++ rest
  | item :: rest, index + 1 => item :: spliceAt index several rest

/-- The table with a column replaced by one for each category; the labels name the new columns. -/
def oneHotColumn (t : Table) (column : String) (index : Nat) (categories labels : List String) :
    Except Error Table :=
  Table.ofRows (spliceAt index (fun _ => labels.map fun l => column ++ "_" ++ l) t.columns)
    (t.rows.map (spliceAt index (indicators categories)))

/-- The label of a category of a column of codes: the recorded category, if it is a code. -/
def recordedLabel (names : List String) (code : String) : String :=
  ((Text.word64? code).bind fun i => names[i]?).getD code

/-- What has been done so far to the columns that are encoded. -/
structure Progress where
  table : Table
  /-- The lists of the columns that were encoded. -/
  recorded : List (String × List String) := []
  /-- The columns whose recorded lists no longer hold. -/
  retired : List String := []
  /-- What to say about each column. -/
  notes : List String := []

/-- Encode one column.  A column that holds codes keeps them under the label method. -/
def column (e : Encoding) (known : KeyMap (List String)) (p : Progress) (name : String) :
    Except Error Progress := do
  let index ← p.table.requireColumn name
  match e, known.get? name with
  | .label, some names =>
    let levels := names.length
    pure { p with notes := p.notes ++ [s!"{name} (already encoded, {levels} levels)"] }
  | .label, none =>
    let cats := categories (p.table.column index)
    let levels := cats.length
    pure { p with
      table := labelColumn p.table index cats
      recorded := p.recorded ++ [(name, cats)]
      notes := p.notes ++ [s!"{name} ({levels} levels)"] }
  | .oneHot, names? =>
    let cats := categories (p.table.column index)
    let levels := cats.length
    let labels := match names? with
      | some names => cats.map (recordedLabel names)
      | none => cats
    let table ← oneHotColumn p.table name index cats labels
    pure { p with
      table
      retired := if names?.isSome then p.retired ++ [name] else p.retired
      notes := p.notes ++ [s!"{name} ({levels} levels)"] }

/-- The columns to encode: the given ones, which have to be there, or all that hold categories. -/
def targets (t : Table) (columns : List String) : Except Error (List String) := do
  if columns.isEmpty then pure t.categoricalColumns
  else
    let _ ← columns.mapM t.requireColumn
    pure columns

/-- Encode columns of the table of a context. -/
def run (e : Encoding) (columns : List String) (context : Context) : StepM String := do
  let t ← StepM.ofExcept (context.requireUnsplit "encode")
  let targets ← StepM.ofExcept (targets t columns)
  let done ← StepM.ofExcept (targets.foldlM (e.column context.encodings) { table := t })
  let n := targets.length
  let notes := ", ".intercalate done.notes
  let message :=
    if targets.isEmpty then "Encoded 0 categorical columns"
    else s!"Encoded {n} categorical column(s) with {e.name}: {notes}"
  StepM.change fun context => { context with dataset := some done.table }
  StepM.change fun context =>
    { context with encodings := context.encodings.filter fun name => !done.retired.contains name }
  StepM.change fun context =>
    { context with encodings := context.encodings.insertAll done.recorded }
  StepM.change fun context => context.noted s!"encode {e.name}"
  pure message

/-- The specification of the command. -/
def spec : CommandSpec where
  name := "encode"
  usage := "encode [columns...] [--method label|onehot]"
  maxArgs := none
  options := [⟨"method", .text⟩]
  build := fun i => do
    let e ← match i.option? "method" with
      | none => pure .label
      | some name =>
        match ofName? name with
        | some e => pure e
        | none => throw (i.error s!"unknown method '{name}' (expected label or onehot)")
    let columns := columnList i.args
    pure ⟨"encode", fun _ context => e.run columns context⟩

end Encoding
end TableFlow
