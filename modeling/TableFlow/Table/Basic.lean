import TableFlow.Counting
import TableFlow.Error
import TableFlow.Table.Cell

/-!
# Tables

Named columns and rows of cells.  A table that is built from its parts has distinct column names and one cell
for each column in every row; `WellFormed` says so.
-/

namespace TableFlow

/-- A table: its column names and its rows. -/
structure Table where
  columns : List String
  rows : List (List Cell)
  deriving Inhabited

/-- What the cells of a column have in common. -/
inductive ColumnKind where
  /-- Every cell that is not missing is a number. -/
  | numeric
  /-- Some cell is neither missing nor a number. -/
  | categorical
  /-- Every cell is missing. -/
  | empty
  deriving DecidableEq, Repr, Inhabited

/-- The name of a kind of column. -/
def ColumnKind.name : ColumnKind → String
  | .numeric => "numeric"
  | .categorical => "categorical"
  | .empty => "empty"

/-- The kind of a column with these cells. -/
def ColumnKind.ofCells (cells : List Cell) : ColumnKind :=
  if cells.any Cell.isCategory then .categorical
  else if cells.any Cell.isNumber then .numeric
  else .empty

/-- The first value that occurs a second time further on. -/
def firstRepeated? : (seen rest : List String) → Option String
  | _, [] => none
  | seen, name :: rest => if seen.contains name then some name else firstRepeated? (name :: seen) rest

namespace Table

/-- Distinct column names, and one cell for each column in every row. -/
structure WellFormed (t : Table) : Prop where
  nodup : t.columns.Nodup
  width : ∀ row ∈ t.rows, row.length = t.columns.length

/-- How many rows the table has. -/
def rowCount (t : Table) : Nat := t.rows.length

/-- How many columns the table has. -/
def columnCount (t : Table) : Nat := t.columns.length

/-- Add a row at the end. -/
def pushRow (t : Table) (row : List Cell) : Except Error Table :=
  if row.length = t.columns.length then .ok { t with rows := t.rows ++ [row] }
  else
    let number := t.rows.length + 1
    let cells := row.length
    let expected := t.columns.length
    .error (.schema s!"row {number} has {cells} cells, expected {expected}")

/-- The first row that does not fit the columns, with its number. -/
def misfit? (width : Nat) : (number : Nat) → List (List Cell) → Option Error
  | _, [] => none
  | number, row :: rest =>
    if row.length = width then misfit? width (number + 1) rest
    else
      let cells := row.length
      some (.schema s!"row {number} has {cells} cells, expected {width}")

/-- The table with these columns and rows, if the columns are distinct and every row fits. -/
def ofRows (columns : List String) (rows : List (List Cell)) : Except Error Table :=
  match firstRepeated? [] columns with
  | some name => .error (.schema s!"duplicate column name '{name}'")
  | none =>
    match misfit? columns.length 1 rows with
    | some e => .error e
    | none => .ok ⟨columns, rows⟩

/-- The place of a column. -/
def columnIndex? (t : Table) (name : String) : Option Nat :=
  t.columns.findIdx? (· == name)

/-- The place of a column that must be there. -/
def requireColumn (t : Table) (name : String) : Except Error Nat :=
  match t.columnIndex? name with
  | some i => .ok i
  | none =>
    let known := ", ".intercalate t.columns
    .error (.schema s!"column '{name}' not found (columns: {known})")

/-- The cells of a column, from the first row to the last. -/
def column (t : Table) (index : Nat) : List Cell :=
  t.rows.map fun row => row.getD index .null

/-- The kind of a column. -/
def columnKind (t : Table) (index : Nat) : ColumnKind :=
  .ofCells (t.column index)

/-- The columns of a kind, in order. -/
def columnsOfKind (t : Table) (kind : ColumnKind) : List String :=
  (t.columns.zipIdx.filter fun (_, i) => t.columnKind i == kind).map Prod.fst

/-- The columns in which some cell is neither missing nor a number. -/
def categoricalColumns (t : Table) : List String :=
  t.columnsOfKind .categorical

/-- The columns that hold numbers and nothing else. -/
def numericColumns (t : Table) : List String :=
  t.columnsOfKind .numeric

/-- How many cells are missing. -/
def missingCount (t : Table) : Nat :=
  total (t.rows.map fun row => row.countP Json.isNull)

/-- The numbers of a column as doubles. -/
def numericValues (t : Table) (index : Nat) : List Float :=
  (t.column index).filterMap Json.float?

/-- The rows at the given places, in that order; a place beyond the last row gives none. -/
def takeRows (t : Table) (places : List Nat) : Table :=
  let rows := t.rows.toArray
  { t with rows := places.filterMap fun i => rows[i]? }

/-- The table with just these columns, in this order. -/
def selectColumns (t : Table) (names : List String) : Except Error Table := do
  let places ← names.mapM t.requireColumn
  ofRows names (t.rows.map fun row => places.map fun i => row.getD i .null)

/-- The table without these columns. -/
def dropColumns (t : Table) (names : List String) : Except Error Table := do
  let _ ← names.mapM t.requireColumn
  t.selectColumns (t.columns.filter fun name => !names.contains name)

/-- Apply a function to every cell of one column. -/
def mapColumn (t : Table) (index : Nat) (f : Cell → Cell) : Table :=
  { t with rows := t.rows.map fun row => row.modify index f }

end Table
end TableFlow
