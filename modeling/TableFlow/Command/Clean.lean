import TableFlow.Command.Args
import TableFlow.Counting

/-!
# Cleaning

Rows with missing cells or repeated rows are dropped, or missing cells are filled: with the mean or the median
of a numeric column, with the most frequent value of any other.
-/

namespace TableFlow

/-- A way to clean a table. -/
inductive Cleaning where
  /-- Drop the rows with a missing cell. -/
  | missing
  /-- Fill numeric columns with their mean, others with their mode. -/
  | mean
  /-- Fill numeric columns with their median, others with their mode. -/
  | median
  /-- Fill every column with its mode. -/
  | mode
  /-- Drop the rows that repeat an earlier one. -/
  | duplicates
  deriving DecidableEq, Repr, Inhabited

namespace Cleaning

/-- The ways to clean, with their names. -/
def methods : List (Cleaning × List String) := [
  (.missing, ["missing", "dropna", "drop_missing"]),
  (.mean, ["mean"]),
  (.median, ["median"]),
  (.mode, ["mode", "most_frequent"]),
  (.duplicates, ["duplicates", "dedup"])]

/-- The way of a name. -/
def ofName? (name : String) : Option Cleaning :=
  methodOf? methods name

/-- The name of a way. -/
def name : Cleaning → String
  | .missing => "missing"
  | .mean => "mean"
  | .median => "median"
  | .mode => "mode"
  | .duplicates => "duplicates"

/-- The table without the rows that have a missing cell. -/
def dropMissing (t : Table) : Table :=
  { t with rows := t.rows.filter fun row => row.all fun cell => !cell.isNull }

/-- The text that tells rows apart. -/
def rowText (row : List Cell) : String :=
  (Json.array row).compact

/-- The rows whose text has not been seen before. -/
def firstRows : (seen : List String) → List (List Cell) → List (List Cell)
  | _, [] => []
  | seen, row :: rest =>
    let text := rowText row
    if seen.contains text then firstRows seen rest else row :: firstRows (text :: seen) rest

/-- The table without the rows that repeat an earlier one. -/
def dropDuplicates (t : Table) : Table :=
  { t with rows := firstRows [] t.rows }

/-- How often each key occurs, with the first cell that has it. -/
abbrev Tally := KeyMap (Nat × Cell)

/-- Count a cell, unless it is missing. -/
def countCell (tally : Tally) (cell : Cell) : Tally :=
  match Cell.key? cell with
  | none => tally
  | some key =>
    match tally.get? key with
    | none => tally.insert key (1, cell)
    | some (n, first) => tally.insert key (n + 1, first)

/-- The more frequent of the best candidate so far and the next one; of equally frequent ones the first. -/
def moreFrequent (best : Option (Nat × Cell)) (next : Nat × Cell) : Option (Nat × Cell) :=
  match best with
  | none => some next
  | some b => if b.1 < next.1 then some next else best

/-- The most frequent value of a column; of equally frequent ones that with the smallest key, and of the
cells with that key the first. -/
def modeOf (cells : List Cell) : Option Cell :=
  let tally := cells.foldl countCell KeyMap.empty
  ((tally.entries.map Prod.snd).foldl moreFrequent none).map Prod.snd

/-- What fills the missing cells of a column, if it has any value to go by. -/
def fillFor (c : Cleaning) (cells : List Cell) : Option Cell :=
  match ColumnKind.ofCells cells, c with
  | .empty, _ => none
  | .numeric, .mean => some (.float (ColumnStats.ofCells cells).mean)
  | .numeric, .median => some (.float (ColumnStats.ofCells cells).median)
  | _, _ => modeOf cells

/-- The missing cells of a row filled, where there is something to fill them with. -/
def fillRow (fills : List (Option Cell)) (row : List Cell) : List Cell :=
  List.zipWith (fun fill cell => if cell.isNull then fill.getD .null else cell) fills row

/-- How many cells of a row are filled. -/
def filledCells (fills : List (Option Cell)) (row : List Cell) : Nat :=
  (fills.zip row).countP fun (fill, cell) => cell.isNull && fill.isSome

/-- The table with its missing cells filled, and how many were. -/
def impute (c : Cleaning) (t : Table) : Table × Nat :=
  let fills := (List.range t.columnCount).map fun i => c.fillFor (t.column i)
  ({ t with rows := t.rows.map (fillRow fills) }, total (t.rows.map (filledCells fills)))

/-- The cleaned table and what to say about it. -/
def apply (c : Cleaning) (t : Table) : Table × String :=
  match c with
  | .missing =>
    let cleaned := dropMissing t
    let dropped := t.rowCount - cleaned.rowCount
    (cleaned,
      s!"Cleaned missing values: dropped {dropped} row(s), {cleaned.rowCount} remaining")
  | .duplicates =>
    let cleaned := dropDuplicates t
    let dropped := t.rowCount - cleaned.rowCount
    (cleaned, s!"Removed {dropped} duplicate row(s), {cleaned.rowCount} remaining")
  | c =>
    let (filled, n) := c.impute t
    (filled, s!"Imputed {n} missing cell(s) using {c.name}")

/-- Clean the table of a context. -/
def run (c : Cleaning) (context : Context) : StepM String := do
  let t ← StepM.ofExcept (context.requireUnsplit "clean")
  let (cleaned, message) := c.apply t
  StepM.change fun context => { context with dataset := some cleaned }
  StepM.change fun context => context.noted s!"clean {c.name}"
  pure message

/-- The specification of the command. -/
def spec : CommandSpec where
  name := "clean"
  usage := "clean <missing|mean|median|mode|duplicates>"
  minArgs := 1
  maxArgs := some 1
  build := fun i =>
    match ofName? i.firstArg with
    | some c => .ok ⟨"clean", fun _ context => c.run context⟩
    | none =>
      .error (i.error (s!"unknown strategy '{i.firstArg}' " ++
        "(expected one of: missing, mean, median, mode, duplicates)"))

end Cleaning
end TableFlow
