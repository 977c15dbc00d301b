import TableFlow.Table.Basic

/-!
# Column statistics

Counts, mean, spread and quantiles of the numbers of a column.  The numbers are brought into order first and
summed in that order, so the statistics do not depend on the order of the rows.
-/

namespace TableFlow

/-- The sum of doubles from left to right; the empty sum is the negative zero. -/
def sumFloats (xs : List Float) : Float :=
  xs.foldl (· + ·) (-0.0)

/-- Statistics of the numbers of a column. -/
structure ColumnStats where
  /-- How many cells are numbers. -/
  count : Nat := 0
  /-- How many cells are missing. -/
  missing : Nat := 0
  mean : Float := 0.0
  stdDev : Float := 0.0
  min : Float := 0.0
  max : Float := 0.0
  median : Float := 0.0
  deriving Inhabited

namespace ColumnStats

/-- The value in the middle of an ordered list, or the mean of the two values there. -/
def middle (values : List Float) : Float :=
  let count := values.length
  if count % 2 = 0 then (values.getD (count / 2 - 1) 0.0 + values.getD (count / 2) 0.0) / 2.0
  else values.getD (count / 2) 0.0

/-- The statistics of values in ascending order. -/
def ofSorted (values : List Float) (missing : Nat) : ColumnStats :=
  if values.isEmpty then { missing }
  else
    let count := values.length
    let n := Decimal.ofInt count
    let mean := sumFloats values / n
    let variance := sumFloats (values.map fun v => (v - mean) * (v - mean)) / n
    { count
      missing
      mean
      stdDev := variance.sqrt
      min := values.headD 0.0
      max := values.getLastD 0.0
      median := middle values }

/-- The statistics of a column with these cells. -/
def ofCells (cells : List Cell) : ColumnStats :=
  ofSorted ((cells.filterMap Json.float?).mergeSort Decimal.rankLe) (cells.countP Json.isNull)

/-- Numbers that are in order already are taken as they stand. -/
theorem ofCells_eq_ofSorted {cells : List Cell} {values : List Float}
    (hvalues : cells.filterMap Json.float? = values)
    (hsorted : values.Pairwise fun x y => Decimal.rankLe x y = true) :
    ofCells cells = ofSorted values (cells.countP Json.isNull) := by
  rw [ofCells, hvalues, List.mergeSort_of_pairwise hsorted]

end ColumnStats

/-- The statistics of a column. -/
def Table.columnStats (t : Table) (index : Nat) : ColumnStats :=
  .ofCells (t.column index)

end TableFlow
