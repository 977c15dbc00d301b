import TableFlow.Proofs.Guarded.Access
import TableFlow.Proofs.Table.Shape
import TableFlow.Table.Stats

/-!
# Guarded tables

What is read of a table and how it is reshaped, with every cell asked for at its place in its row.  In a well-formed
table the place of a column is a place in each row, so nothing breaks down.

Main results:

- Theorems `column_eq` and `changeColumn_eq`: a column of a well-formed table is read and changed without a breakdown.
- Theorem `columnsOfKind_eq`: so are the kinds of all columns.
- Theorem `statsOfCells_eq`: statistics ask for values that are there, whatever the cells are.
- Theorems `selectColumns_eq` and `dropColumns_eq`: reshaping breaks down nowhere, and its errors are the same.
-/

namespace TableFlow
namespace Guarded

variable {t : Table} {i : Nat}

/-! ## Columns -/

/-- The cells of a column, from the first row to the last. -/
def column (t : Table) (i : Nat) : Guarded (List Cell) :=
  t.rows.mapM fun row => element row i

/-- The kind of a column. -/
def columnKind (t : Table) (i : Nat) : Guarded ColumnKind := do
  let cells ← column t i
  pure (.ofCells cells)

/-- The columns of a kind, in order. -/
def columnsOfKind (t : Table) (kind : ColumnKind) : Guarded (List String) := do
  let places ← filter (fun i => do
    let found ← columnKind t i
    pure (found == kind)) (List.range t.columns.length)
  places.mapM (element t.columns)

/-- Change every cell of a column. -/
def changeColumn (t : Table) (i : Nat) (f : Cell → Guarded Cell) : Guarded Table := do
  let rows ← t.rows.mapM fun row => do
    let cell ← element row i
    let changed ← f cell
    update row i fun _ => changed
  pure { t with rows }

theorem column_eq (hwell : t.WellFormed) (hi : i < t.columns.length) : column t i = .ok (t.column i) := by
  apply mapM_eq
  intro row hrow
  apply element_eq_getD
  rw [hwell.width row hrow]
  exact hi

theorem columnKind_eq (hwell : t.WellFormed) (hi : i < t.columns.length) :
    columnKind t i = .ok (t.columnKind i) := by
  rw [columnKind, bind_ok (column_eq hwell hi)]
  rfl

/-- A list with its places, by its places. -/
theorem zipIdx_eq_map_range (items : List String) :
    items.zipIdx = (List.range items.length).map fun i => (items.getD i "", i) := by
  apply List.ext_getElem
  · simp
  · intro i hi _
    have hlt : i < items.length := by simpa using hi
    simp [hlt]

theorem columnsOfKind_eq (hwell : t.WellFormed) (kind : ColumnKind) :
    columnsOfKind t kind = .ok (t.columnsOfKind kind) := by
  have hkinds : ∀ i ∈ List.range t.columns.length, (do
      let found ← columnKind t i
      pure (found == kind) : Guarded Bool) = .ok (t.columnKind i == kind) := by
    intro i hi
    rw [bind_ok (columnKind_eq hwell (List.mem_range.1 hi))]
    rfl
  have hnames : ∀ i ∈ (List.range t.columns.length).filter fun i => t.columnKind i == kind,
      element t.columns i = .ok (t.columns.getD i "") := by
    intro i hi
    exact element_eq_getD (List.mem_range.1 (List.mem_filter.1 hi).1) _
  rw [columnsOfKind, bind_ok (filter_eq hkinds), mapM_eq hnames, Table.columnsOfKind, zipIdx_eq_map_range,
    List.filter_map, List.map_map]
  rfl

/-- Changing a column breaks down nowhere if changing its cells does not. -/
theorem changeColumn_eq (hwell : t.WellFormed) (hi : i < t.columns.length) {f : Cell → Guarded Cell}
    {g : Cell → Cell} (h : ∀ cell ∈ t.column i, f cell = .ok (g cell)) :
    changeColumn t i f = .ok (t.mapColumn i g) := by
  have hrows : ∀ row ∈ t.rows, (do
      let cell ← element row i
      let changed ← f cell
      update row i fun _ => changed : Guarded (List Cell)) = .ok (row.modify i g) := by
    intro row hrow
    have hlt : i < row.length := by
      rw [hwell.width row hrow]
      exact hi
    have hmem : row[i] ∈ t.column i := by
      refine List.mem_map.2 ⟨row, hrow, ?_⟩
      rw [List.getD_eq_getElem?_getD, List.getElem?_eq_getElem hlt]
      rfl
    rw [bind_ok (element_eq hlt), bind_ok (h _ hmem), update_eq hlt, modify_const hlt]
  rw [changeColumn, bind_ok (mapM_eq hrows)]
  rfl

/-! ## Statistics -/

/-- The value in the middle of an ordered list, or the mean of the two values there. -/
def middle (values : List Float) : Guarded Float :=
  if values.length % 2 = 0 then do
    let below ← element values (values.length / 2 - 1)
    let above ← element values (values.length / 2)
    pure ((below + above) / 2.0)
  else element values (values.length / 2)

/-- The statistics of values in ascending order. -/
def statsOfSorted (values : List Float) (missing : Nat) : Guarded ColumnStats :=
  if values.isEmpty then .ok { missing }
  else do
    let count := values.length
    let n := Decimal.ofInt count
    let mean := sumFloats values / n
    let variance := sumFloats (values.map fun v => (v - mean) * (v - mean)) / n
    let min ← element values 0
    let max ← element values (count - 1)
    let median ← middle values
    pure { count, missing, mean, stdDev := variance.sqrt, min, max, median }

/-- The statistics of a column with these cells. -/
def statsOfCells (cells : List Cell) : Guarded ColumnStats :=
  statsOfSorted ((cells.filterMap Json.float?).mergeSort Decimal.rankLe) (cells.countP Json.isNull)

/-- The statistics of a column. -/
def columnStats (t : Table) (i : Nat) : Guarded ColumnStats := do
  let cells ← column t i
  statsOfCells cells

theorem middle_eq {values : List Float} (h : 0 < values.length) :
    middle values = .ok (ColumnStats.middle values) := by
  have hhalf : values.length / 2 < values.length := Nat.div_lt_self h (by omega)
  unfold middle ColumnStats.middle
  by_cases heven : values.length % 2 = 0
  · have hbelow : values.length / 2 - 1 < values.length := by omega
    rw [if_pos heven, if_pos heven, bind_ok (element_eq_getD hbelow 0.0), bind_ok (element_eq_getD hhalf 0.0)]
    rfl
  · rw [if_neg heven, if_neg heven]
    exact element_eq_getD hhalf 0.0

theorem statsOfSorted_eq (values : List Float) (missing : Nat) :
    statsOfSorted values missing = .ok (ColumnStats.ofSorted values missing) := by
  unfold statsOfSorted ColumnStats.ofSorted
  by_cases hempty : values.isEmpty = true
  · rw [if_pos hempty, if_pos hempty]
  · have hpos : 0 < values.length := by
      rw [List.isEmpty_iff_length_eq_zero] at hempty
      omega
    have hfirst : element values 0 = .ok (values.headD 0.0) := by
      rw [element_eq_getD hpos 0.0]
      cases values <;> rfl
    have hlast : element values (values.length - 1) = .ok (values.getLastD 0.0) := by
      rw [element_eq_getD (by omega) 0.0, List.getLastD_eq_getLast?, List.getLast?_eq_getElem?,
        List.getD_eq_getElem?_getD]
    rw [if_neg hempty, if_neg hempty, bind_ok hfirst, bind_ok hlast, bind_ok (middle_eq hpos)]
    rfl

theorem statsOfCells_eq (cells : List Cell) : statsOfCells cells = .ok (.ofCells cells) :=
  statsOfSorted_eq _ _

theorem columnStats_eq (hwell : t.WellFormed) (hi : i < t.columns.length) :
    columnStats t i = .ok (t.columnStats i) := by
  rw [columnStats, bind_ok (column_eq hwell hi)]
  exact statsOfCells_eq _

/-! ## Reshaping -/

/-- The rows at the given places, in that order. -/
def takeRows (t : Table) (places : List Nat) : Guarded Table := do
  let rows ← places.mapM (element t.rows)
  pure { t with rows }

/-- The table with just these columns, in this order. -/
def selectColumns (t : Table) (names : List String) : Guarded Table := do
  let places ← lift (names.mapM t.requireColumn)
  let rows ← t.rows.mapM fun row => places.mapM (element row)
  lift (Table.ofRows names rows)

/-- The table without these columns. -/
def dropColumns (t : Table) (names : List String) : Guarded Table := do
  let _ ← lift (names.mapM t.requireColumn)
  selectColumns t (t.columns.filter fun name => !names.contains name)

theorem takeRows_eq {places : List Nat} (h : ∀ i ∈ places, i < t.rows.length) :
    takeRows t places = .ok (t.takeRows places) := by
  have hrows : places.mapM (element t.rows) = .ok (t.takeRows places).rows := by
    have hget : ∀ i ∈ places, element t.rows i = .ok (t.rows.getD i []) := by
      intro i hi
      exact element_eq_getD (h i hi) _
    rw [mapM_eq hget, Table.takeRows, ← List.filterMap_eq_map]
    apply congrArg
    apply List.filterMap_congr
    intro i hi
    simp [List.getElem?_eq_getElem (h i hi)]
  rw [takeRows, bind_ok hrows]
  rfl

/-- Each column that must be there has a place in every row. -/
theorem lt_length_of_mem_places (hwell : t.WellFormed) {names : List String} {places : List Nat}
    (h : names.mapM t.requireColumn = .ok places) {row : List Cell} (hrow : row ∈ t.rows) :
    ∀ i ∈ places, i < row.length := by
  intro i hi
  obtain ⟨name, _, hfound⟩ := exists_of_mem_mapM h hi
  rw [hwell.width row hrow]
  exact Table.lt_of_requireColumn hfound

theorem selectColumns_eq (hwell : t.WellFormed) (names : List String) :
    selectColumns t names = lift (t.selectColumns names) := by
  refine bind_lift fun places hplaces => ?_
  have hrows : ∀ row ∈ t.rows,
      places.mapM (element row) = .ok (places.map fun i => row.getD i .null) := by
    intro row hrow
    apply mapM_eq
    intro i hi
    exact element_eq_getD (lt_length_of_mem_places hwell hplaces hrow i hi) _
  exact bind_ok (mapM_eq hrows) _

theorem dropColumns_eq (hwell : t.WellFormed) (names : List String) :
    dropColumns t names = lift (t.dropColumns names) :=
  bind_lift fun _ _ => selectColumns_eq hwell _

end Guarded
end TableFlow
