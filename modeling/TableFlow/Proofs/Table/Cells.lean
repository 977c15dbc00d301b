import TableFlow.Proofs.Table.Columns

/-!
# Cells by their places

A cell stands in a row, at the place of its column.  What changes a table without moving cells is said place by place
with `cell?`; the cells of a column are then those at its place, one for each row.

Main results:

- Definition `cell?`: the cell at a place of a row.
- Theorem `getElem?_column_eq_cell?`: a column is known from the cells at its place.
- Theorem `cell?_mapColumn`: changing a column changes the cells at its place and no others.
-/

namespace TableFlow
namespace Table

variable {t : Table} {row place : Nat} {cell : Cell}

/-- The cell at a place of a row. -/
def cell? (t : Table) (row place : Nat) : Option Cell :=
  t.rows[row]?.bind fun cells => cells[place]?

/-! ## Columns -/

theorem getElem?_column : (t.column place)[row]? = t.rows[row]?.map fun cells => cells.getD place .null :=
  List.getElem?_map

/-- A cell at the place of a column is a cell of the column. -/
theorem getElem?_column_of_cell? (h : t.cell? row place = some cell) : (t.column place)[row]? = some cell := by
  obtain ⟨cells, hcells, hcell⟩ := Option.bind_eq_some_iff.1 h
  rw [getElem?_column, hcells, Option.map_some, List.getD_eq_getElem?_getD, hcell]
  rfl

theorem mem_column_of_cell? (h : t.cell? row place = some cell) : cell ∈ t.column place :=
  List.mem_of_getElem? (getElem?_column_of_cell? h)

/-- A column is known from the cells at its place: a row without one has a missing cell there. -/
theorem getElem?_column_eq_cell? :
    (t.column place)[row]? = t.rows[row]?.map fun _ => (t.cell? row place).getD .null := by
  rw [getElem?_column, cell?]
  cases t.rows[row]? with
  | none => rfl
  | some cells => simp [List.getD_eq_getElem?_getD]

/-! ## Changing a column -/

/-- Changing a column changes the cell at its place in every row. -/
theorem cell?_mapColumn (i : Nat) (f : Cell → Cell) :
    (t.mapColumn i f).cell? row place = if i = place then (t.cell? row place).map f else t.cell? row place := by
  unfold cell? mapColumn
  rw [List.getElem?_map]
  cases t.rows[row]? with
  | none => simp
  | some cells =>
      by_cases hplace : i = place
      · simp [hplace]
      · simp [hplace]

/-- Changing a column changes no row's length. -/
theorem widths_mapColumn (i : Nat) (f : Cell → Cell) :
    (t.mapColumn i f).rows.map List.length = t.rows.map List.length := by
  simp [mapColumn]

end Table
end TableFlow
