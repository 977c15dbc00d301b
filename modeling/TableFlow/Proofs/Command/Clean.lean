import TableFlow.Command.Clean
import TableFlow.Proofs.KeyMap
import TableFlow.Proofs.Table.Columns

/-!
# What cleaning leaves in a column

Cleaning drops rows or fills missing cells, and it never changes a cell that is there.  What a missing cell is filled
with is a value of its column, unless the column is numeric and is filled with its mean or its median.

Main results:

- Theorem `mem_of_modeOf`: the most frequent value of a column is one of its values.
- Definition `average?` and theorem `fillFor_eq_some_cases`: what a column is filled with.
- Theorem `mem_cellsOf_clean`: where the cells of a cleaned column come from.
-/

namespace TableFlow
namespace Cleaning

/-! ## The most frequent value -/

/-- The cells that a tally remembers are among some, and none is missing. -/
def Remembers (cells : List Cell) (tally : Tally) : Prop :=
  ∀ entry ∈ tally.entries, entry.2.2 ∈ cells ∧ entry.2.2.isNull = false

/-- Only a missing cell has no key. -/
theorem isNull_of_key? {cell : Cell} {key : String} (h : Cell.key? cell = some key) :
    cell.isNull = false := by
  cases cell with
  | null => cases h
  | _ => rfl

/-- Counting one of the cells keeps what the tally remembers among them. -/
theorem Remembers.countCell {cells : List Cell} {tally : Tally} (h : Remembers cells tally)
    {cell : Cell} (hcell : cell ∈ cells) : Remembers cells (countCell tally cell) := by
  unfold Cleaning.countCell
  split
  · exact h
  · next key hkey =>
      split
      · intro entry hentry
        rcases mem_of_mem_insertKey hentry with rfl | hentry
        · exact ⟨hcell, isNull_of_key? hkey⟩
        · exact h entry hentry
      · next n first hfirst =>
          intro entry hentry
          rcases mem_of_mem_insertKey hentry with rfl | hentry
          · exact h (key, n, first) (mem_of_lookup_eq hfirst)
          · exact h entry hentry

/-- Counting cells remembers only them. -/
theorem remembers_foldl {cells some' : List Cell} (hsome : ∀ cell ∈ some', cell ∈ cells)
    {tally : Tally} (h : Remembers cells tally) : Remembers cells (some'.foldl countCell tally) := by
  induction some' generalizing tally with
  | nil => exact h
  | cons cell rest ih =>
      have hcell : cell ∈ cells := hsome cell (by simp)
      exact ih (fun d hd => hsome d (by simp [hd])) (h.countCell hcell)

/-- The most frequent candidate is one of the candidates. -/
theorem mem_of_moreFrequent {candidates : List (Nat × Cell)} {best : Option (Nat × Cell)}
    {found : Nat × Cell} (h : candidates.foldl moreFrequent best = some found) :
    found ∈ candidates ∨ best = some found := by
  induction candidates generalizing best with
  | nil => exact Or.inr h
  | cons next rest ih =>
      rcases ih h with hmem | hbest
      · exact Or.inl (List.mem_cons_of_mem _ hmem)
      · unfold moreFrequent at hbest
        split at hbest
        · cases hbest
          simp
        · split at hbest
          · cases hbest
            simp
          · exact Or.inr hbest

/-- The most frequent value of a column is one of its values. -/
theorem mem_of_modeOf {cells : List Cell} {cell : Cell} (h : modeOf cells = some cell) :
    cell ∈ cells ∧ cell.isNull = false := by
  have hremembers : Remembers cells (cells.foldl countCell KeyMap.empty) := by
    refine remembers_foldl (fun _ hd => hd) ?_
    intro entry hentry
    cases hentry
  obtain ⟨found, hfound, rfl⟩ := Option.map_eq_some_iff.1 h
  rcases mem_of_moreFrequent hfound with hmem | hnone
  · obtain ⟨entry, hentry, rfl⟩ := List.mem_map.1 hmem
    exact hremembers entry hentry
  · cases hnone

/-! ## Filling a column -/

section

variable {c : Cleaning} {cells : List Cell} {value : Cell}

/-- A column without values is of no kind. -/
theorem ofCells_eq_empty_iff : ColumnKind.ofCells cells = .empty ↔ ∀ cell ∈ cells, cell.isNull = true := by
  have hcell : ∀ cell : Cell, cell.isNull = true ↔ cell.isCategory = false ∧ cell.isNumber = false := by
    intro cell
    cases cell <;> simp [Json.isNull, Cell.isCategory, Cell.isNumber]
  unfold ColumnKind.ofCells
  split
  · next hcategory =>
      obtain ⟨cell, hmem, hcategory⟩ := List.any_eq_true.1 hcategory
      have : ¬∀ cell ∈ cells, cell.isNull = true := by
        intro hall
        simp [((hcell cell).1 (hall cell hmem)).1] at hcategory
      simpa using this
  · next hcategory =>
      split
      · next hnumber =>
          obtain ⟨cell, hmem, hnumber⟩ := List.any_eq_true.1 hnumber
          have : ¬∀ cell ∈ cells, cell.isNull = true := by
            intro hall
            simp [((hcell cell).1 (hall cell hmem)).2] at hnumber
          simpa using this
      · next hnumber =>
          simp only [true_iff]
          intro cell hmem
          rw [hcell]
          constructor
          · simpa using List.any_eq_false.1 (by simpa using hcategory) cell hmem
          · simpa using List.any_eq_false.1 (by simpa using hnumber) cell hmem

/-- A column is of some kind if it has values. -/
theorem ofCells_ne_empty_iff : ColumnKind.ofCells cells ≠ .empty ↔ ∃ cell ∈ cells, cell.isNull = false := by
  rw [Ne, ofCells_eq_empty_iff]
  push Not
  simp only [ne_eq, Bool.not_eq_true]

/-- The mean or the median that a column is filled with, if it is a column of numbers that is filled with one. -/
def average? (c : Cleaning) (cells : List Cell) : Option Float :=
  match ColumnKind.ofCells cells, c with
  | .numeric, .mean => some (ColumnStats.ofCells cells).mean
  | .numeric, .median => some (ColumnStats.ofCells cells).median
  | _, _ => none

/-- A column with values is filled with its average, or with its most frequent value. -/
theorem fillFor_eq (h : ∃ cell ∈ cells, cell.isNull = false) :
    c.fillFor cells = match c.average? cells with
      | some x => some (.float x)
      | none => modeOf cells := by
  unfold fillFor average?
  cases hcells : ColumnKind.ofCells cells with
  | empty => exact absurd hcells (ofCells_ne_empty_iff.2 h)
  | numeric => cases c <;> rfl
  | categorical => rfl

/-- A column that is averaged holds numbers. -/
theorem ofCells_of_average? {x : Float} (h : c.average? cells = some x) : ColumnKind.ofCells cells = .numeric := by
  unfold average? at h
  cases hkind : ColumnKind.ofCells cells with
  | numeric => rfl
  | categorical => simp [hkind] at h
  | empty => simp [hkind] at h

/-- A column that is averaged has values. -/
theorem exists_value_of_average? {x : Float} (h : c.average? cells = some x) :
    ∃ cell ∈ cells, cell.isNull = false := by
  apply ofCells_ne_empty_iff.1
  rw [ofCells_of_average? h]
  decide

/-- A column is filled with one of its values or with its average. -/
theorem fillFor_eq_some_cases (h : c.fillFor cells = some value) :
    (value ∈ cells ∧ value.isNull = false) ∨ ∃ x, c.average? cells = some x ∧ value = .float x := by
  by_cases hvalues : ∃ cell ∈ cells, cell.isNull = false
  · rw [fillFor_eq hvalues] at h
    cases haverage : c.average? cells with
    | some x =>
        rw [haverage] at h
        exact Or.inr ⟨x, rfl, (Option.some.inj h).symm⟩
    | none =>
        rw [haverage] at h
        exact Or.inl (mem_of_modeOf h)
  · have hempty : ColumnKind.ofCells cells = .empty := by
      by_contra hkind
      exact hvalues (ofCells_ne_empty_iff.1 hkind)
    simp [fillFor, hempty] at h

end

/-- A cell of a filled row was there before, or it is missing there and filled. -/
theorem getD_fillRow {fills : List (Option Cell)} {fill : Option Cell} {i : Nat}
    (hfill : fills[i]? = some fill) (row : List Cell) :
    (fillRow fills row).getD i .null = row.getD i .null ∨
      ((row.getD i .null).isNull = true ∧ (fillRow fills row).getD i .null = fill.getD .null) := by
  rw [List.getD_eq_getElem?_getD, List.getD_eq_getElem?_getD, fillRow, List.getElem?_zipWith, hfill]
  cases row[i]? with
  | none => exact Or.inl rfl
  | some old =>
      cases hnull : old.isNull with
      | false =>
          left
          simp [hnull]
      | true =>
          right
          simp [hnull]

/-- A cell of a filled column was there before, or it fills a missing one. -/
theorem mem_cellsOf_impute {c : Cleaning} {t : Table} {name : String} {cell : Cell}
    (h : cell ∈ (c.impute t).1.cellsOf name) :
    cell.isNull = true ∨ cell ∈ t.cellsOf name ∨
      ((∃ missing ∈ t.cellsOf name, missing.isNull = true) ∧
        c.fillFor (t.cellsOf name) = some cell) := by
  have hindex : (c.impute t).1.columnIndex? name = t.columnIndex? name := rfl
  cases hi : t.columnIndex? name with
  | none =>
      rw [Table.cellsOf, hindex, hi] at h
      cases h
  | some i =>
      obtain ⟨hlt, _, _⟩ := Table.columnIndex?_eq_some_iff.1 hi
      rw [Table.cellsOf_eq (hindex.trans hi)] at h
      rw [Table.cellsOf_eq hi]
      obtain ⟨filled, hfilled, rfl⟩ := List.mem_map.1 h
      obtain ⟨row, hrow, rfl⟩ := List.mem_map.1 hfilled
      have hfill : ((List.range t.columnCount).map fun i => c.fillFor (t.column i))[i]? =
          some (c.fillFor (t.column i)) := by
        simp [Table.columnCount, hlt]
      have hold : row.getD i .null ∈ t.column i := List.mem_map_of_mem hrow
      rcases getD_fillRow hfill row with hsame | ⟨hnull, hfills⟩
      · rw [hsame]
        exact Or.inr (Or.inl hold)
      · rw [hfills]
        cases hvalue : c.fillFor (t.column i) with
        | none => exact Or.inl rfl
        | some value => exact Or.inr (Or.inr ⟨⟨_, hold, hnull⟩, rfl⟩)

/-- Cleaning keeps the columns. -/
theorem columns_clean (c : Cleaning) (t : Table) : (c.apply t).1.columns = t.columns := by
  cases c <;> rfl

/-- Rows that are kept because they repeat no earlier one are rows of the table. -/
theorem mem_of_mem_firstRows {seen : List String} {rows : List (List Cell)} {row : List Cell}
    (h : row ∈ firstRows seen rows) : row ∈ rows := by
  induction rows generalizing seen with
  | nil => cases h
  | cons first rest ih =>
      simp only [firstRows] at h
      split at h
      · exact List.mem_cons_of_mem _ (ih h)
      · rcases List.mem_cons.1 h with rfl | h
        · simp
        · exact List.mem_cons_of_mem _ (ih h)

/-- A missing cell of a column is filled with the average of the others. -/
structure Averages (c : Cleaning) (cells : List Cell) (cell : Cell) : Prop where
  gap : ∃ missing ∈ cells, missing.isNull = true
  average : ∃ x, c.average? cells = some x ∧ cell = .float x

/-- A cell of a cleaned column is missing, or was there before, or is the average that fills a missing one. -/
theorem mem_cellsOf_clean {c : Cleaning} {t : Table} {name : String} {cell : Cell}
    (h : cell ∈ (c.apply t).1.cellsOf name) :
    cell.isNull = true ∨ cell ∈ t.cellsOf name ∨ c.Averages (t.cellsOf name) cell := by
  have himpute : cell ∈ (c.impute t).1.cellsOf name →
      cell.isNull = true ∨ cell ∈ t.cellsOf name ∨ c.Averages (t.cellsOf name) cell := by
    intro hcell
    rcases mem_cellsOf_impute hcell with hnull | hold | ⟨hgap, hfill⟩
    · exact Or.inl hnull
    · exact Or.inr (Or.inl hold)
    · rcases fillFor_eq_some_cases hfill with ⟨hmem, _⟩ | haverage
      · exact Or.inr (Or.inl hmem)
      · exact Or.inr (Or.inr ⟨hgap, haverage⟩)
  cases c with
  | missing =>
      right
      left
      have hsubset : ∀ row ∈ (dropMissing t).rows, row ∈ t.rows :=
        fun row hrow => (List.mem_filter.1 hrow).1
      have hcolumns : (dropMissing t).columns = t.columns := rfl
      exact Table.mem_cellsOf_of_subset hcolumns hsubset h
  | duplicates =>
      right
      left
      have hsubset : ∀ row ∈ (dropDuplicates t).rows, row ∈ t.rows :=
        fun row hrow => mem_of_mem_firstRows hrow
      have hcolumns : (dropDuplicates t).columns = t.columns := rfl
      exact Table.mem_cellsOf_of_subset hcolumns hsubset h
  | mean => exact himpute h
  | median => exact himpute h
  | mode => exact himpute h

end Cleaning
end TableFlow
