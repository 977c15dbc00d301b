import TableFlow.Proofs.Command.Clean
import TableFlow.Proofs.Command.Effect
import TableFlow.Proofs.Table.Cells
import TableFlow.Proofs.Table.Shape

/-!
# What filling missing cells completes

A step that fills missing cells goes from column to column.  It changes missing cells only, and it leaves a column
without values alone; any other column has no missing cell afterwards, unless it is filled with a mean or a median that
is not finite.  There is no cell for such an average, so the gaps of that column stay.

Main results:

- Theorem `Cleaning.exists_modeOf`: a column with a value has a most frequent one.
- Theorem `Cleaning.ofCells_filled`: filling a column does not change its kind.
- Theorem `Cleaning.missingCount_impute`: each missing cell is missing afterwards or was counted.
- Definition `Cleaning.Imputes`: what filling missing cells does to a table.
- Theorem `imputation_fills_columns`: a step that fills missing cells succeeds and does this.
- Theorem `gap_left_by_mean`: a column of finite numbers that keeps its gap.
-/

namespace TableFlow

namespace Cleaning

variable {c : Cleaning} {cells : List Cell} {cell value : Cell}

/-! ## What a column is filled with -/

/-- A cell that is not missing has a key. -/
theorem exists_key? (h : cell.isNull = false) : ∃ key, Cell.key? cell = some key := by
  cases cell with
  | null => cases h
  | _ => exact ⟨_, rfl⟩

theorem insertKey_ne_nil {α : Type} (key : String) (a : α) (pairs : List (String × α)) :
    insertKey key a pairs ≠ [] := by
  cases pairs with
  | nil => simp [insertKey]
  | cons pair pairs =>
      rw [insertKey]
      split
      · simp
      · split <;> simp

/-- A tally that has counted something does not forget it. -/
theorem countCell_ne_nil {tally : Tally} (h : tally.entries ≠ []) (cell : Cell) :
    (countCell tally cell).entries ≠ [] := by
  unfold countCell
  split
  · exact h
  · split <;> exact insertKey_ne_nil _ _ _

/-- A cell that is not missing is counted. -/
theorem countCell_ne_nil_of_value (tally : Tally) (h : cell.isNull = false) :
    (countCell tally cell).entries ≠ [] := by
  obtain ⟨key, hkey⟩ := exists_key? h
  simp only [countCell, hkey]
  split <;> exact insertKey_ne_nil _ _ _

theorem foldl_countCell_ne_nil {tally : Tally} (h : tally.entries ≠ [] ∨ ∃ cell ∈ cells, cell.isNull = false) :
    (cells.foldl countCell tally).entries ≠ [] := by
  induction cells generalizing tally with
  | nil => simpa using h
  | cons first cells ih =>
      apply ih
      rcases h with htally | ⟨cell, hcell, hvalue⟩
      · exact Or.inl (countCell_ne_nil htally first)
      · rcases List.mem_cons.1 hcell with rfl | hcell
        · exact Or.inl (countCell_ne_nil_of_value tally hvalue)
        · exact Or.inr ⟨cell, hcell, hvalue⟩

/-- Among candidates there is a most frequent one. -/
theorem isSome_foldl_moreFrequent {candidates : List (Nat × Cell)} {best : Option (Nat × Cell)}
    (h : best.isSome = true ∨ candidates ≠ []) : (candidates.foldl moreFrequent best).isSome = true := by
  induction candidates generalizing best with
  | nil => simpa using h
  | cons next candidates ih =>
      apply ih
      left
      unfold moreFrequent
      split
      · rfl
      · split <;> rfl

/-- A column with a value has a most frequent one. -/
theorem exists_modeOf (h : ∃ cell ∈ cells, cell.isNull = false) : ∃ value, modeOf cells = some value := by
  have htally : ((cells.foldl countCell KeyMap.empty).entries.map Prod.snd) ≠ [] := by
    simpa using foldl_countCell_ne_nil (Or.inr h)
  apply Option.isSome_iff_exists.1
  rw [modeOf, Option.isSome_map]
  exact isSome_foldl_moreFrequent (Or.inr htally)

/-- The column is to be filled with an average that is not finite. -/
def Overflows (c : Cleaning) (cells : List Cell) : Prop :=
  ∃ x, c.average? cells = some x ∧ Decimal.isFinite x = false

theorem any_isNumber_of_numeric (h : ColumnKind.ofCells cells = .numeric) : cells.any Cell.isNumber = true := by
  unfold ColumnKind.ofCells at h
  split at h
  · cases h
  · split at h
    · assumption
    · cases h

theorem fillFor_eq_none (h : ∀ cell ∈ cells, cell.isNull = true) : c.fillFor cells = none := by
  simp [fillFor, ofCells_eq_empty_iff.2 h]

theorem exists_fillFor (h : ∃ cell ∈ cells, cell.isNull = false) : ∃ value, c.fillFor cells = some value := by
  rw [fillFor_eq h]
  cases c.average? cells with
  | some x => exact ⟨_, rfl⟩
  | none => exact exists_modeOf h

/-- There is no cell for an average that is not finite, so a missing cell fills the gaps. -/
theorem fillFor_of_overflows (h : c.Overflows cells) : c.fillFor cells = some .null := by
  obtain ⟨x, haverage, hfinite⟩ := h
  rw [fillFor_eq (exists_value_of_average? haverage), haverage]
  simp [Json.float, hfinite]

/-- Only then does a missing cell fill them. -/
theorem overflows_of_fillFor (h : c.fillFor cells = some value) (hnull : value.isNull = true) :
    c.Overflows cells := by
  rcases fillFor_eq_some_cases h with ⟨_, hvalue⟩ | ⟨x, haverage, rfl⟩
  · rw [hnull] at hvalue
    cases hvalue
  · refine ⟨x, haverage, ?_⟩
    by_contra hfinite
    simp [Json.float, hfinite, Json.isNull] at hnull

/-! ## One column -/

/-- What filling a column with these cells makes of one cell. -/
def fillCell (c : Cleaning) (cells : List Cell) (cell : Cell) : Cell :=
  if cell.isNull then (c.fillFor cells).getD .null else cell

theorem fillCell_of_value (cells : List Cell) (h : cell.isNull = false) : c.fillCell cells cell = cell := by
  simp [fillCell, h]

/-- A column that has nothing to be filled with stays as it is. -/
theorem fillCell_of_fillFor (h : c.fillFor cells = none ∨ c.fillFor cells = some .null) :
    c.fillCell cells cell = cell := by
  have hnull : (c.fillFor cells).getD .null = .null := by
    rcases h with h | h <;> rw [h] <;> rfl
  cases cell with
  | null => simpa [fillCell, Json.isNull] using hnull
  | _ => rfl

/-- Columns with values are complete afterwards, unless their average overflows. -/
theorem isNull_fillCell (h : ∃ cell ∈ cells, cell.isNull = false) (hfinite : ¬c.Overflows cells) (cell : Cell) :
    (c.fillCell cells cell).isNull = false := by
  by_cases hcell : cell.isNull = true
  · obtain ⟨value, hvalue⟩ := exists_fillFor (c := c) h
    rw [fillCell, if_pos hcell, hvalue]
    by_contra hnull
    exact hfinite (overflows_of_fillFor hvalue (by simpa using hnull))
  · rw [fillCell_of_value _ (by simpa using hcell)]
    simpa using hcell

/-- What missing cells are filled with is found among the cells of the column, if it is what a test looks for. -/
theorem any_filled {p : Cell → Bool} (hnull : p .null = false)
    (hfill : ∀ value, c.fillFor cells = some value → p value = true → cells.any p = true) :
    (cells.map (c.fillCell cells)).any p = cells.any p := by
  rw [Bool.eq_iff_iff, List.any_map]
  constructor
  · intro h
    obtain ⟨cell, hmem, hp⟩ := List.any_eq_true.1 h
    rw [Function.comp_apply, fillCell] at hp
    by_cases hcell : cell.isNull = true
    · rw [if_pos hcell] at hp
      cases hvalue : c.fillFor cells with
      | none => simp [hvalue, hnull] at hp
      | some value => exact hfill value hvalue (by simpa [hvalue] using hp)
    · rw [if_neg hcell] at hp
      exact List.any_eq_true.2 ⟨cell, hmem, hp⟩
  · intro h
    obtain ⟨cell, hmem, hp⟩ := List.any_eq_true.1 h
    have hvalue : cell.isNull = false := by
      cases cell with
      | null => simp [hnull] at hp
      | _ => rfl
    exact List.any_eq_true.2 ⟨cell, hmem, by rwa [Function.comp_apply, fillCell_of_value _ hvalue]⟩

/-- Filling a column does not change its kind. -/
theorem ofCells_filled (c : Cleaning) (cells : List Cell) :
    ColumnKind.ofCells (cells.map (c.fillCell cells)) = ColumnKind.ofCells cells := by
  have hcategory : (cells.map (c.fillCell cells)).any Cell.isCategory = cells.any Cell.isCategory := by
    refine any_filled rfl ?_
    intro value hvalue hp
    rcases fillFor_eq_some_cases hvalue with ⟨hmem, _⟩ | ⟨x, _, rfl⟩
    · exact List.any_eq_true.2 ⟨value, hmem, hp⟩
    · unfold Json.float at hp
      split at hp <;> cases hp
  have hnumber : (cells.map (c.fillCell cells)).any Cell.isNumber = cells.any Cell.isNumber := by
    refine any_filled rfl ?_
    intro value hvalue hp
    rcases fillFor_eq_some_cases hvalue with ⟨hmem, _⟩ | ⟨x, haverage, _⟩
    · exact List.any_eq_true.2 ⟨value, hmem, hp⟩
    · exact any_isNumber_of_numeric (ofCells_of_average? haverage)
  rw [ColumnKind.ofCells, ColumnKind.ofCells, hcategory, hnumber]

/-! ## All columns -/

section

variable {t : Table} {row place : Nat}

/-- What the columns of a table are filled with. -/
def fills (c : Cleaning) (t : Table) : List (Option Cell) :=
  (List.range t.columnCount).map fun i => c.fillFor (t.column i)

theorem impute_eq (c : Cleaning) (t : Table) :
    c.impute t = ({ t with rows := t.rows.map (fillRow (c.fills t)) },
      total (t.rows.map (filledCells (c.fills t)))) := rfl

theorem getElem?_fills (h : place < t.columns.length) : (c.fills t)[place]? = some (c.fillFor (t.column place)) := by
  simp [fills, Table.columnCount, h]

/-- A table is filled cell by cell, each with what its column is filled with. -/
theorem cell?_impute (hwell : t.WellFormed) (row place : Nat) :
    (c.impute t).1.cell? row place = (t.cell? row place).map (c.fillCell (t.column place)) := by
  rw [impute_eq, Table.cell?, Table.cell?, List.getElem?_map]
  cases hrow : t.rows[row]? with
  | none => rfl
  | some cells =>
      rw [Option.map_some, Option.bind_some, Option.bind_some, fillRow, List.getElem?_zipWith]
      cases hcell : cells[place]? with
      | none => cases (c.fills t)[place]? <;> rfl
      | some cell =>
          have hplace : place < t.columns.length := by
            rw [← hwell.width cells (List.mem_of_getElem? hrow)]
            exact (List.getElem?_eq_some_iff.1 hcell).1
          rw [getElem?_fills hplace]
          rfl

theorem widths_impute (hwell : t.WellFormed) :
    (c.impute t).1.rows.map List.length = t.rows.map List.length := by
  rw [impute_eq, List.map_map]
  apply List.map_congr_left
  intro row hrow
  apply length_fillRow
  rw [fills, List.length_map, List.length_range, hwell.width row hrow, Table.columnCount]

theorem column_impute (hwell : t.WellFormed) (place : Nat) :
    (c.impute t).1.column place = (t.column place).map (c.fillCell (t.column place)) := by
  apply List.ext_getElem?
  intro row
  rw [Table.getElem?_column_eq_cell?, cell?_impute hwell, List.getElem?_map, Table.getElem?_column_eq_cell?,
    impute_eq, List.getElem?_map, Option.map_map, Option.map_map]
  cases hrow : t.rows[row]? with
  | none => rfl
  | some cells =>
      simp only [Option.map_some, Function.comp_apply]
      cases hcell : t.cell? row place with
      | some cell => rfl
      | none =>
          -- no row has a cell here, so the column has no values to be filled with
          have hplace : t.columns.length ≤ place := by
            rw [← hwell.width cells (List.mem_of_getElem? hrow), ← List.getElem?_eq_none_iff]
            rwa [Table.cell?, hrow, Option.bind_some] at hcell
          have hempty : c.fillFor (t.column place) = none := by
            apply fillFor_eq_none
            intro cell hmem
            obtain ⟨other, hother, rfl⟩ := List.mem_map.1 hmem
            have hshort : other.length ≤ place := by rwa [hwell.width other hother]
            simp [hshort, Json.isNull]
          rw [fillCell_of_fillFor (Or.inl hempty)]
          rfl

/-! ## How many cells are filled -/

theorem fillRow_cons (fill : Option Cell) (fills : List (Option Cell)) (cell : Cell) (row : List Cell) :
    fillRow (fill :: fills) (cell :: row) =
      (if cell.isNull then fill.getD .null else cell) :: fillRow fills row := rfl

theorem filledCells_cons (fill : Option Cell) (fills : List (Option Cell)) (cell : Cell) (row : List Cell) :
    filledCells (fill :: fills) (cell :: row) =
      filledCells fills row + if cell.isNull && fill.isSome then 1 else 0 :=
  List.countP_cons ..

/-- In a row where nothing missing is filled with a missing cell, each missing cell is missing afterwards or was
counted. -/
theorem countP_fillRow {fills : List (Option Cell)} {row : List Cell} (hlength : row.length = fills.length)
    (hfills : ∀ value cell, (some value, cell) ∈ fills.zip row → cell.isNull = true → value.isNull = false) :
    (fillRow fills row).countP Json.isNull + filledCells fills row = row.countP Json.isNull := by
  induction row generalizing fills with
  | nil => simp [fillRow, filledCells]
  | cons cell row ih =>
      cases fills with
      | nil => cases hlength
      | cons fill fills =>
          have hrest := ih (by simpa using hlength) fun value other hmem =>
            hfills value other (List.mem_cons_of_mem _ hmem)
          rw [fillRow_cons, filledCells_cons, List.countP_cons, List.countP_cons, ← hrest]
          have hfirst : (if (if cell.isNull then fill.getD .null else cell).isNull then 1 else 0) +
              (if cell.isNull && fill.isSome then 1 else 0) = if cell.isNull then 1 else 0 := by
            cases hcell : cell.isNull with
            | false => simp [hcell]
            | true =>
                cases fill with
                | none => rfl
                | some value => simp [hfills value cell (by simp) hcell]
          omega

/-- If every column with missing cells has a finite average, or none, each missing cell is missing afterwards or was
counted. -/
theorem missingCount_impute (hwell : t.WellFormed)
    (hfinite : ∀ place, c.Overflows (t.column place) → ∀ cell ∈ t.column place, cell.isNull = false) :
    (c.impute t).1.missingCount + (c.impute t).2 = t.missingCount := by
  rw [impute_eq, Table.missingCount, Table.missingCount, List.map_map]
  apply total_map_add
  intro row hrow
  have hlength : row.length = (c.fills t).length := by
    rw [fills, List.length_map, List.length_range, hwell.width row hrow, Table.columnCount]
  apply countP_fillRow hlength
  intro value cell hmem hcell
  obtain ⟨place, hplace⟩ := List.getElem?_of_mem hmem
  obtain ⟨hfill, hat⟩ := List.getElem?_zip_eq_some.1 hplace
  have hlt : place < t.columns.length := by
    rw [← hwell.width row hrow]
    exact (List.getElem?_eq_some_iff.1 hat).1
  rw [getElem?_fills hlt] at hfill
  -- a missing cell would fill this one only if the average of its column were not finite
  by_contra hvalue
  have hoverflows := overflows_of_fillFor (Option.some.inj hfill) (by simpa using hvalue)
  have hcolumn : cell ∈ t.column place := by
    refine List.mem_map.2 ⟨row, hrow, ?_⟩
    rw [List.getD_eq_getElem?_getD, hat, Option.getD_some]
  rw [hfinite place hoverflows cell hcolumn] at hcell
  cases hcell

/-- What filling missing cells does to a table: its columns, the lengths of its rows and the kinds of its columns stay;
each missing cell becomes what its column is filled with, and the cells that are there stay; so columns with values are
complete afterwards, and columns without values are left alone; those whose average is not finite are left alone too. -/
structure Imputes (c : Cleaning) (t filled : Table) : Prop where
  columns : filled.columns = t.columns
  widths : filled.rows.map List.length = t.rows.map List.length
  kinds : ∀ place, filled.columnKind place = t.columnKind place
  cells : ∀ row place, filled.cell? row place = (t.cell? row place).map (c.fillCell (t.column place))
  kept : ∀ row place cell, t.cell? row place = some cell → cell.isNull = false →
    filled.cell? row place = some cell
  complete : ∀ place, (∃ cell ∈ t.column place, cell.isNull = false) → ¬c.Overflows (t.column place) →
    ∀ cell ∈ filled.column place, cell.isNull = false
  untouched : ∀ place, (∀ cell ∈ t.column place, cell.isNull = true) ∨ c.Overflows (t.column place) →
    ∀ row, filled.cell? row place = t.cell? row place

/-- Filling the missing cells of a well-formed table does this. -/
theorem imputes_impute (c : Cleaning) (hwell : t.WellFormed) : c.Imputes t (c.impute t).1 where
  columns := rfl
  widths := widths_impute hwell
  kinds := by
    intro place
    rw [Table.columnKind, Table.columnKind, column_impute hwell, ofCells_filled]
  cells := cell?_impute hwell
  kept := by
    intro row place cell hcell hvalue
    rw [cell?_impute hwell, hcell, Option.map_some, fillCell_of_value _ hvalue]
  complete := by
    intro place hvalues hfinite cell hcell
    rw [column_impute hwell] at hcell
    obtain ⟨old, _, rfl⟩ := List.mem_map.1 hcell
    exact isNull_fillCell hvalues hfinite old
  untouched := by
    intro place hplace row
    have hfill : c.fillFor (t.column place) = none ∨ c.fillFor (t.column place) = some .null := by
      rcases hplace with hempty | hoverflows
      · exact Or.inl (fillFor_eq_none hempty)
      · exact Or.inr (fillFor_of_overflows hoverflows)
    rw [cell?_impute hwell]
    cases t.cell? row place with
    | none => rfl
    | some cell => rw [Option.map_some, fillCell_of_fillFor hfill]

end

end Cleaning

/-! ## Steps that fill missing cells -/

/-- A step that fills missing cells with the mean, the median or the most frequent value succeeds in every context with
a table that is not split.  It puts the filled table in its place, filled as `Cleaning.Imputes` says, and changes
nothing else of the context but the list of transforms.  If each column with missing cells has a finite average, or is
not filled with one, the message counts the missing cells that are there no more. -/
theorem imputation_fills_columns (services : Services) (way : Cleaning) (w : Workspace) (t : Table)
    (hway : way = .mean ∨ way = .median ∨ way = .mode) (hdata : w.context.dataset = some t)
    (hsplit : w.context.split = none) (hwell : t.WellFormed) :
    ∃ filled count,
      ((Instruction.clean way).handler.execute services).runWith w =
        (.ok s!"Imputed {count} missing cell(s) using {way.name}",
          { w with context := { w.context with
            dataset := some filled
            transforms := w.context.transforms ++ ["clean " ++ way.name] } }) ∧
      filled.rowCount = t.rowCount ∧ way.Imputes t filled ∧
      ((∀ place, way.Overflows (t.column place) → ∀ cell ∈ t.column place, cell.isNull = false) →
        filled.missingCount + count = t.missingCount) := by
  refine ⟨(way.impute t).1, (way.impute t).2, ?_, ?_, way.imputes_impute hwell, way.missingCount_impute hwell⟩
  · have hrequired : w.context.requireUnsplit "clean" = .ok t :=
      Instruction.requireUnsplit_eq_ok.2 ⟨hdata, hsplit⟩
    refine StepM.ofExcept_bind_eq_ok.2 ⟨t, hrequired, ?_⟩
    rcases hway with rfl | rfl | rfl <;> rfl
  · rw [Table.rowCount, Cleaning.impute_eq, List.length_map]
    rfl

/-- A table with two columns, each of which has a gap. -/
def gappyTable : Table :=
  ⟨["x", "color"], [[.nat 1, .string "red"], [.null, .string "blue"], [.nat 3, .null]]⟩

/-- No column of that table has a mean that is not finite. -/
theorem not_overflows_gappyTable (place : Nat) : ¬Cleaning.mean.Overflows (gappyTable.column place) := by
  rintro ⟨x, haverage, hfinite⟩
  match place with
  | 0 =>
      have hvalues : (gappyTable.column 0).filterMap Json.float? = [1, 3] := by decide +kernel
      have hmean : Cleaning.mean.average? (gappyTable.column 0) = some (ColumnStats.ofSorted [1, 3] 1).mean := by
        have hstats : ColumnStats.ofCells (gappyTable.column 0) = .ofSorted [1, 3] 1 :=
          ColumnStats.ofCells_eq_ofSorted hvalues (by decide +kernel)
        rw [← hstats]
        rfl
      obtain rfl := Option.some.inj (hmean.symm.trans haverage)
      revert hfinite
      decide +kernel
  | 1 => cases haverage
  | place + 2 => cases haverage

/-- Filling the gaps of that table with means leaves none, and the message counts them. -/
theorem imputation_fills_gappyTable :
    ∃ filled count,
      ((Instruction.clean .mean).handler.execute (.native {} "")).runWith
          ⟨{ dataset := some gappyTable }, Files.empty⟩ =
        (.ok s!"Imputed {count} missing cell(s) using {Cleaning.mean.name}",
          ⟨{ dataset := some filled, transforms := ["clean mean"] }, Files.empty⟩) ∧
      filled.columnKind 0 = .numeric ∧ filled.cell? 1 1 = some (.string "blue") ∧
      (∀ cell ∈ filled.column 0, cell.isNull = false) ∧ filled.missingCount + count = 2 := by
  have hwell : gappyTable.WellFormed := ⟨by decide, by decide⟩
  obtain ⟨filled, count, hrun, _, himputes, hcount⟩ :=
    imputation_fills_columns (.native {} "") .mean ⟨{ dataset := some gappyTable }, Files.empty⟩ gappyTable
      (Or.inl rfl) rfl rfl hwell
  have hfirst : gappyTable.cell? 0 0 = some (.nat 1) := rfl
  have hvalue := Table.mem_column_of_cell? hfirst
  refine ⟨filled, count, hrun, himputes.kinds 0, himputes.kept 1 1 _ rfl rfl, ?_, ?_⟩
  · exact himputes.complete 0 ⟨_, hvalue, rfl⟩ (not_overflows_gappyTable 0)
  · exact hcount fun place hoverflows => absurd hoverflows (not_overflows_gappyTable place)

/-! ## A gap that stays -/

/-- A table of two large numbers and a gap between them. -/
def largeTable : Table :=
  ⟨["x"], [[.number (.float 1.7e308)], [.null], [.number (.float 1.7e308)]]⟩

/-- The sum of the two numbers is infinite, and so is their mean. -/
theorem overflows_largeTable : Cleaning.mean.Overflows (largeTable.column 0) := by
  have hstats : ColumnStats.ofCells (largeTable.column 0) = .ofSorted [1.7e308, 1.7e308] 1 :=
    ColumnStats.ofCells_eq_ofSorted rfl (by decide +kernel)
  refine ⟨_, rfl, ?_⟩
  rw [hstats]
  decide +kernel

/-- So it is not true that a column with values has no missing cell once missing cells have been filled. -/
theorem gap_left_by_mean :
    ¬∀ (services : Services) (way : Cleaning) (w w' : Workspace) (message : String) (t filled : Table),
      way = .mean ∨ way = .median ∨ way = .mode → w.context.dataset = some t → w.context.split = none →
      t.WellFormed → ((Instruction.clean way).handler.execute services).runWith w = (.ok message, w') →
      w'.context.dataset = some filled → ∀ place, (∃ cell ∈ t.column place, cell.isNull = false) →
        ∀ cell ∈ filled.column place, cell.isNull = false := by
  intro hfilled
  have hwell : largeTable.WellFormed := ⟨by decide, by decide⟩
  have hrun : ((Instruction.clean .mean).handler.execute (.native {} "")).runWith
      ⟨{ dataset := some largeTable }, Files.empty⟩ = (.ok "Imputed 1 missing cell(s) using mean", _) := rfl
  have hcomplete := hfilled _ _ _ _ _ _ _ (Or.inl rfl) rfl rfl hwell hrun rfl 0 ⟨.number (.float 1.7e308), by
    simp [Table.column, largeTable], rfl⟩
  have hgap := (Cleaning.mean.imputes_impute hwell).untouched 0 (Or.inr overflows_largeTable) 1
  have hmissing := hcomplete .null (Table.mem_column_of_cell? (hgap.trans rfl))
  cases hmissing

end TableFlow
