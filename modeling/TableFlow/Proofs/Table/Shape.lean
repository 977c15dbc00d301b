import TableFlow.Proofs.Command.Clean
import TableFlow.Proofs.Command.Encode
import TableFlow.Proofs.Command.Scale
import TableFlow.Command.Split

/-!
# The shape of tables

A table that is built from its parts is well-formed: its columns are distinct, and each row has one cell for each
column.  What the commands make of a well-formed table is well-formed again, and so is what is split off it.

Main results:

- Theorem `lt_of_requireColumn`: a column that must be there has a place among the columns.
- Theorem `WellFormed.of_subset`: rows that are left out do no harm to the shape.
- Theorems `wellFormed_clean`, `wellFormed_encoded`, `wellFormed_scaled`, `wellFormed_selectColumns` and
  `wellFormed_dropColumns`: the commands that change a table keep its shape.
- Theorem `wellFormed_partition`: so do both parts of a table that is split.
-/

namespace TableFlow
namespace Table

variable {t t' : Table} {name : String} {i : Nat}

/-- A column that must be there has a place among the columns. -/
theorem lt_of_requireColumn (h : t.requireColumn name = .ok i) : i < t.columns.length :=
  (columnIndex?_eq_some_iff.1 (requireColumn_eq_ok_iff.1 h)).1

/-- Leaving rows out, or taking them more than once, keeps the shape. -/
theorem WellFormed.of_subset (hwell : t.WellFormed) (hcolumns : t'.columns = t.columns)
    (hrows : ∀ row ∈ t'.rows, row ∈ t.rows) : t'.WellFormed := by
  constructor
  · rw [hcolumns]
    exact hwell.nodup
  · intro row hrow
    rw [hcolumns]
    exact hwell.width row (hrows row hrow)

/-- Changing rows without changing their length keeps the shape. -/
theorem WellFormed.map_rows (hwell : t.WellFormed) {f : List Cell → List Cell}
    (hlength : ∀ row ∈ t.rows, (f row).length = row.length) :
    ({ t with rows := t.rows.map f } : Table).WellFormed := by
  constructor
  · exact hwell.nodup
  · intro row hrow
    obtain ⟨old, hold, rfl⟩ := List.mem_map.1 hrow
    exact (hlength old hold).trans (hwell.width old hold)

theorem wellFormed_mapColumn (hwell : t.WellFormed) (f : Cell → Cell) : (t.mapColumn i f).WellFormed := by
  apply hwell.map_rows
  intro row _
  exact List.length_modify ..

theorem wellFormed_takeRows (hwell : t.WellFormed) (places : List Nat) : (t.takeRows places).WellFormed := by
  refine hwell.of_subset rfl ?_
  intro row hrow
  obtain ⟨i, _, hi⟩ := List.mem_filterMap.1 hrow
  simpa using Array.mem_of_getElem? hi

/-- A table that was built from its columns and rows is well-formed. -/
theorem wellFormed_ofRows {columns : List String} {rows : List (List Cell)}
    (h : ofRows columns rows = .ok t) : t.WellFormed :=
  (ofRows_eq_ok_iff.1 h).2

theorem wellFormed_selectColumns {names : List String} (h : t.selectColumns names = .ok t') :
    t'.WellFormed := by
  obtain ⟨_, _, hrows⟩ := bind_eq_ok.1 h
  exact wellFormed_ofRows hrows

theorem wellFormed_dropColumns {names : List String} (h : t.dropColumns names = .ok t') :
    t'.WellFormed := by
  obtain ⟨_, _, hselected⟩ := bind_eq_ok.1 h
  exact wellFormed_selectColumns hselected

end Table

/-! ## Commands -/

section

variable {t t' : Table}

/-- Filling a row of a well-formed table keeps its length. -/
theorem Cleaning.length_fillRow {fills : List (Option Cell)} {row : List Cell}
    (h : row.length = fills.length) : (fillRow fills row).length = row.length := by
  rw [fillRow, List.length_zipWith, h, Nat.min_self]

/-- No more rows are kept than there are. -/
theorem Cleaning.length_firstRows_le (seen : List String) (rows : List (List Cell)) :
    (firstRows seen rows).length ≤ rows.length := by
  induction rows generalizing seen with
  | nil => exact Nat.le_refl _
  | cons row rows ih =>
      rw [firstRows]
      split
      · exact Nat.le_succ_of_le (ih seen)
      · exact Nat.succ_le_succ (ih _)

/-- Cleaning keeps the shape of a table. -/
theorem wellFormed_clean (hwell : t.WellFormed) (way : Cleaning) : (way.apply t).1.WellFormed := by
  have himpute : (way.impute t).1.WellFormed := by
    apply hwell.map_rows
    intro row hrow
    apply Cleaning.length_fillRow
    rw [List.length_map, List.length_range]
    exact hwell.width row hrow
  cases way with
  | missing => exact hwell.of_subset rfl fun row hrow => (List.mem_filter.1 hrow).1
  | duplicates => exact hwell.of_subset rfl fun row hrow => Cleaning.mem_of_mem_firstRows hrow
  | mean => exact himpute
  | median => exact himpute
  | mode => exact himpute

/-- Encoding one column keeps the shape of the table. -/
theorem Encoding.wellFormed_column {way : Encoding} {known : KeyMap (List String)} {p p' : Progress}
    {name : String} (hwell : p.table.WellFormed) (h : way.column known p name = .ok p') :
    p'.table.WellFormed := by
  cases way with
  | label =>
      obtain ⟨i, _, _, ⟨_, htable, _⟩ | ⟨_, htable, _⟩⟩ := label_eq_ok h
      · rw [htable]
        exact hwell
      · rw [htable]
        exact Table.wellFormed_mapColumn hwell _
  | oneHot =>
      obtain ⟨i, _, h⟩ := bind_eq_ok.1 h
      obtain ⟨table, htable, hpure⟩ := bind_eq_ok.1 h
      cases hpure
      exact Table.wellFormed_ofRows htable

/-- Encoding columns one after another keeps the shape of the table. -/
theorem wellFormed_encoded {way : Encoding} {known : KeyMap (List String)} {targets : List String}
    {done : Encoding.Progress} (hwell : t.WellFormed)
    (h : targets.foldlM (way.column known) { table := t } = .ok done) : done.table.WellFormed := by
  refine foldlM_invariant (P := fun p => p.table.WellFormed) ?_ hwell h
  intro p name _ p' hp hstep
  exact Encoding.wellFormed_column hp hstep

/-- Scaling one column keeps the shape of the table. -/
theorem Scaling.wellFormed_column {way : Scaling} {name : String} (hwell : t.WellFormed)
    (h : way.column t name = .ok t') : t'.WellFormed := by
  obtain ⟨i, _, h⟩ := bind_eq_ok.1 h
  split at h
  split at h
  · cases h
  · cases h
    exact Table.wellFormed_mapColumn hwell _

/-- Scaling columns one after another keeps the shape of the table. -/
theorem wellFormed_scaled {way : Scaling} {targets : List String} (hwell : t.WellFormed)
    (h : targets.foldlM way.column t = .ok t') : t'.WellFormed := by
  refine foldlM_invariant (P := Table.WellFormed) ?_ hwell h
  intro u name _ u' hu hstep
  exact Scaling.wellFormed_column hu hstep

/-- Both parts of a table that is split have its shape. -/
theorem wellFormed_partition (hwell : t.WellFormed) (fraction : Float) (seed : Nat) :
    (Splitting.partition t fraction seed).train.WellFormed ∧
      (Splitting.partition t fraction seed).test.WellFormed :=
  ⟨Table.wellFormed_takeRows hwell _, Table.wellFormed_takeRows hwell _⟩

end

end TableFlow
