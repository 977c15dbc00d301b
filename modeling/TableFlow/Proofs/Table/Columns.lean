import Mathlib.Data.List.Nodup
import TableFlow.Proofs.Checks
import TableFlow.Table.Basic

/-!
# Columns of tables

A column is found by its name, at the first place that has the name.  `cellsOf` is what the table holds there; the
lemmas here say what each way to reshape a table makes of it.

Main results:

- Theorem `columnIndex?_eq_some_iff`: where a column is found.
- Theorem `requireColumn_eq_ok_iff`: a column that must be there is the one that is found.
- Theorems `cellsOf_mapColumn` and `cellsOf_mapColumn_of_ne`: changing a column changes its cells and leaves the
  other columns alone.
- Theorem `mem_columnsOfKind_iff`: the columns of a kind are those whose cells are of the kind.
- Theorem `cellsOf_selectColumns`: columns that are selected keep their cells.
- Theorem `ofRows_eq_ok_iff`: a table is built from its columns and rows exactly if it is well-formed.
-/

namespace TableFlow
namespace Table

variable {t : Table} {name : String} {i : Nat}

/-- A column is found at the first place that has its name. -/
theorem columnIndex?_eq_some_iff :
    t.columnIndex? name = some i ↔
      ∃ h : i < t.columns.length, t.columns[i] = name ∧ ∀ j, ∀ hj : j < i, t.columns[j] ≠ name := by
  rw [columnIndex?, List.findIdx?_eq_some_iff_getElem]
  simp

/-- A column that must be there is the one that is found. -/
theorem requireColumn_eq_ok_iff : t.requireColumn name = .ok i ↔ t.columnIndex? name = some i := by
  unfold requireColumn
  split
  · next found hfound => rw [hfound, Except.ok.injEq, Option.some.injEq]
  · next hnone =>
      rw [hnone]
      constructor
      · intro h
        cases h
      · intro h
        cases h

/-- Which columns are there depends on the names alone. -/
theorem requireColumn_congr {t' : Table} (h : t'.columns = t.columns) : t'.requireColumn = t.requireColumn := by
  funext name
  unfold requireColumn columnIndex?
  rw [h]

/-- A column that is found is one of the table. -/
theorem mem_of_columnIndex? (h : t.columnIndex? name = some i) : name ∈ t.columns := by
  obtain ⟨hi, hname, _⟩ := columnIndex?_eq_some_iff.1 h
  exact hname ▸ List.getElem_mem hi

/-- Every column of a table is found. -/
theorem exists_columnIndex? (h : name ∈ t.columns) : ∃ i, t.columnIndex? name = some i := by
  cases hfound : t.columnIndex? name with
  | some i => exact ⟨i, rfl⟩
  | none =>
      rw [columnIndex?, List.findIdx?_eq_none_iff] at hfound
      simpa using hfound name h

/-- Columns that must be there are found if they are columns of the table. -/
theorem exists_places_iff {names : List String} :
    (∃ places, names.mapM t.requireColumn = .ok places) ↔ ∀ name ∈ names, name ∈ t.columns := by
  constructor
  · rintro ⟨places, hplaces⟩ name hname
    have hmem : t.requireColumn name ∈ places.map Except.ok := by
      rw [← mapM_eq_ok_iff.1 hplaces]
      exact List.mem_map_of_mem hname
    obtain ⟨i, _, hi⟩ := List.mem_map.1 hmem
    exact mem_of_columnIndex? (requireColumn_eq_ok_iff.1 hi.symm)
  · intro hnames
    refine ⟨names.map fun name => (t.columnIndex? name).getD 0, ?_⟩
    rw [mapM_eq_ok_iff, List.map_map]
    refine List.map_congr_left fun name hname => ?_
    obtain ⟨i, hindex⟩ := exists_columnIndex? (hnames name hname)
    rw [requireColumn_eq_ok_iff.2 hindex, Function.comp_apply, hindex]
    rfl

/-- Columns of different names are found at different places. -/
theorem ne_of_columnIndex? {other : String} {j : Nat} (h : t.columnIndex? name = some i)
    (hother : t.columnIndex? other = some j) (hne : name ≠ other) : i ≠ j := by
  rintro rfl
  obtain ⟨_, hname, _⟩ := columnIndex?_eq_some_iff.1 h
  obtain ⟨_, hsame, _⟩ := columnIndex?_eq_some_iff.1 hother
  exact hne (hname.symm.trans hsame)

/-! ## The cells of a column -/

/-- The cells of the column of a name; none if the table has no such column. -/
def cellsOf (t : Table) (name : String) : List Cell :=
  match t.columnIndex? name with
  | some i => t.column i
  | none => []

theorem cellsOf_eq (h : t.columnIndex? name = some i) : t.cellsOf name = t.column i := by
  rw [cellsOf, h]

/-- A column whose rows are rows of another table with the same columns has no new cells. -/
theorem mem_cellsOf_of_subset {t' : Table} (hcolumns : t'.columns = t.columns)
    (hrows : ∀ row ∈ t'.rows, row ∈ t.rows) {cell : Cell} (h : cell ∈ t'.cellsOf name) :
    cell ∈ t.cellsOf name := by
  have hindex : t'.columnIndex? name = t.columnIndex? name := by
    rw [columnIndex?, columnIndex?, hcolumns]
  rw [cellsOf, hindex] at h
  rw [cellsOf]
  cases hi : t.columnIndex? name with
  | none =>
      rw [hi] at h
      cases h
  | some i =>
      rw [hi] at h
      obtain ⟨row, hrow, rfl⟩ := List.mem_map.1 h
      exact List.mem_map_of_mem (hrows row hrow)

/-! ## Changing a column -/

theorem columnIndex?_mapColumn (f : Cell → Cell) :
    (t.mapColumn i f).columnIndex? name = t.columnIndex? name := rfl

/-- Changing a column leaves the cells at other places alone. -/
theorem column_mapColumn_of_ne (f : Cell → Cell) {j : Nat} (hne : i ≠ j) :
    (t.mapColumn i f).column j = t.column j := by
  simp only [column, mapColumn, List.map_map]
  refine List.map_congr_left fun row _ => ?_
  simp only [Function.comp_apply, List.getD_eq_getElem?_getD, List.getElem?_modify, if_neg hne,
    Option.map_eq_map, Option.map_id_fun', id_eq]

/-- The cells at the place of a column that is changed are the changed ones, if missing cells stay missing: a row that
is too short has one there before and after. -/
theorem column_mapColumn {f : Cell → Cell} (hnull : f .null = .null) :
    (t.mapColumn i f).column i = (t.column i).map f := by
  simp only [column, mapColumn, List.map_map]
  refine List.map_congr_left fun row _ => ?_
  simp only [Function.comp_apply, List.getD_eq_getElem?_getD, List.getElem?_modify, if_true,
    Option.map_eq_map]
  cases row[i]? with
  | none => exact hnull.symm
  | some old => rfl

/-- Changing a column leaves the others alone. -/
theorem cellsOf_mapColumn_of_ne (f : Cell → Cell) (h : t.columnIndex? name ≠ some i) :
    (t.mapColumn i f).cellsOf name = t.cellsOf name := by
  rw [cellsOf, cellsOf, columnIndex?_mapColumn]
  cases hj : t.columnIndex? name with
  | none => rfl
  | some j => exact column_mapColumn_of_ne f fun e => h (e ▸ hj)

/-- The cells of a column that is changed are the changed ones, if missing cells stay missing. -/
theorem cellsOf_mapColumn {f : Cell → Cell} (h : t.columnIndex? name = some i)
    (hnull : f .null = .null) : (t.mapColumn i f).cellsOf name = (t.cellsOf name).map f := by
  rw [cellsOf_eq (t := t.mapColumn i f) h, cellsOf_eq h, column_mapColumn hnull]

/-- Columns at different places may be changed in either order. -/
theorem mapColumn_comm (f g : Cell → Cell) {j : Nat} (hne : i ≠ j) :
    (t.mapColumn i f).mapColumn j g = (t.mapColumn j g).mapColumn i f := by
  simp only [mapColumn, List.map_map, Table.mk.injEq, true_and]
  refine List.map_congr_left fun row _ => ?_
  exact List.modify_modify_ne f g row hne

/-! ## Tables that are built from rows -/

/-- Names of which none is repeated are distinct, and distinct from those that were seen before. -/
theorem nodup_of_firstRepeated? {seen names : List String}
    (h : firstRepeated? seen names = none) : names.Nodup ∧ ∀ n ∈ names, n ∉ seen := by
  induction names generalizing seen with
  | nil => simp
  | cons name names ih =>
      rw [firstRepeated?] at h
      split at h
      · cases h
      · next hnew =>
          obtain ⟨hnodup, hunseen⟩ := ih h
          have hname : name ∉ seen := by simpa using hnew
          refine ⟨List.nodup_cons.2 ⟨?_, hnodup⟩, ?_⟩
          · intro hmem
            exact hunseen name hmem (by simp)
          · intro n hn
            rcases List.mem_cons.1 hn with rfl | hn
            · exact hname
            · intro hmem
              exact hunseen n hn (by simp [hmem])

/-- Distinct names that were not seen before are not repeated. -/
theorem firstRepeated?_of_nodup {seen names : List String} (h : names.Nodup)
    (hseen : ∀ n ∈ names, n ∉ seen) : firstRepeated? seen names = none := by
  induction names generalizing seen with
  | nil => rfl
  | cons name names ih =>
      obtain ⟨hname, hnames⟩ := List.nodup_cons.1 h
      rw [firstRepeated?, if_neg (by simpa using hseen name (by simp))]
      apply ih hnames
      intro n hn
      rw [List.mem_cons, not_or]
      refine ⟨?_, hseen n (List.mem_cons_of_mem _ hn)⟩
      rintro rfl
      exact hname hn

/-- No row is a misfit when every row has one cell for each column. -/
theorem misfit?_eq_none_iff {width number : Nat} {rows : List (List Cell)} :
    misfit? width number rows = none ↔ ∀ row ∈ rows, row.length = width := by
  induction rows generalizing number with
  | nil => simp [misfit?]
  | cons row rows ih =>
      rw [misfit?]
      split
      · next hrow => simp [ih, hrow]
      · next hrow => simp [hrow]

/-- A table is built from its columns and rows exactly if it is well-formed. -/
theorem ofRows_eq_ok_iff {columns : List String} {rows : List (List Cell)} :
    ofRows columns rows = .ok t ↔ t = ⟨columns, rows⟩ ∧ t.WellFormed := by
  unfold ofRows
  cases hrepeated : firstRepeated? [] columns with
  | some name =>
      refine ⟨fun h => (by cases h), ?_⟩
      rintro ⟨rfl, hwell⟩
      have hnone : firstRepeated? [] columns = none := firstRepeated?_of_nodup hwell.nodup (by simp)
      rw [hnone] at hrepeated
      cases hrepeated
  | none =>
      have hnodup := (nodup_of_firstRepeated? hrepeated).1
      cases hmisfit : misfit? columns.length 1 rows with
      | some e =>
          refine ⟨fun h => (by cases h), ?_⟩
          rintro ⟨rfl, hwell⟩
          rw [misfit?_eq_none_iff.2 hwell.width] at hmisfit
          cases hmisfit
      | none =>
          constructor
          · intro h
            cases h
            exact ⟨rfl, hnodup, misfit?_eq_none_iff.1 hmisfit⟩
          · rintro ⟨rfl, _⟩
            rfl

/-- A table that was built from columns and rows has these, and its columns are distinct. -/
theorem ofRows_eq_ok {columns : List String} {rows : List (List Cell)}
    (h : ofRows columns rows = .ok t) : t = ⟨columns, rows⟩ ∧ columns.Nodup := by
  unfold ofRows at h
  split at h
  · cases h
  · next hrepeated =>
      split at h
      · cases h
      · cases h
        exact ⟨rfl, (nodup_of_firstRepeated? hrepeated).1⟩

/-- Among distinct columns, a column is found wherever its name stands. -/
theorem columnIndex?_of_nodup (hnodup : t.columns.Nodup) (h : t.columns[i]? = some name) :
    t.columnIndex? name = some i := by
  obtain ⟨hi, hname⟩ := List.getElem?_eq_some_iff.1 h
  refine columnIndex?_eq_some_iff.2 ⟨hi, hname, ?_⟩
  intro j hj hsame
  have hji := (List.Nodup.getElem_inj_iff hnodup).1 (hsame.trans hname.symm)
  exact absurd hj (hji ▸ Nat.lt_irrefl _)

/-! ## Columns of a kind -/

/-- The columns of a kind are those whose cells are of the kind. -/
theorem mem_columnsOfKind_iff {kind : ColumnKind} (hnodup : t.columns.Nodup) :
    name ∈ t.columnsOfKind kind ↔ name ∈ t.columns ∧ ColumnKind.ofCells (t.cellsOf name) = kind := by
  rw [columnsOfKind, List.mem_map]
  constructor
  · rintro ⟨⟨_, i⟩, hmem, rfl⟩
    obtain ⟨hplace, hkind⟩ := List.mem_filter.1 hmem
    have hcolumn := List.mem_zipIdx_iff_getElem?.1 hplace
    rw [cellsOf_eq (columnIndex?_of_nodup hnodup hcolumn)]
    exact ⟨List.mem_of_getElem? hcolumn, eq_of_beq hkind⟩
  · rintro ⟨hname, hkind⟩
    obtain ⟨i, hi⟩ := exists_columnIndex? hname
    obtain ⟨hlt, hcolumn, _⟩ := columnIndex?_eq_some_iff.1 hi
    rw [cellsOf_eq hi] at hkind
    refine ⟨(name, i), List.mem_filter.2 ⟨?_, beq_iff_eq.2 hkind⟩, rfl⟩
    exact List.mem_zipIdx_iff_getElem?.2 (List.getElem?_eq_some_iff.2 ⟨hlt, hcolumn⟩)

/-- The columns of a kind stand in the order of the table. -/
theorem columnsOfKind_sublist (t : Table) (kind : ColumnKind) : (t.columnsOfKind kind).Sublist t.columns := by
  conv_rhs => rw [← List.zipIdx_map_fst 0 t.columns]
  exact List.filter_sublist.map _

theorem nodup_columnsOfKind {kind : ColumnKind} (hnodup : t.columns.Nodup) : (t.columnsOfKind kind).Nodup :=
  (t.columnsOfKind_sublist kind).nodup hnodup

/-! ## Selecting and dropping columns -/

/-- Selecting gives the selected columns, and each keeps its cells. -/
theorem cellsOf_selectColumns {names : List String} {t' : Table}
    (h : t.selectColumns names = .ok t') :
    t'.columns = names ∧ ∀ name ∈ names, t'.cellsOf name = t.cellsOf name := by
  obtain ⟨places, hplaces, hrows⟩ := bind_eq_ok.1 h
  obtain ⟨rfl, hnodup⟩ := ofRows_eq_ok hrows
  refine ⟨rfl, ?_⟩
  intro name hname
  obtain ⟨j, hj, rfl⟩ := List.mem_iff_getElem.1 hname
  have hplace : (names.map t.requireColumn)[j]? = (places.map Except.ok)[j]? := by
    rw [mapM_eq_ok_iff.1 hplaces]
  rw [List.getElem?_map, List.getElem?_map, List.getElem?_eq_getElem hj] at hplace
  obtain ⟨i, hi, hfound⟩ := Option.map_eq_some_iff.1 hplace.symm
  have hindex := requireColumn_eq_ok_iff.1 hfound.symm
  rw [cellsOf_eq hindex, cellsOf_eq (columnIndex?_of_nodup hnodup (List.getElem?_eq_getElem hj))]
  simp only [column, List.map_map]
  refine List.map_congr_left fun row _ => ?_
  simp [hi]

/-- Dropping columns leaves the other ones, and each keeps its cells. -/
theorem cellsOf_dropColumns {names : List String} {t' : Table}
    (h : t.dropColumns names = .ok t') :
    ∀ name ∈ t.columns, name ∉ names →
      name ∈ t'.columns ∧ t'.cellsOf name = t.cellsOf name := by
  obtain ⟨_, _, hselected⟩ := bind_eq_ok.1 h
  obtain ⟨hcolumns, hcells⟩ := cellsOf_selectColumns hselected
  intro name hname hkept
  have hmem : name ∈ t.columns.filter fun name => !names.contains name := by
    simp [hname, hkept]
  exact ⟨hcolumns ▸ hmem, hcells name hmem⟩

end Table
end TableFlow
