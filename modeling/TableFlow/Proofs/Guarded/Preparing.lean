import TableFlow.Proofs.Guarded.Tables
import TableFlow.Proofs.Random.Bounds

/-!
# Guarded preparation of tables

Cleaning, encoding, scaling and splitting with guarded accesses.  Encoding looks up the code of every cell in the list
of the column's categories, and splitting takes rows at the places of a random order; both are there.

Main results:

- Theorem `clean_eq`: cleaning a well-formed table breaks down nowhere.
- Theorems `encodeTargets_eq` and `encodeAll_eq`: nor does encoding it, and its errors are the same.
- Theorems `scaleTargets_eq` and `scaleAll_eq`: nor does scaling it.
- Theorem `partition_eq`: nor does splitting it.
-/

namespace TableFlow
namespace Guarded

variable {t : Table}

/-! ## Cleaning -/

/-- The row at a place has no missing cell. -/
def isComplete (t : Table) (i : Nat) : Guarded Bool := do
  let row ← element t.rows i
  pure (row.all fun cell => !cell.isNull)

/-- The table without the rows that have a missing cell. -/
def dropMissing (t : Table) : Guarded Table := do
  let places ← filter (isComplete t) (List.range t.rows.length)
  takeRows t places

/-- The places of the rows whose text has not been seen before. -/
def firstPlaces (rows : List (List Cell)) : (seen : List String) → List Nat → Guarded (List Nat)
  | _, [] => .ok []
  | seen, i :: rest => do
    let row ← element rows i
    let text := Cleaning.rowText row
    if seen.contains text then firstPlaces rows seen rest
    else do
      let places ← firstPlaces rows (text :: seen) rest
      pure (i :: places)

/-- The table without the rows that repeat an earlier one. -/
def dropDuplicates (t : Table) : Guarded Table := do
  let places ← firstPlaces t.rows [] (List.range t.rows.length)
  takeRows t places

/-- What fills the missing cells of a column; a column without values is told by its name. -/
def fillFor (way : Cleaning) (t : Table) (i : Nat) : Guarded (Option Cell) := do
  let cells ← column t i
  match ColumnKind.ofCells cells, way with
  | .empty, _ => do
    let _ ← element t.columns i
    pure none
  | .numeric, .mean => do
    let stats ← statsOfCells cells
    pure (some (.float stats.mean))
  | .numeric, .median => do
    let stats ← statsOfCells cells
    pure (some (.float stats.median))
  | _, _ => pure (Cleaning.modeOf cells)

/-- The missing cells of a row filled, where there is something to fill them with. -/
def fillRow (fills : List (Option Cell)) (row : List Cell) : Guarded (List Cell) :=
  zipPlaces fills.length (fun fill cell => if cell.isNull then fill.getD .null else cell) fills row

/-- The table with its missing cells filled. -/
def impute (way : Cleaning) (t : Table) : Guarded Table := do
  let fills ← (List.range t.columns.length).mapM (fillFor way t)
  let rows ← t.rows.mapM (fillRow fills)
  pure { t with rows }

/-- The table that rows were dropped from and what to say about it; it may not have more rows than before. -/
def shortened (t : Table) (cleaned : Guarded Table) (message : Table → String) : Guarded (Table × String) := do
  let cleaned ← cleaned
  require (cleaned.rows.length ≤ t.rows.length)
  pure (cleaned, message cleaned)

/-- The cleaned table and what to say about it. -/
def clean (way : Cleaning) (t : Table) : Guarded (Table × String) :=
  match way with
  | .missing =>
    shortened t (dropMissing t) fun cleaned =>
      let dropped := t.rowCount - cleaned.rowCount
      s!"Cleaned missing values: dropped {dropped} row(s), {cleaned.rowCount} remaining"
  | .duplicates =>
    shortened t (dropDuplicates t) fun cleaned =>
      let dropped := t.rowCount - cleaned.rowCount
      s!"Removed {dropped} duplicate row(s), {cleaned.rowCount} remaining"
  | way => do
    let filled ← impute way t
    let n := (way.impute t).2
    pure (filled, s!"Imputed {n} missing cell(s) using {way.name}")

theorem dropMissing_eq (t : Table) : dropMissing t = .ok (Cleaning.dropMissing t) := by
  have hcomplete : ∀ i, ∀ hi : i < t.rows.length,
      isComplete t i = .ok (t.rows[i].all fun cell => !cell.isNull) := by
    intro i hi
    exact bind_ok (element_eq hi) _
  obtain ⟨places, hplaces, hlt, hrows⟩ :=
    filter_range (p := fun row : List Cell => row.all fun cell => !cell.isNull) hcomplete
  rw [dropMissing, bind_ok hplaces, takeRows_eq hlt, Table.takeRows, Cleaning.dropMissing, ← hrows]
  simp

/-- The rows at the first places are the first rows. -/
theorem firstPlaces_eq {rows : List (List Cell)} {places : List Nat} (hplaces : ∀ i ∈ places, i < rows.length)
    (seen : List String) :
    ∃ kept, firstPlaces rows seen places = .ok kept ∧ (∀ i ∈ kept, i ∈ places) ∧
      kept.filterMap (fun i => rows[i]?) =
        Cleaning.firstRows seen (places.filterMap fun i => rows[i]?) := by
  induction places generalizing seen with
  | nil => exact ⟨[], rfl, by simp, rfl⟩
  | cons i places ih =>
      have hi : i < rows.length := hplaces i List.mem_cons_self
      have hfound : rows[i]? = some rows[i] := List.getElem?_eq_getElem hi
      have hrest := ih fun k hk => hplaces k (List.mem_cons_of_mem _ hk)
      rw [firstPlaces, bind_ok (element_eq hi), List.filterMap_cons_some hfound, Cleaning.firstRows]
      by_cases hseen : seen.contains (Cleaning.rowText rows[i]) = true
      · rw [if_pos hseen, if_pos hseen]
        obtain ⟨kept, hkept, hmem, hrows⟩ := hrest seen
        exact ⟨kept, hkept, fun k hk => List.mem_cons_of_mem _ (hmem k hk), hrows⟩
      · rw [if_neg hseen, if_neg hseen]
        obtain ⟨kept, hkept, hmem, hrows⟩ := hrest (Cleaning.rowText rows[i] :: seen)
        refine ⟨i :: kept, ?_, ?_, ?_⟩
        · rw [bind_ok hkept]
          rfl
        · intro k hk
          rcases List.mem_cons.1 hk with rfl | hk
          · exact List.mem_cons_self
          · exact List.mem_cons_of_mem _ (hmem k hk)
        · rw [List.filterMap_cons_some hfound, hrows]

theorem dropDuplicates_eq (t : Table) : dropDuplicates t = .ok (Cleaning.dropDuplicates t) := by
  have hall : ∀ i ∈ List.range t.rows.length, i < t.rows.length := fun _ hi => List.mem_range.1 hi
  obtain ⟨places, hplaces, hmem, hrows⟩ := firstPlaces_eq hall []
  have hlt : ∀ i ∈ places, i < t.rows.length := fun i hi => List.mem_range.1 (hmem i hi)
  rw [filterMap_getElem?_range] at hrows
  rw [dropDuplicates, bind_ok hplaces, takeRows_eq hlt, Table.takeRows, Cleaning.dropDuplicates, ← hrows]
  simp

theorem fillFor_eq (hwell : t.WellFormed) (way : Cleaning) {i : Nat} (hi : i < t.columns.length) :
    fillFor way t i = .ok (way.fillFor (t.column i)) := by
  rw [fillFor, bind_ok (column_eq hwell hi)]
  unfold Cleaning.fillFor
  cases ColumnKind.ofCells (t.column i) with
  | empty => exact bind_ok (element_eq hi) _
  | categorical => cases way <;> rfl
  | numeric =>
      cases way with
      | mean => exact bind_ok (statsOfCells_eq _) _
      | median => exact bind_ok (statsOfCells_eq _) _
      | missing => rfl
      | mode => rfl
      | duplicates => rfl

theorem fillRow_eq {fills : List (Option Cell)} {row : List Cell} (h : row.length = fills.length) :
    fillRow fills row = .ok (Cleaning.fillRow fills row) :=
  zipPlaces_eq rfl h _

theorem impute_eq (hwell : t.WellFormed) (way : Cleaning) : impute way t = .ok (way.impute t).1 := by
  have hfills : ∀ i ∈ List.range t.columns.length, fillFor way t i = .ok (way.fillFor (t.column i)) := by
    intro i hi
    exact fillFor_eq hwell way (List.mem_range.1 hi)
  have hrows : ∀ row ∈ t.rows, fillRow ((List.range t.columns.length).map fun i => way.fillFor (t.column i)) row =
      .ok (Cleaning.fillRow ((List.range t.columns.length).map fun i => way.fillFor (t.column i)) row) := by
    intro row hrow
    apply fillRow_eq
    rw [List.length_map, List.length_range]
    exact hwell.width row hrow
  rw [impute, bind_ok (mapM_eq hfills), bind_ok (mapM_eq hrows)]
  rfl

theorem shortened_eq {cleaned : Table} (h : cleaned.rows.length ≤ t.rows.length) (message : Table → String) :
    shortened t (.ok cleaned) message = .ok (cleaned, message cleaned) :=
  bind_ok (require_eq h) _

/-- Cleaning a well-formed table breaks down nowhere. -/
theorem clean_eq (hwell : t.WellFormed) (way : Cleaning) : clean way t = .ok (way.apply t) := by
  cases way with
  | missing =>
      rw [clean, dropMissing_eq, shortened_eq (List.length_filter_le ..)]
      rfl
  | duplicates =>
      rw [clean, dropDuplicates_eq, shortened_eq (Cleaning.length_firstRows_le _ _)]
      rfl
  | mean => exact bind_ok (impute_eq hwell _) _
  | median => exact bind_ok (impute_eq hwell _) _
  | mode => exact bind_ok (impute_eq hwell _) _

/-! ## Encoding -/

/-- The code of a cell, which has to be of one of the categories. -/
def codeCell (categories : List String) (cell : Cell) : Guarded Cell :=
  match Cell.key? cell with
  | none => .ok cell
  | some key => do
    let code ← placeOf categories key
    pure (.nat code)

/-- The table with a column replaced by one for each category. -/
def oneHotColumn (t : Table) (name : String) (i : Nat) (categories labels : List String) : Guarded Table := do
  let rows ← t.rows.mapM fun row => do
    let cell ← element row i
    pure (Encoding.spliceAt i (fun _ => Encoding.indicators categories cell) row)
  lift (Table.ofRows (Encoding.spliceAt i (fun _ => labels.map fun l => name ++ "_" ++ l) t.columns) rows)

/-- Encode one column. -/
def encodeColumn (way : Encoding) (known : KeyMap (List String)) (p : Encoding.Progress) (name : String) :
    Guarded Encoding.Progress := do
  let index ← lift (p.table.requireColumn name)
  match way, known.get? name with
  | .label, some names =>
    let levels := names.length
    pure { p with notes := p.notes ++ [s!"{name} (already encoded, {levels} levels)"] }
  | .label, none => do
    let cells ← column p.table index
    let cats := Encoding.categories cells
    let levels := cats.length
    let table ← changeColumn p.table index (codeCell cats)
    pure { p with
      table
      recorded := p.recorded ++ [(name, cats)]
      notes := p.notes ++ [s!"{name} ({levels} levels)"] }
  | .oneHot, names? => do
    let cells ← column p.table index
    let cats := Encoding.categories cells
    let levels := cats.length
    let labels := match names? with
      | some names => cats.map (Encoding.recordedLabel names)
      | none => cats
    let table ← oneHotColumn p.table name index cats labels
    pure { p with
      table
      retired := if names?.isSome then p.retired ++ [name] else p.retired
      notes := p.notes ++ [s!"{name} ({levels} levels)"] }

/-- The columns to encode. -/
def encodeTargets (t : Table) (columns : List String) : Guarded (List String) :=
  if columns.isEmpty then columnsOfKind t .categorical
  else lift (Encoding.targets t columns)

/-- Encode columns one after another. -/
def encodeAll (way : Encoding) (known : KeyMap (List String)) (t : Table) (targets : List String) :
    Guarded Encoding.Progress :=
  targets.foldlM (encodeColumn way known) { table := t }

theorem codeCell_eq {cells : List Cell} {cell : Cell} (h : cell ∈ cells) :
    codeCell (Encoding.categories cells) cell =
      .ok (Encoding.codeCell (Encoding.categories cells) cell) := by
  unfold codeCell Encoding.codeCell
  cases hkey : Cell.key? cell with
  | none => rfl
  | some key => exact bind_ok (placeOf_eq (Encoding.mem_categories h hkey)) _

/-- What takes the place of an element may be computed beforehand. -/
theorem spliceAt_getD {α : Type} (several : α → List α) (default : α) (items : List α) (i : Nat) :
    Encoding.spliceAt i (fun _ => several (items.getD i default)) items = Encoding.spliceAt i several items := by
  induction items generalizing i with
  | nil => rw [Encoding.spliceAt, Encoding.spliceAt]
  | cons item items ih =>
      cases i with
      | zero => rfl
      | succ i =>
          rw [Encoding.spliceAt, Encoding.spliceAt, List.getD_cons_succ, ih]

theorem oneHotColumn_eq (hwell : t.WellFormed) {i : Nat} (hi : i < t.columns.length) (name : String)
    (categories labels : List String) :
    oneHotColumn t name i categories labels = lift (Encoding.oneHotColumn t name i categories labels) := by
  have hrows : ∀ row ∈ t.rows, (do
      let cell ← element row i
      pure (Encoding.spliceAt i (fun _ => Encoding.indicators categories cell) row) : Guarded (List Cell)) =
        .ok (Encoding.spliceAt i (Encoding.indicators categories) row) := by
    intro row hrow
    have hlt : i < row.length := by
      rw [hwell.width row hrow]
      exact hi
    rw [bind_ok (element_eq_getD hlt .null), spliceAt_getD]
    rfl
  exact bind_ok (mapM_eq hrows) _

/-- Encoding a column of a well-formed table breaks down nowhere. -/
theorem encodeColumn_eq {way : Encoding} {known : KeyMap (List String)} {p : Encoding.Progress}
    (hwell : p.table.WellFormed) (name : String) :
    encodeColumn way known p name = lift (way.column known p name) := by
  refine bind_lift fun i hfound => ?_
  have hi := Table.lt_of_requireColumn hfound
  cases way with
  | label =>
      cases known.get? name with
      | some names => rfl
      | none =>
          have hcodes : ∀ cell ∈ p.table.column i, codeCell (Encoding.categories (p.table.column i)) cell =
              .ok (Encoding.codeCell (Encoding.categories (p.table.column i)) cell) := fun _ => codeCell_eq
          simp only [bind_ok (column_eq hwell hi), bind_ok (changeColumn_eq hwell hi hcodes)]
          rfl
  | oneHot =>
      simp only [bind_ok (column_eq hwell hi), oneHotColumn_eq hwell hi]
      exact bind_lift fun table _ => rfl

theorem encodeTargets_eq (hwell : t.WellFormed) (columns : List String) :
    encodeTargets t columns = lift (Encoding.targets t columns) := by
  unfold encodeTargets
  by_cases hempty : columns.isEmpty = true
  · rw [if_pos hempty, columnsOfKind_eq hwell, Encoding.targets, if_pos hempty]
    rfl
  · rw [if_neg hempty]

theorem encodeAll_eq (hwell : t.WellFormed) (way : Encoding) (known : KeyMap (List String))
    (targets : List String) :
    encodeAll way known t targets = lift (targets.foldlM (way.column known) { table := t }) := by
  refine foldlM_lift (P := fun p => p.table.WellFormed) ?_ ?_ hwell
  · intro p name _ hp
    exact encodeColumn_eq hp name
  · intro p name _ p' hp hstep
    exact Encoding.wellFormed_column hp hstep

/-! ## Scaling -/

/-- The table with one column scaled, which may not hold categories. -/
def scaleColumn (way : Scaling) (t : Table) (name : String) : Guarded Table := do
  let index ← lift (t.requireColumn name)
  let kind ← columnKind t index
  if kind = .categorical then
    lift (throw (.schema ("column '" ++ name ++ "' is not numeric; run `encode` before `scale`")))
  else do
    let stats ← columnStats t index
    changeColumn t index fun cell =>
      .ok (Scaling.scaleCell (way.shiftAndDivisor stats).1 (way.shiftAndDivisor stats).2 cell)

/-- A column is scaled without being named. -/
def isDefault (context : Context) (t : Table) (exclude : List String) (name : String) : Guarded Bool :=
  if !exclude.contains name && !context.encodings.contains name && context.target != some name then
    match t.columnIndex? name with
    | some index => do
      let cells ← column t index
      pure (!Scaling.areCodes (cells.filterMap Json.float?))
    | none => .ok true
  else .ok false

/-- The columns to scale. -/
def scaleTargets (context : Context) (t : Table) (columns exclude : List String) : Guarded (List String) :=
  if columns.isEmpty then do
    let names ← columnsOfKind t .numeric
    filter (isDefault context t exclude) names
  else .ok columns

/-- Scale columns one after another. -/
def scaleAll (way : Scaling) (t : Table) (targets : List String) : Guarded Table :=
  targets.foldlM (scaleColumn way) t

/-- Scaling a column of a well-formed table breaks down nowhere. -/
theorem scaleColumn_eq (hwell : t.WellFormed) (way : Scaling) (name : String) :
    scaleColumn way t name = lift (way.column t name) := by
  refine bind_lift fun i hfound => ?_
  have hi := Table.lt_of_requireColumn hfound
  simp only [bind_ok (columnKind_eq hwell hi)]
  by_cases hkind : t.columnKind i = .categorical
  · rw [if_pos hkind, if_pos hkind]
    rfl
  · rw [if_neg hkind, if_neg hkind, bind_ok (columnStats_eq hwell hi),
      changeColumn_eq hwell hi fun cell _ => rfl]
    rfl

theorem isDefault_eq (hwell : t.WellFormed) (context : Context) (exclude : List String) (name : String) :
    isDefault context t exclude name = .ok (Scaling.isDefault context t exclude name) := by
  unfold isDefault Scaling.isDefault
  cases !exclude.contains name && !context.encodings.contains name && context.target != some name with
  | false => rfl
  | true =>
      cases hindex : t.columnIndex? name with
      | none => rfl
      | some i =>
          obtain ⟨hi, _, _⟩ := Table.columnIndex?_eq_some_iff.1 hindex
          exact bind_ok (column_eq hwell hi) _

theorem scaleTargets_eq (hwell : t.WellFormed) (context : Context) (columns exclude : List String) :
    scaleTargets context t columns exclude = .ok (Scaling.targets context t columns exclude) := by
  unfold scaleTargets Scaling.targets
  by_cases hempty : columns.isEmpty = true
  · rw [if_pos hempty, if_pos hempty, bind_ok (columnsOfKind_eq hwell .numeric)]
    exact filter_eq fun name _ => isDefault_eq hwell context exclude name
  · rw [if_neg hempty, if_neg hempty]

theorem scaleAll_eq (hwell : t.WellFormed) (way : Scaling) (targets : List String) :
    scaleAll way t targets = lift (targets.foldlM way.column t) := by
  refine foldlM_lift (P := Table.WellFormed) ?_ ?_ hwell
  · intro u name _ hu
    exact scaleColumn_eq hu way name
  · intro u name _ u' hu hstep
    exact Scaling.wellFormed_column hu hstep

/-! ## Splitting -/

/-- The two parts of a table. -/
def partition (t : Table) (fraction : Float) (seed : Nat) : Guarded Partition := do
  let order := Random.permutation t.rowCount seed
  let n := Splitting.trainCount fraction t.rowCount
  let first ← front order n
  let rest ← back order n
  let train ← takeRows t first
  let test ← takeRows t rest
  pure { train, test, trainFraction := fraction, seed }

/-- The random order has a place for every row, and none beyond them. -/
theorem partition_eq (t : Table) (fraction : Float) (seed : Nat) :
    partition t fraction seed = .ok (Splitting.partition t fraction seed) := by
  have hcount : Splitting.trainCount fraction t.rowCount ≤ (Random.permutation t.rowCount seed).length := by
    rw [Random.length_permutation]
    exact Nat.min_le_right _ _
  have hplaces : ∀ i ∈ Random.permutation t.rowCount seed, i < t.rows.length :=
    fun _ => Random.lt_of_mem_permutation
  simp only [partition, bind_ok (front_eq hcount), bind_ok (back_eq hcount),
    bind_ok (takeRows_eq fun i hi => hplaces i (List.mem_of_mem_take hi)),
    bind_ok (takeRows_eq fun i hi => hplaces i (List.mem_of_mem_drop hi))]
  rfl

end Guarded
end TableFlow
