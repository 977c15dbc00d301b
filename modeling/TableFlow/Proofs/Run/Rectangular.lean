import TableFlow.Proofs.Guarded.Instructions
import TableFlow.Proofs.Run.Contexts

/-!
# The tables of a run are rectangular

Whatever a script does to its tables, and whatever the files hold that it loads, each table of each context has
distinct column names and one cell for each column in every row.  So the place of a column is a place in every row, and
no transform, no reading of features and no writing of a file asks a row for a cell that it does not have.

Main results:

- Definition `Guarded.writeTable`: a table is written with every cell asked for at its place in its row.
- Definition `Table.InPlace`: each cell that is asked for at a place of a table is there.
- Theorem `Table.WellFormed.inPlace`: in a well-formed table it is.
- Theorem `tables_rectangular_after_any_steps`: every table of every context is well-formed, and every instruction finds
  each cell that it asks for.
-/

namespace TableFlow

open Script (Program)

/-! ## Writing -/

namespace Guarded

variable {t : Table} {row : List Cell}

/-- The cells of a row, one for each column. -/
def rowCells (t : Table) (row : List Cell) : Guarded (List Cell) :=
  (List.range t.columns.length).mapM (element row)

/-- A row as an object: each column with the cell at its place. -/
def object (t : Table) (row : List Cell) : Guarded Json := do
  let members ← zipPlaces t.columns.length Prod.mk t.columns row
  pure (.record members)

/-- A row as a record of fields. -/
def record (delimiter : UInt8) (t : Table) (row : List Cell) : Guarded Bytes := do
  let cells ← rowCells t row
  pure (Csv.writeRecord delimiter (cells.map fun c => Text.bytes c.fieldText))

/-- A table in a layout. -/
def writeTable (t : Table) : DataFormat → Guarded Bytes
  | .csv delimiter => do
    let records ← t.rows.mapM (record delimiter t)
    pure (Csv.writeRecord delimiter (t.columns.map Text.bytes) ++ records.flatten)
  | .jsonLines => do
    let objects ← t.rows.mapM (object t)
    pure (objects.flatMap fun o => Text.encode (o.compactChars ++ ['\n']))
  | .json => do
    let objects ← t.rows.mapM (object t)
    pure (Text.bytes (Json.array objects).pretty)

/-- A row with one cell for each column has a cell at the place of each, and no other cells. -/
theorem rowCells_eq (hwidth : row.length = t.columns.length) : rowCells t row = .ok row :=
  mapM_range hwidth fun _ hi => element_eq hi

theorem object_eq (hwidth : row.length = t.columns.length) : object t row = .ok (Records.object t row) := by
  rw [object, bind_ok (zipPlaces_eq rfl hwidth _)]
  rfl

theorem record_eq (delimiter : UInt8) (hwidth : row.length = t.columns.length) :
    record delimiter t row = .ok (Csv.writeRecord delimiter (row.map fun c => Text.bytes c.fieldText)) := by
  rw [record, bind_ok (rowCells_eq hwidth)]
  rfl

/-- A well-formed table is written without a breakdown, in any layout. -/
theorem writeTable_eq (hwell : t.WellFormed) (format : DataFormat) :
    writeTable t format = .ok (DataFile.writeTable t format) := by
  have hobjects : t.rows.mapM (object t) = .ok (t.rows.map (Records.object t)) :=
    mapM_eq fun row hrow => object_eq (hwell.width row hrow)
  cases format with
  | csv delimiter =>
      have hrecords := mapM_eq fun row hrow => record_eq delimiter (hwell.width row hrow)
      rw [writeTable, bind_ok hrecords, DataFile.writeTable, Csv.writeTable, List.flatMap_def]
      rfl
  | jsonLines =>
      rw [writeTable, bind_ok hobjects, DataFile.writeTable, Records.writeLines, List.flatMap_map]
      rfl
  | json =>
      rw [writeTable, bind_ok hobjects]
      rfl

end Guarded

/-! ## Cells in place -/

/-- Each cell that is asked for at a place of the table is there: the place of a column is a place in every row, and
transforms, features and files come out of guarded accesses as they do without. -/
structure Table.InPlace (t : Table) : Prop where
  place : ∀ name i, t.columnIndex? name = some i → ∀ row ∈ t.rows, ∃ cell, row[i]? = some cell
  clean : ∀ way, Guarded.clean way t = .ok (way.apply t)
  encodeTargets : ∀ columns, Guarded.encodeTargets t columns = Guarded.lift (Encoding.targets t columns)
  encode : ∀ (way : Encoding) known targets, Guarded.encodeAll way known t targets =
    Guarded.lift (targets.foldlM (way.column known) { table := t })
  scaleTargets : ∀ context columns exclude,
    Guarded.scaleTargets context t columns exclude = .ok (Scaling.targets context t columns exclude)
  scale : ∀ (way : Scaling) targets,
    Guarded.scaleAll way t targets = Guarded.lift (targets.foldlM way.column t)
  drop : ∀ columns, Guarded.dropColumns t columns = Guarded.lift (t.dropColumns columns)
  select : ∀ columns, Guarded.selectColumns t columns = Guarded.lift (t.selectColumns columns)
  split : ∀ fraction seed, Guarded.partition t fraction seed = .ok (Splitting.partition t fraction seed)
  featureColumns : ∀ target, Guarded.featureColumns t target = Guarded.lift (Learn.featureColumns t target)
  featureMatrix : ∀ columns, Guarded.featureMatrix t columns = Guarded.lift (Learn.featureMatrix t columns)
  write : ∀ format, Guarded.writeTable t format = .ok (DataFile.writeTable t format)

/-- In a well-formed table each cell that is asked for is there. -/
theorem Table.WellFormed.inPlace {t : Table} (hwell : t.WellFormed) : t.InPlace where
  place := by
    intro name i hfound row hrow
    rcases columnIndex?_eq_some_iff.1 hfound with ⟨hi, _⟩
    rw [← hwell.width row hrow] at hi
    exact ⟨row[i], List.getElem?_eq_getElem hi⟩
  clean := Guarded.clean_eq hwell
  encodeTargets := Guarded.encodeTargets_eq hwell
  encode := Guarded.encodeAll_eq hwell
  scaleTargets := Guarded.scaleTargets_eq hwell
  scale := Guarded.scaleAll_eq hwell
  drop := Guarded.dropColumns_eq hwell
  select := Guarded.selectColumns_eq hwell
  split := Guarded.partition_eq t
  featureColumns := Guarded.featureColumns_eq hwell
  featureMatrix := Guarded.featureMatrix_eq hwell
  write := Guarded.writeTable_eq hwell

/-! ## Runs -/

/-- The tables of a context: the one that was loaded, and the two parts that it was split into. -/
def Context.tables (c : Context) : List Table :=
  c.dataset.toList ++ c.split.toList.flatMap fun parts => [parts.train, parts.test]

theorem Context.Shaped.wellFormed {c : Context} (hc : c.Shaped) : ∀ t ∈ c.tables, t.WellFormed := by
  intro t ht
  rcases List.mem_append.1 ht with hdata | hpart
  · exact hc.dataset t (Option.mem_toList.1 hdata)
  · rcases List.mem_flatMap.1 hpart with ⟨parts, hparts, hone⟩
    rcases hc.split parts (Option.mem_toList.1 hparts) with ⟨htrain, htest⟩
    simp only [List.mem_cons, List.not_mem_nil, or_false] at hone
    rcases hone with rfl | rfl
    · exact htrain
    · exact htest

/-- Every context of a run with the services of the library is sound. -/
theorem sound_contextAfter (config : Config) {steps : List Step} (hsteps : Instructed steps) (time : String)
    (files : Files) (n : Nat) : (contextAfter config (.native config time) files steps n).Sound := by
  apply contextAfter_invariant hsteps (Context.sound_start config.seed)
  intro todo w message w' hw hok
  exact (hw.of_execute hok).logged _

/-- After any number of steps of a program, run on any files with the services of the library, the table of the context
and both parts of the split have distinct columns and one cell for each column in every row.  Each access to a cell by
its place is in place there, also in a file that is written; and an instruction that is carried out in this context
with its accesses guarded does what it does without, so it breaks down nowhere. -/
theorem tables_rectangular_after_any_steps (config : Config) (time : String) (files : Files) (p : Program)
    (steps : List Step) (hcompile : ({ config } : Dialect).compile p = .ok steps) (n : Nat) :
    let c := contextAfter config (.native config time) files steps n
    (∀ t ∈ c.tables, t.WellFormed ∧ t.InPlace) ∧
      ∀ todo : Instruction, Guarded.act config time c todo = todo.act (.native config time) c := by
  have hsound := sound_contextAfter config (instruction_of_compile hcompile) time files n
  constructor
  · intro t ht
    have hwell := hsound.toShaped.wellFormed t ht
    exact ⟨hwell, hwell.inPlace⟩
  · exact Guarded.act_eq hsound

/-- A program that replaces the only column of a table by indicators and then drops these. -/
def encodeAndDropAll : Program :=
  ⟨[⟨"load", ["d.csv"], Options.empty, 1⟩, ⟨"encode", ["c"], Options.ofList [("method", "onehot")], 2⟩,
    ⟨"drop", ["c_x", "c_y"], Options.empty, 3⟩]⟩

/-- The steps of that program. -/
def encodeAndDropAllSteps : List Step :=
  [⟨"load", ["d.csv"], Options.empty, 1, (Instruction.load "d.csv").handler⟩,
    ⟨"encode", ["c"], Options.ofList [("method", "onehot")], 2, (Instruction.encode .oneHot ["c"]).handler⟩,
    ⟨"drop", ["c_x", "c_y"], Options.empty, 3, (Instruction.drop ["c_x", "c_y"]).handler⟩]

/-- Files with a table of one column and three rows. -/
def oneColumn : Files :=
  ⟨[(["d.csv"], .file (Text.bytes "c\nx\ny\nx\n"))]⟩

/-- After the last step the table has no columns left, and three rows without cells; it is as well-formed as any. -/
theorem tables_rectangular_without_columns :
    ({} : Dialect).compile encodeAndDropAll = .ok encodeAndDropAllSteps ∧
      ∃ t, (contextAfter {} (.native {} "") oneColumn encodeAndDropAllSteps 3).dataset = some t ∧
        t.columns = [] ∧ t.rows.map List.length = [0, 0, 0] ∧ t.WellFormed ∧ t.InPlace := by
  have hcompile : ({} : Dialect).compile encodeAndDropAll = .ok encodeAndDropAllSteps := rfl
  have hshape : (contextAfter {} (.native {} "") oneColumn encodeAndDropAllSteps 3).dataset.map
      (fun t => (t.columns, t.rows.map List.length)) = some ([], [0, 0, 0]) := by
    decide +kernel
  rcases Option.map_eq_some_iff.1 hshape with ⟨t, ht, hboth⟩
  rcases Prod.mk.inj hboth with ⟨hcolumns, hlengths⟩
  have hmem : t ∈ (contextAfter {} (.native {} "") oneColumn encodeAndDropAllSteps 3).tables := by
    rw [Context.tables, ht]
    simp
  rcases tables_rectangular_after_any_steps {} "" oneColumn _ _ hcompile 3 with ⟨htables, _⟩
  exact ⟨hcompile, t, ht, hcolumns, hlengths, htables t hmem⟩

end TableFlow
