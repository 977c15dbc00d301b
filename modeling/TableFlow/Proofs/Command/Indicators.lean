import TableFlow.Proofs.Command.Labelling
import TableFlow.Proofs.Decimal.Whole
import TableFlow.Proofs.Text.Digit

/-!
# How indicators replace a column

A column may be replaced by indicators of its keys at once, or it may be labelled first and its codes replaced then.
The second way goes through the keys of the codes, which are sorted as texts, and back to the recorded categories.  It
ends with the same indicators, in another order when there are more than ten of them, and it fails where the first one
does: where an indicator would have the name of another column.

Main results:

- Definition `Table.withIndicators`: a table with a column replaced by indicators of some keys.
- Theorem `perm_recordedLabels`: the labels of the codes of a column are its categories in some order.
- Theorem `indicators_codeCell`: under these labels, the indicators of a code are those of the cell that it stands for.
- Theorem `indicators_agree`: both ways succeed alike and end with the same indicators up to their order.
-/

namespace TableFlow

/-! ## Tables with indicators -/

/-- The cell of a row in the indicator of a key, if this is the cell of the row in the column that is replaced. -/
def indicator (key : String) (cell : Cell) : Cell :=
  match Cell.key? cell with
  | none => .null
  | some own => .nat (if own = key then 1 else 0)

/-- The table with the column at a place replaced by one indicator for each of some keys, which it names with the name
of the column, an underscore and the key. -/
def Table.withIndicators (t : Table) (name : String) (place : Nat) (keys : List String) : Table where
  columns := t.columns.take place ++ (keys.map fun key => name ++ "_" ++ key) ++ t.columns.drop (place + 1)
  rows := t.rows.map fun row =>
    row.take place ++ (keys.map fun key => indicator key (row.getD place .null)) ++ row.drop (place + 1)

namespace Encoding

variable {t : Table} {name : String} {i : Nat} {cats keys : List String} {cells : List Cell} {cell : Cell}

theorem indicators_eq_map (cats : List String) (cell : Cell) :
    indicators cats cell = cats.map fun key => indicator key cell := by
  unfold indicators indicator
  cases Cell.key? cell <;> rfl

/-- Replacing an element by several leaves what is before it and what is after it. -/
theorem spliceAt_eq {α : Type} {several : α → List α} {items : List α} (h : i < items.length) (default : α) :
    spliceAt i several items = items.take i ++ several (items.getD i default) ++ items.drop (i + 1) := by
  induction items generalizing i with
  | nil => cases h
  | cons item items ih =>
      cases i with
      | zero => rfl
      | succ i =>
          have hrest : i < items.length := Nat.lt_of_succ_lt_succ h
          rw [spliceAt, ih hrest]
          rfl

theorem spliceAt_modify {α : Type} {several : α → List α} (f : α → α) (items : List α) (i : Nat) :
    spliceAt i several (items.modify i f) = spliceAt i (several ∘ f) items := by
  induction items generalizing i with
  | nil => cases i <;> rfl
  | cons item items ih =>
      cases i with
      | zero => rfl
      | succ i =>
          rw [List.modify_succ_cons, spliceAt, spliceAt, ih]

/-- A table is built with indicators in the place of a column if the cells that are put there are indicators. -/
theorem ofRows_spliced (hwell : t.WellFormed) (hplace : i < t.columns.length) {several : Cell → List Cell}
    (h : ∀ cell ∈ t.column i, several cell = keys.map fun key => indicator key cell) :
    Table.ofRows (spliceAt i (fun _ => keys.map fun key => name ++ "_" ++ key) t.columns)
        (t.rows.map (spliceAt i several)) =
      Table.ofRows (t.withIndicators name i keys).columns (t.withIndicators name i keys).rows := by
  congr 1
  · exact spliceAt_eq hplace ""
  · apply List.map_congr_left
    intro row hrow
    rw [spliceAt_eq (by rw [hwell.width row hrow]; exact hplace) .null, h]
    exact List.mem_map_of_mem hrow

/-! ## Codes as categories -/

/-- The cells of a column as codes of its categories. -/
def codesOf (cells : List Cell) : List Cell :=
  cells.map (codeCell (categories cells))

/-- The key of a code is the digits of its place. -/
theorem key?_codeCell (hcell : cell ∈ cells) (hfew : (categories cells).length < 10 ^ 15) :
    Cell.key? (codeCell (categories cells) cell) =
      (Cell.key? cell).map fun key => toString ((categories cells).idxOf key) := by
  unfold codeCell
  cases hkey : Cell.key? cell with
  | none => exact hkey
  | some key =>
      have hplace := List.idxOf_lt_length_of_mem (mem_categories hcell hkey)
      exact Cell.key?_nat (hplace.trans hfew)

theorem idxOf_categories {j : Nat} (hj : j < (categories cells).length) :
    (categories cells).idxOf (categories cells)[j] = j :=
  (nodup_of_pairwise_lt (pairwise_categories cells)).idxOf_getElem j hj

/-- The categories of the codes of a column are the digits of the places of its categories. -/
theorem mem_categories_codesOf (hfew : (categories cells).length < 10 ^ 15) {code : String} :
    code ∈ categories (codesOf cells) ↔ ∃ j < (categories cells).length, code = toString j := by
  rw [mem_categories_iff]
  constructor
  · rintro ⟨_, hmem, hcode⟩
    obtain ⟨cell, hcell, rfl⟩ := List.mem_map.1 hmem
    rw [key?_codeCell hcell hfew] at hcode
    obtain ⟨key, hkey, rfl⟩ := Option.map_eq_some_iff.1 hcode
    exact ⟨_, List.idxOf_lt_length_of_mem (mem_categories hcell hkey), rfl⟩
  · rintro ⟨j, hj, rfl⟩
    obtain ⟨cell, hcell, hkey⟩ := mem_categories_iff.1 (List.getElem_mem hj)
    refine ⟨_, List.mem_map_of_mem hcell, ?_⟩
    rw [key?_codeCell hcell hfew, hkey, Option.map_some, idxOf_categories hj]

/-- The label of a code is the category at its place. -/
theorem recordedLabel_toString {j : Nat} (hj : j < cats.length) (hfew : cats.length < 10 ^ 15) :
    recordedLabel cats (toString j) = cats[j] := by
  have hword : j < wordBound := (hj.trans hfew).trans (by decide)
  rw [recordedLabel, Text.word64?_toString hword, Option.bind_some, List.getElem?_eq_getElem hj, Option.getD_some]

/-- The labels of the codes of a column: its categories, in the order of the codes as texts. -/
def recordedLabels (cells : List Cell) : List String :=
  (categories (codesOf cells)).map (recordedLabel (categories cells))

/-- The labels of the codes of a column are its categories in some order. -/
theorem perm_recordedLabels (hfew : (categories cells).length < 10 ^ 15) :
    (recordedLabels cells).Perm (categories cells) := by
  have hcodes : (categories (codesOf cells)).Perm ((List.range (categories cells).length).map toString) := by
    rw [List.perm_ext_iff_of_nodup (nodup_of_pairwise_lt (pairwise_categories _))
      (List.nodup_range.map Text.toString_injective)]
    intro code
    rw [mem_categories_codesOf hfew, List.mem_map]
    simp [eq_comm]
  have hlabels : ((List.range (categories cells).length).map toString).map (recordedLabel (categories cells)) =
      categories cells := by
    apply List.ext_getElem (by simp)
    intro j _ hj
    simp only [List.getElem_map, List.getElem_range, recordedLabel_toString hj hfew]
  exact (hcodes.map _).trans (List.Perm.of_eq hlabels)

/-- The indicators of a code are those of the cell that it stands for, under the labels of the codes. -/
theorem indicators_codeCell (hcell : cell ∈ cells) (hfew : (categories cells).length < 10 ^ 15) :
    indicators (categories (codesOf cells)) (codeCell (categories cells) cell) =
      (recordedLabels cells).map fun key => indicator key cell := by
  rw [indicators_eq_map, recordedLabels, List.map_map]
  apply List.map_congr_left
  intro code hcode
  obtain ⟨j, hj, rfl⟩ := (mem_categories_codesOf hfew).1 hcode
  rw [Function.comp_apply, recordedLabel_toString hj hfew]
  unfold indicator
  rw [key?_codeCell hcell hfew]
  cases hkey : Cell.key? cell with
  | none => rfl
  | some key =>
      have hsame : toString ((categories cells).idxOf key) = toString j ↔ key = (categories cells)[j] := by
        constructor
        · intro h
          have hplace := List.idxOf_lt_length_of_mem (mem_categories hcell hkey)
          obtain rfl := Text.toString_injective h
          exact (List.getElem_idxOf hplace).symm
        · rintro rfl
          rw [idxOf_categories hj]
      simp only [Option.map_some, hsame]

/-! ## Replacing one column -/

/-- The names of the indicators of categories: the recorded categories if the cells are codes of them. -/
def indicatorNames (recorded : Option (List String)) (cats : List String) : List String :=
  match recorded with
  | some names => cats.map (recordedLabel names)
  | none => cats

section

variable {u : Table} {known : KeyMap (List String)} {p : Progress}

/-- Replacing a column by indicators of its categories gives the table with these indicators, if it is well-formed. -/
theorem oneHotColumn_eq_ok_iff (hwell : t.WellFormed) (hindex : t.columnIndex? name = some i) :
    oneHotColumn t name i (categories (t.column i)) (categories (t.column i)) = .ok u ↔
      u = t.withIndicators name i (categories (t.column i)) ∧ u.WellFormed := by
  obtain ⟨hplace, _⟩ := Table.columnIndex?_eq_some_iff.1 hindex
  rw [oneHotColumn, ofRows_spliced hwell hplace fun cell _ => indicators_eq_map _ cell, Table.ofRows_eq_ok_iff]

/-- So does replacing the codes of a column, with the indicators in the order of the codes. -/
theorem oneHotColumn_labelColumn_eq_ok_iff (hwell : t.WellFormed) (hindex : t.columnIndex? name = some i)
    (hfew : (categories (t.column i)).length < 10 ^ 15) :
    oneHotColumn (labelColumn t i (categories (t.column i))) name i (categories (codesOf (t.column i)))
        (recordedLabels (t.column i)) = .ok u ↔
      u = t.withIndicators name i (recordedLabels (t.column i)) ∧ u.WellFormed := by
  obtain ⟨hplace, _⟩ := Table.columnIndex?_eq_some_iff.1 hindex
  have hrows : (labelColumn t i (categories (t.column i))).rows.map
        (spliceAt i (indicators (categories (codesOf (t.column i))))) =
      t.rows.map
        (spliceAt i (indicators (categories (codesOf (t.column i))) ∘ codeCell (categories (t.column i)))) := by
    rw [labelColumn, Table.mapColumn, List.map_map]
    apply List.map_congr_left
    intro row _
    exact spliceAt_modify _ row i
  have hcolumns : (labelColumn t i (categories (t.column i))).columns = t.columns := rfl
  have hcells : ∀ cell ∈ t.column i,
      (indicators (categories (codesOf (t.column i))) ∘ codeCell (categories (t.column i))) cell =
        (recordedLabels (t.column i)).map fun key => indicator key cell :=
    fun cell hcell => indicators_codeCell hcell hfew
  rw [oneHotColumn, hrows, hcolumns, ofRows_spliced hwell hplace hcells, Table.ofRows_eq_ok_iff]

/-- In which order the indicators stand makes no difference to the shape of the table. -/
theorem wellFormed_withIndicators_of_perm {keys' : List String} (hperm : keys'.Perm keys)
    (h : (t.withIndicators name i keys).WellFormed) : (t.withIndicators name i keys').WellFormed := by
  have hcolumns : (t.withIndicators name i keys').columns.Perm (t.withIndicators name i keys).columns :=
    ((hperm.map _).append_left _).append_right _
  constructor
  · exact hcolumns.nodup_iff.2 h.nodup
  · intro row hrow
    obtain ⟨old, hold, rfl⟩ := List.mem_map.1 hrow
    have hwidth := h.width _ (List.mem_map_of_mem hold)
    rw [hcolumns.length_eq, ← hwidth]
    simp [hperm.length_eq]

/-- Replacing a column by indicators builds the table with them, and retires what was recorded of the column. -/
theorem oneHot_column_eq (known : KeyMap (List String)) (p : Progress) (name : String) :
    Encoding.oneHot.column known p name = (do
      let i ← p.table.requireColumn name
      let cats := categories (p.table.column i)
      let levels := cats.length
      let table ← oneHotColumn p.table name i cats (indicatorNames (known.get? name) cats)
      pure { p with
        table
        retired := if (known.get? name).isSome then p.retired ++ [name] else p.retired
        notes := p.notes ++ [s!"{name} ({levels} levels)"] }) := by
  unfold Encoding.column
  cases known.get? name <;> rfl

/-- It succeeds if that table can be built. -/
theorem exists_oneHot_iff : (∃ p', Encoding.oneHot.column known p name = .ok p' ∧ p'.table = u) ↔
    ∃ i, p.table.columnIndex? name = some i ∧
      oneHotColumn p.table name i (categories (p.table.column i))
        (indicatorNames (known.get? name) (categories (p.table.column i))) = .ok u := by
  rw [oneHot_column_eq]
  constructor
  · rintro ⟨p', hstep, rfl⟩
    obtain ⟨i, hfound, h⟩ := bind_eq_ok.1 hstep
    obtain ⟨table, htable, hpure⟩ := bind_eq_ok.1 h
    cases hpure
    exact ⟨i, Table.requireColumn_eq_ok_iff.1 hfound, htable⟩
  · rintro ⟨i, hindex, htable⟩
    have hfound := Table.requireColumn_eq_ok_iff.2 hindex
    exact ⟨_, bind_eq_ok.2 ⟨i, hfound, bind_eq_ok.2 ⟨u, htable, rfl⟩⟩, rfl⟩

end

/-! ## Steps that encode one column -/

section

variable {services : Services} {way : Encoding} {w w' : Workspace} {message : String} {u : Table}

/-- What a step that encodes one column has done. -/
theorem column_of_execute (hdata : w.context.dataset = some t)
    (h : ((Instruction.encode way [name]).handler.execute services).runWith w = (.ok message, w')) :
    ∃ p, way.column w.context.encodings { table := t } name = .ok p ∧ w'.context.dataset = some p.table ∧
      w'.context.split = none ∧ w'.context.encodings =
        (w.context.encodings.filter fun other => !p.retired.contains other).insertAll p.recorded := by
  obtain ⟨targets, p, htargets, hdone, hafter⟩ := encoded_of_execute hdata h
  rcases targets_eq_ok htargets with ⟨hnil, _⟩ | ⟨_, rfl, _⟩
  · cases hnil
  · obtain ⟨q, hstep, hrest⟩ := foldlM_cons_eq_ok.1 hdone
    cases hrest
    exact ⟨_, hstep, hafter⟩

/-- A step that encodes one column succeeds if the column can be encoded. -/
theorem execute_column_iff (services : Services) (hdata : w.context.dataset = some t)
    (hsplit : w.context.split = none) :
    (∃ message w', ((Instruction.encode way [name]).handler.execute services).runWith w = (.ok message, w') ∧
        w'.context.dataset = some u) ↔
      ∃ p, way.column w.context.encodings { table := t } name = .ok p ∧ p.table = u := by
  constructor
  · rintro ⟨message, w', hrun, hdata'⟩
    obtain ⟨p, hstep, hafter, _⟩ := column_of_execute hdata hrun
    exact ⟨p, hstep, Option.some.inj (hafter.symm.trans hdata')⟩
  · rintro ⟨p, hstep, rfl⟩
    obtain ⟨i, hfound, _⟩ := bind_eq_ok.1 hstep
    have htargets : Encoding.targets t [name] = .ok [name] :=
      bind_eq_ok.2 ⟨[i], mapM_eq_ok_iff.2 (congrArg (fun found => [found]) hfound), rfl⟩
    obtain ⟨message, w', hrun, hdata', _⟩ :=
      exists_execute services hdata hsplit htargets (foldlM_cons_eq_ok.2 ⟨p, hstep, rfl⟩)
    exact ⟨message, w', hrun, hdata'⟩

/-- A step that replaces a column by indicators at once. -/
theorem execute_oneHot_iff (services : Services) (hdata : w.context.dataset = some t)
    (hsplit : w.context.split = none) (hwell : t.WellFormed) (hnew : w.context.encodings.get? name = none) :
    (∃ message w', ((Instruction.encode .oneHot [name]).handler.execute services).runWith w = (.ok message, w') ∧
        w'.context.dataset = some u) ↔
      ∃ i, t.columnIndex? name = some i ∧ u = t.withIndicators name i (categories (t.cellsOf name)) ∧
        u.WellFormed := by
  rw [execute_column_iff services hdata hsplit, exists_oneHot_iff, hnew]
  apply exists_congr
  intro i
  apply and_congr_right
  intro hindex
  rw [Table.cellsOf_eq hindex]
  exact oneHotColumn_eq_ok_iff hwell hindex

/-- A step that labels one column that is not recorded. -/
theorem label_of_execute (hdata : w.context.dataset = some t) (hnew : w.context.encodings.get? name = none)
    (h : ((Instruction.encode .label [name]).handler.execute services).runWith w = (.ok message, w')) :
    ∃ i, t.columnIndex? name = some i ∧
      w'.context.dataset = some (labelColumn t i (categories (t.column i))) ∧ w'.context.split = none ∧
      w'.context.encodings.get? name = some (categories (t.column i)) := by
  obtain ⟨p, hstep, hdata', hsplit', hencodings⟩ := column_of_execute hdata h
  obtain ⟨i, hindex, _, ⟨hknown, _⟩ | ⟨_, htable, hrecorded⟩⟩ := label_eq_ok hstep
  · rw [hnew] at hknown
    cases hknown
  · refine ⟨i, hindex, ?_, hsplit', ?_⟩
    · rw [hdata', htable]
    · rw [hencodings, hrecorded, KeyMap.insertAll_concat, KeyMap.get?_insert, if_pos rfl]

/-- A step that replaces a column by indicators once it is labelled. -/
theorem execute_oneHot_labelColumn_iff (services : Services)
    (hdata : w.context.dataset = some (labelColumn t i (categories (t.column i)))) (hsplit : w.context.split = none)
    (hwell : t.WellFormed) (hindex : t.columnIndex? name = some i)
    (hknown : w.context.encodings.get? name = some (categories (t.column i)))
    (hfew : (categories (t.column i)).length < 10 ^ 15) :
    (∃ message w', ((Instruction.encode .oneHot [name]).handler.execute services).runWith w = (.ok message, w') ∧
        w'.context.dataset = some u) ↔
      u = t.withIndicators name i (recordedLabels (t.column i)) ∧ u.WellFormed := by
  have hcodes : (labelColumn t i (categories (t.column i))).column i = codesOf (t.column i) :=
    Table.column_mapColumn rfl
  rw [execute_column_iff services hdata hsplit, exists_oneHot_iff, hknown,
    ← oneHotColumn_labelColumn_eq_ok_iff hwell hindex hfew]
  constructor
  · rintro ⟨j, hfound, htable⟩
    obtain rfl : i = j := Option.some.inj (hindex.symm.trans hfound)
    rw [hcodes] at htable
    exact htable
  · intro htable
    refine ⟨i, hindex, ?_⟩
    rw [hcodes]
    exact htable

/-- A step that labels a column of the table succeeds. -/
theorem exists_label (services : Services) (hdata : w.context.dataset = some t) (hsplit : w.context.split = none)
    (hindex : t.columnIndex? name = some i) :
    ∃ message w', ((Instruction.encode .label [name]).handler.execute services).runWith w = (.ok message, w') := by
  have hstep : ∃ p, Encoding.label.column w.context.encodings { table := t } name = .ok p := by
    have hfound := Table.requireColumn_eq_ok_iff.2 hindex
    unfold Encoding.column
    cases w.context.encodings.get? name with
    | none => exact ⟨_, bind_eq_ok.2 ⟨i, hfound, rfl⟩⟩
    | some names => exact ⟨_, bind_eq_ok.2 ⟨i, hfound, rfl⟩⟩
  obtain ⟨p, hp⟩ := hstep
  obtain ⟨message, w', hrun, _⟩ := (execute_column_iff services hdata hsplit).2 ⟨p, hp, rfl⟩
  exact ⟨message, w', hrun⟩

/-- No list is recorded of a column that a step has replaced by indicators. -/
theorem get?_of_execute_oneHot (hdata : w.context.dataset = some t)
    (h : ((Instruction.encode .oneHot [name]).handler.execute services).runWith w = (.ok message, w')) :
    w'.context.encodings.get? name = none := by
  obtain ⟨p, hstep, _, _, hencodings⟩ := column_of_execute hdata h
  obtain ⟨_, _, _, _, _, _, hrecorded, hretired⟩ := oneHot_eq_ok hstep
  rw [hencodings, hrecorded, KeyMap.insertAll_nil, KeyMap.get?_filter, hretired]
  cases hknown : w.context.encodings.get? name with
  | none => exact ite_self _
  | some names => simp

/-- A step that replaces a column by indicators at once leaves the table with them. -/
theorem indicators_of_execute (hdata : w.context.dataset = some t) (hsplit : w.context.split = none)
    (hwell : t.WellFormed) (hnew : w.context.encodings.get? name = none)
    (hrun : ((Instruction.encode .oneHot [name]).handler.execute services).runWith w = (.ok message, w')) :
    ∃ i, t.columnIndex? name = some i ∧
      w'.context.dataset = some (t.withIndicators name i (categories (t.cellsOf name))) ∧
      (t.withIndicators name i (categories (t.cellsOf name))).WellFormed := by
  obtain ⟨p, _, hdata', _⟩ := column_of_execute hdata hrun
  obtain ⟨i, hindex, htable, hbuilt⟩ :=
    (execute_oneHot_iff services hdata hsplit hwell hnew).1 ⟨message, w', hrun, hdata'⟩
  exact ⟨i, hindex, hdata'.trans (congrArg some htable), htable ▸ hbuilt⟩

/-- A step that does so once the column is labelled leaves the table with the same ones in some order. -/
theorem indicators_of_labelled {second : String} {w₂ : Workspace} (hdata : w.context.dataset = some t)
    (hwell : t.WellFormed) (hnew : w.context.encodings.get? name = none)
    (hfew : (categories (t.cellsOf name)).length < 10 ^ 15)
    (hlabel : ((Instruction.encode .label [name]).handler.execute services).runWith w = (.ok message, w'))
    (hrun : ((Instruction.encode .oneHot [name]).handler.execute services).runWith w' = (.ok second, w₂)) :
    ∃ i keys, t.columnIndex? name = some i ∧ keys.Perm (categories (t.cellsOf name)) ∧
      w₂.context.dataset = some (t.withIndicators name i keys) ∧ (t.withIndicators name i keys).WellFormed := by
  obtain ⟨i, hindex, hdata', hsplit', hknown⟩ := label_of_execute hdata hnew hlabel
  rw [Table.cellsOf_eq hindex] at hfew ⊢
  obtain ⟨p, _, hdata₂, _⟩ := column_of_execute hdata' hrun
  obtain ⟨htable, hbuilt⟩ :=
    (execute_oneHot_labelColumn_iff services hdata' hsplit' hwell hindex hknown hfew).1 ⟨second, w₂, hrun, hdata₂⟩
  exact ⟨i, _, hindex, perm_recordedLabels hfew, hdata₂.trans (congrArg some htable), htable ▸ hbuilt⟩

/-- If a column can be replaced by indicators at once, it can be labelled and its codes replaced then. -/
theorem exists_labelled_of_execute (hdata : w.context.dataset = some t) (hsplit : w.context.split = none)
    (hwell : t.WellFormed) (hnew : w.context.encodings.get? name = none)
    (hfew : (categories (t.cellsOf name)).length < 10 ^ 15)
    (hrun : ((Instruction.encode .oneHot [name]).handler.execute services).runWith w = (.ok message, w')) :
    ∃ first w₁ second w₂,
      ((Instruction.encode .label [name]).handler.execute services).runWith w = (.ok first, w₁) ∧
      ((Instruction.encode .oneHot [name]).handler.execute services).runWith w₁ = (.ok second, w₂) := by
  obtain ⟨i, hindex, _, hbuilt⟩ := indicators_of_execute hdata hsplit hwell hnew hrun
  obtain ⟨first, w₁, hlabel⟩ := exists_label services hdata hsplit hindex
  obtain ⟨j, hindex', hdata₁, hsplit₁, hknown⟩ := label_of_execute hdata hnew hlabel
  obtain rfl : i = j := Option.some.inj (hindex.symm.trans hindex')
  rw [Table.cellsOf_eq hindex] at hfew hbuilt
  have hbuilt' := wellFormed_withIndicators_of_perm (perm_recordedLabels hfew) hbuilt
  obtain ⟨second, w₂, hrun₂, _⟩ :=
    (execute_oneHot_labelColumn_iff services hdata₁ hsplit₁ hwell hindex hknown hfew).2 ⟨rfl, hbuilt'⟩
  exact ⟨first, w₁, second, w₂, hlabel, hrun₂⟩

end

end Encoding

/-- There are categories of a column, in ascending order, of which the following holds.  A step that replaces the column
by indicators at once leaves the table with these in its place.  It succeeds exactly if a step that labels the column
and then one that replaces the codes by indicators do; and these leave the same table up to the order of the indicators,
and no list for the column. -/
theorem indicators_agree (services : Services) (name : String) (w : Workspace) (t : Table)
    (hdata : w.context.dataset = some t) (hsplit : w.context.split = none) (hwell : t.WellFormed)
    (hnew : w.context.encodings.get? name = none)
    (hfew : (Encoding.categories (t.cellsOf name)).length < 10 ^ 15) :
    ∃ keys : List String, keys.Pairwise (· < ·) ∧
      (∀ key, key ∈ keys ↔ ∃ cell ∈ t.cellsOf name, Cell.key? cell = some key) ∧
      (∀ message w',
        ((Instruction.encode .oneHot [name]).handler.execute services).runWith w = (.ok message, w') →
        ∃ i, t.columnIndex? name = some i ∧ w'.context.dataset = some (t.withIndicators name i keys)) ∧
      ((∃ message w',
          ((Instruction.encode .oneHot [name]).handler.execute services).runWith w = (.ok message, w')) ↔
        ∃ first w₁ second w₂,
          ((Instruction.encode .label [name]).handler.execute services).runWith w = (.ok first, w₁) ∧
          ((Instruction.encode .oneHot [name]).handler.execute services).runWith w₁ = (.ok second, w₂)) ∧
      ∀ first w₁ second w₂,
        ((Instruction.encode .label [name]).handler.execute services).runWith w = (.ok first, w₁) →
        ((Instruction.encode .oneHot [name]).handler.execute services).runWith w₁ = (.ok second, w₂) →
        ∃ i keys', t.columnIndex? name = some i ∧ keys'.Perm keys ∧
          w₂.context.dataset = some (t.withIndicators name i keys') ∧ w₂.context.encodings.get? name = none := by
  refine ⟨_, Encoding.pairwise_categories _, fun _ => Encoding.mem_categories_iff, ?_, ⟨?_, ?_⟩, ?_⟩
  · intro message w' hrun
    obtain ⟨i, hindex, htable, _⟩ := Encoding.indicators_of_execute hdata hsplit hwell hnew hrun
    exact ⟨i, hindex, htable⟩
  · rintro ⟨message, w', hrun⟩
    exact Encoding.exists_labelled_of_execute hdata hsplit hwell hnew hfew hrun
  · rintro ⟨first, w₁, second, w₂, hlabel, hrun⟩
    obtain ⟨i, keys', hindex, hperm, _, hbuilt⟩ := Encoding.indicators_of_labelled hdata hwell hnew hfew hlabel hrun
    have hbuilt' := Encoding.wellFormed_withIndicators_of_perm hperm.symm hbuilt
    obtain ⟨message, w', hrun', _⟩ :=
      (Encoding.execute_oneHot_iff services hdata hsplit hwell hnew).2 ⟨i, hindex, rfl, hbuilt'⟩
    exact ⟨message, w', hrun'⟩
  · intro first w₁ second w₂ hlabel hrun
    obtain ⟨i, keys', hindex, hperm, htable, _⟩ := Encoding.indicators_of_labelled hdata hwell hnew hfew hlabel hrun
    obtain ⟨_, _, hdata₁, _⟩ := Encoding.label_of_execute hdata hnew hlabel
    exact ⟨i, keys', hindex, hperm, htable, Encoding.get?_of_execute_oneHot hdata₁ hrun⟩

/-- A table of two colors and a gap. -/
def colorTable : Table :=
  ⟨["x", "color"], [[.nat 1, .string "red"], [.nat 2, .string "blue"], [.nat 3, .null]]⟩

/-- The colors may be replaced by indicators at once, and so they may be once they are labelled. -/
theorem indicators_of_colorTable :
    ∃ keys : List String, "red" ∈ keys ∧ ∃ first w₁ second w₂ keys',
      ((Instruction.encode .label ["color"]).handler.execute (.native {} "")).runWith
          ⟨{ dataset := some colorTable }, Files.empty⟩ = (.ok first, w₁) ∧
        ((Instruction.encode .oneHot ["color"]).handler.execute (.native {} "")).runWith w₁ = (.ok second, w₂) ∧
        keys'.Perm keys ∧ w₂.context.dataset = some (colorTable.withIndicators "color" 1 keys') := by
  have hwell : colorTable.WellFormed := ⟨by decide, by decide⟩
  have hfew : (Encoding.categories (colorTable.cellsOf "color")).length < 10 ^ 15 := by decide +kernel
  obtain ⟨keys, _, hkeys, _, hboth, hafter⟩ :=
    indicators_agree (.native {} "") "color" ⟨{ dataset := some colorTable }, Files.empty⟩ colorTable rfl rfl hwell
      rfl hfew
  have hred : (colorTable.cellsOf "color")[0]? = some (.string "red") := rfl
  obtain ⟨first, w₁, second, w₂, hlabel, hrun⟩ := hboth.1 ⟨_, _, rfl⟩
  obtain ⟨i, keys', hindex, hperm, htable, _⟩ := hafter first w₁ second w₂ hlabel hrun
  cases hindex
  exact ⟨keys, (hkeys "red").2 ⟨_, List.mem_of_getElem? hred, rfl⟩, first, w₁, second, w₂, keys', hlabel, hrun, hperm,
    htable⟩

end TableFlow
