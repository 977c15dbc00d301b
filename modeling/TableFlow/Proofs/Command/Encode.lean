import TableFlow.Command.Encode
import TableFlow.Proofs.KeyMap
import TableFlow.Proofs.Table.Columns

/-!
# What encoding leaves in a column

Encoding replaces a column by codes and records its categories, or replaces it by indicators and forgets what was
recorded of it.  Either way every other column keeps its cells, also when indicators move it to another place.

Main results:

- Theorem `coded_labelColumn`: the cells of a labelled column are codes of its categories.
- Theorem `getElem?_spliceAt`: where the other cells of a row go when indicators take the place of one.
- Theorem `labelled_of_foldlM`: what labelling columns one after another leaves.
- Theorem `indicated_of_foldlM`: what replacing columns by indicators one after another leaves.
-/

namespace TableFlow

/-- A code of a list of `n` categories: a whole number below `n`. -/
def IsCode (n : Nat) (cell : Cell) : Prop :=
  ∃ i < n, cell = .nat i

/-- The cells are codes of a list of `n` categories, or missing. -/
def Coded (n : Nat) (cells : List Cell) : Prop :=
  ∀ cell ∈ cells, cell.isNull = true ∨ IsCode n cell

namespace Encoding

variable {t t' : Table} {known : KeyMap (List String)} {p p' : Progress} {name : String} {i : Nat}

/-! ## Labels -/

/-- The key of each cell is one of the categories. -/
theorem mem_categories {cells : List Cell} {cell : Cell} (hcell : cell ∈ cells) {key : String}
    (hkey : Cell.key? cell = some key) : key ∈ categories cells := by
  rw [categories, mem_map_fst_sortKeys, List.map_map]
  have hmem : key ∈ cells.filterMap Cell.key? := List.mem_filterMap.2 ⟨cell, hcell, hkey⟩
  exact List.mem_map.2 ⟨key, hmem, rfl⟩

/-- The code of a cell of a column is a code of its categories. -/
theorem isCode_codeCell {cells : List Cell} {cell : Cell} (hcell : cell ∈ cells) :
    (codeCell (categories cells) cell).isNull = true ∨
      IsCode (categories cells).length (codeCell (categories cells) cell) := by
  unfold codeCell
  cases hkey : Cell.key? cell with
  | none =>
      left
      cases cell with
      | null => rfl
      | _ => cases hkey
  | some key =>
      right
      exact ⟨_, List.idxOf_lt_length_iff.2 (mem_categories hcell hkey), rfl⟩

/-- The cells of a labelled column are codes of its categories. -/
theorem coded_labelColumn (hindex : t.columnIndex? name = some i) :
    Coded (categories (t.column i)).length
      ((labelColumn t i (categories (t.column i))).cellsOf name) := by
  rw [labelColumn, Table.cellsOf_mapColumn hindex rfl, Table.cellsOf_eq hindex]
  intro cell hcell
  obtain ⟨old, hold, rfl⟩ := List.mem_map.1 hcell
  exact isCode_codeCell hold

/-- Labelling a column leaves the others alone. -/
theorem cellsOf_labelColumn_of_ne {cats : List String} {other : String} (hindex : t.columnIndex? name = some i)
    (hne : other ≠ name) : (labelColumn t i cats).cellsOf other = t.cellsOf other := by
  apply Table.cellsOf_mapColumn_of_ne
  intro hother
  exact Table.ne_of_columnIndex? hother hindex hne rfl

/-- Labelling a column that is recorded changes nothing; any other one becomes codes and is recorded. -/
theorem label_eq_ok (h : Encoding.label.column known p name = .ok p') :
    ∃ i, p.table.columnIndex? name = some i ∧ p'.retired = p.retired ∧
      (((known.get? name).isSome = true ∧ p'.table = p.table ∧ p'.recorded = p.recorded) ∨
        (known.get? name = none ∧
          p'.table = labelColumn p.table i (categories (p.table.column i)) ∧
          p'.recorded = p.recorded ++ [(name, categories (p.table.column i))])) := by
  obtain ⟨i, hfound, h⟩ := bind_eq_ok.1 h
  refine ⟨i, Table.requireColumn_eq_ok_iff.1 hfound, ?_⟩
  cases hknown : known.get? name with
  | some names =>
      rw [hknown] at h
      cases h
      exact ⟨rfl, Or.inl ⟨rfl, rfl, rfl⟩⟩
  | none =>
      rw [hknown] at h
      cases h
      exact ⟨rfl, Or.inr ⟨rfl, rfl, rfl⟩⟩

/-- What labelling columns of a table has left so far: the recorded columns are as they were, and those that were
recorded just now hold codes. -/
structure Labelled (known : KeyMap (List String)) (t : Table) (p : Progress) : Prop where
  columns : p.table.columns = t.columns
  retired : p.retired = []
  kept : ∀ name cats, known.get? name = some cats →
    (known.insertAll p.recorded).get? name = some cats ∧ p.table.cellsOf name = t.cellsOf name
  coded : ∀ name cats, known.get? name = none →
    (known.insertAll p.recorded).get? name = some cats →
    name ∈ t.columns ∧ Coded cats.length (p.table.cellsOf name)

/-- Labelling one more column keeps that. -/
theorem Labelled.column (h : Labelled known t p)
    (hstep : Encoding.label.column known p name = .ok p') : Labelled known t p' := by
  obtain ⟨i, hindex, hretired, ⟨_, htable, hrecorded⟩ | ⟨hnew, htable, hrecorded⟩⟩ :=
    label_eq_ok hstep
  · refine ⟨by rw [htable, h.columns], hretired.trans h.retired, ?_, ?_⟩
    · rw [htable, hrecorded]
      exact h.kept
    · rw [htable, hrecorded]
      exact h.coded
  · have hcells : ∀ other, other ≠ name → p'.table.cellsOf other = p.table.cellsOf other := by
      intro other hne
      rw [htable, cellsOf_labelColumn_of_ne hindex hne]
    refine ⟨?_, hretired.trans h.retired, ?_, ?_⟩
    · rw [htable]
      exact h.columns
    · intro other cats hother
      have hne : other ≠ name := by
        rintro rfl
        rw [hnew] at hother
        cases hother
      obtain ⟨hget, hsame⟩ := h.kept other cats hother
      rw [hrecorded, KeyMap.insertAll_concat, KeyMap.get?_insert, if_neg hne, hcells other hne]
      exact ⟨hget, hsame⟩
    · intro other cats hother hget
      rw [hrecorded, KeyMap.insertAll_concat, KeyMap.get?_insert] at hget
      by_cases hne : other = name
      · subst hne
        rw [if_pos rfl] at hget
        cases hget
        refine ⟨h.columns ▸ Table.mem_of_columnIndex? hindex, ?_⟩
        rw [htable]
        exact coded_labelColumn hindex
      · rw [if_neg hne] at hget
        obtain ⟨hmem, hcoded⟩ := h.coded other cats hother hget
        rw [hcells other hne]
        exact ⟨hmem, hcoded⟩

/-- What labelling columns one after another leaves. -/
theorem labelled_of_foldlM {targets : List String}
    (h : targets.foldlM (Encoding.label.column known) { table := t } = .ok p) :
    Labelled known t p := by
  refine foldlM_invariant (P := Labelled known t) ?_ ?_ h
  · intro q target _ q' hq hstep
    exact hq.column hstep
  · refine ⟨rfl, rfl, ?_, ?_⟩
    · intro name cats hget
      exact ⟨hget, rfl⟩
    · intro name cats hnone hget
      rw [KeyMap.insertAll_nil, hnone] at hget
      cases hget

/-! ## Indicators -/

/-- Where an element goes when the one at `i` is replaced by `k` elements. -/
def movedTo (i k j : Nat) : Nat :=
  if j < i then j else j - 1 + k

/-- Every other element goes on standing behind what is before it. -/
theorem getElem?_spliceAt {α : Type} {several : α → List α} {k : Nat}
    (hlength : ∀ x, (several x).length = k) (items : List α) {i j : Nat} (hne : j ≠ i) :
    (spliceAt i several items)[movedTo i k j]? = items[j]? := by
  induction items generalizing i j with
  | nil => simp [spliceAt]
  | cons item rest ih =>
      cases i with
      | zero =>
          obtain ⟨j, rfl⟩ := Nat.exists_eq_succ_of_ne_zero hne
          have hmoved : movedTo 0 k (j + 1) = (several item).length + j := by
            rw [movedTo, if_neg (Nat.not_lt_zero _), hlength]
            omega
          rw [spliceAt, hmoved, List.getElem?_append_right (Nat.le_add_right _ _),
            Nat.add_sub_cancel_left, List.getElem?_cons_succ]
      | succ i =>
          cases j with
          | zero =>
              rw [movedTo, if_pos (Nat.zero_lt_succ i)]
              rfl
          | succ j =>
              have hji : j ≠ i := fun e => hne (by rw [e])
              have hmoved : movedTo (i + 1) k (j + 1) = movedTo i k j + 1 := by
                unfold movedTo
                by_cases hlt : j < i
                · rw [if_pos hlt, if_pos (by omega)]
                · rw [if_neg hlt, if_neg (by omega)]
                  omega
              rw [spliceAt, hmoved, List.getElem?_cons_succ, List.getElem?_cons_succ]
              exact ih hji

/-- Every category has one indicator. -/
theorem length_indicators (cats : List String) (cell : Cell) :
    (indicators cats cell).length = cats.length := by
  unfold indicators
  split <;> simp

/-- Replacing a column by indicators keeps every other column and its cells. -/
theorem cellsOf_oneHotColumn {column : String} {cats labels : List String}
    (hlength : labels.length = cats.length) (hindex : t.columnIndex? column = some i)
    (h : oneHotColumn t column i cats labels = .ok t') (hname : name ∈ t.columns)
    (hne : name ≠ column) : name ∈ t'.columns ∧ t'.cellsOf name = t.cellsOf name := by
  obtain ⟨hbuilt, hnodup⟩ := Table.ofRows_eq_ok h
  obtain ⟨j, hj⟩ := Table.exists_columnIndex? hname
  have hji : j ≠ i := Table.ne_of_columnIndex? hj hindex hne
  obtain ⟨hlt, hat, _⟩ := Table.columnIndex?_eq_some_iff.1 hj
  have hcolumns : t'.columns =
      spliceAt i (fun _ => labels.map fun l => column ++ "_" ++ l) t.columns := by
    rw [hbuilt]
  have hcolumn : t'.columns[movedTo i cats.length j]? = some name := by
    rw [hcolumns, getElem?_spliceAt (by simp [hlength]) _ hji, List.getElem?_eq_getElem hlt, hat]
  rw [← hcolumns] at hnodup
  have hmoved := Table.columnIndex?_of_nodup hnodup hcolumn
  refine ⟨Table.mem_of_columnIndex? hmoved, ?_⟩
  rw [Table.cellsOf_eq hmoved, Table.cellsOf_eq hj]
  simp only [hbuilt, Table.column, List.map_map]
  refine List.map_congr_left fun row _ => ?_
  rw [Function.comp_apply, List.getD_eq_getElem?_getD, List.getD_eq_getElem?_getD,
    getElem?_spliceAt (length_indicators cats) row hji]

/-- Replacing a column by indicators retires what was recorded of it. -/
theorem oneHot_eq_ok (h : Encoding.oneHot.column known p name = .ok p') :
    ∃ i cats labels, p.table.columnIndex? name = some i ∧ labels.length = cats.length ∧
      oneHotColumn p.table name i cats labels = .ok p'.table ∧ p'.recorded = p.recorded ∧
      p'.retired = if (known.get? name).isSome then p.retired ++ [name] else p.retired := by
  obtain ⟨i, hfound, h⟩ := bind_eq_ok.1 h
  have hindex := Table.requireColumn_eq_ok_iff.1 hfound
  cases hknown : known.get? name with
  | some names =>
      rw [hknown] at h
      obtain ⟨table, htable, h⟩ := bind_eq_ok.1 h
      cases h
      exact ⟨i, _, (categories (p.table.column i)).map (recordedLabel names), hindex, by simp,
        htable, rfl, rfl⟩
  | none =>
      rw [hknown] at h
      obtain ⟨table, htable, h⟩ := bind_eq_ok.1 h
      cases h
      exact ⟨i, _, categories (p.table.column i), hindex, rfl, htable, rfl, rfl⟩

/-- What replacing columns by indicators has left so far: a recorded column that is not retired is as it was. -/
structure Indicated (known : KeyMap (List String)) (t : Table) (p : Progress) : Prop where
  recorded : p.recorded = []
  kept : ∀ name ∈ t.columns, (known.get? name).isSome = true → name ∉ p.retired →
    name ∈ p.table.columns ∧ p.table.cellsOf name = t.cellsOf name

/-- Replacing one more column keeps that. -/
theorem Indicated.column (h : Indicated known t p)
    (hstep : Encoding.oneHot.column known p name = .ok p') : Indicated known t p' := by
  obtain ⟨i, cats, labels, hindex, hlength, htable, hrecorded, hretired⟩ := oneHot_eq_ok hstep
  refine ⟨hrecorded.trans h.recorded, ?_⟩
  intro other hother hknown hkept
  rw [hretired] at hkept
  have hne : other ≠ name := by
    rintro rfl
    rw [if_pos hknown] at hkept
    simp at hkept
  have hbefore : other ∉ p.retired := by
    intro hmem
    refine hkept ?_
    split
    · exact List.mem_append_left _ hmem
    · exact hmem
  obtain ⟨hmem, hcells⟩ := h.kept other hother hknown hbefore
  obtain ⟨hmem', hcells'⟩ := cellsOf_oneHotColumn hlength hindex htable hmem hne
  exact ⟨hmem', hcells'.trans hcells⟩

/-- What replacing columns by indicators one after another leaves. -/
theorem indicated_of_foldlM {targets : List String}
    (h : targets.foldlM (Encoding.oneHot.column known) { table := t } = .ok p) :
    Indicated known t p := by
  refine foldlM_invariant (P := Indicated known t) ?_ ?_ h
  · intro q target _ q' hq hstep
    exact hq.column hstep
  · exact ⟨rfl, fun name hname _ _ => ⟨hname, rfl⟩⟩

end Encoding
end TableFlow
