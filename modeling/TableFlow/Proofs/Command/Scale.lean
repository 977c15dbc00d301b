import TableFlow.Command.Scale
import TableFlow.Proofs.KeyMap
import TableFlow.Proofs.Table.Columns

/-!
# What scaling leaves in a column

Scaling keeps the columns and leaves those alone that it does not scale.  What it leaves in a column that it scales
are doubles and missing cells; a whole number is no longer there.

Main results:

- Theorem `rescales_of_column`: what scaling one column does to a table.
- Theorem `cellsOf_scaled`: a column that is not scaled keeps its cells.
- Theorem `isFraction_of_scaled`: a column that is scaled holds doubles and missing cells.
- Theorem `mem_columns_of_targets`: a recorded column is scaled only if it is named.
-/

namespace TableFlow
namespace Scaling

variable {s : Scaling} {t t' : Table} {name : String}

/-- A double or a missing cell. -/
def IsFraction (cell : Cell) : Prop :=
  cell.isNull = true ∨ ∃ x, cell = .number (.float x)

/-- What scaling makes of the cells of a column. -/
def rescaled (s : Scaling) (cells : List Cell) : List Cell :=
  cells.map (scaleCell (s.shiftAndDivisor (.ofCells cells)).1 (s.shiftAndDivisor (.ofCells cells)).2)

/-! ## The cells of a column -/

/-- The cell of a double is the double, or missing if the double is not finite. -/
theorem isFraction_float (x : Float) : IsFraction (Json.float x) := by
  unfold Json.float
  split
  · exact Or.inr ⟨x, rfl⟩
  · exact Or.inl rfl

/-- Numbers and missing cells are scaled to doubles and missing cells. -/
theorem isFraction_scaleCell {cell : Cell} (h : cell.isCategory = false) (shift divisor : Float) :
    IsFraction (scaleCell shift divisor cell) := by
  cases cell with
  | null => exact Or.inl rfl
  | number n => exact isFraction_float _
  | bool b => cases h
  | string text => cases h
  | array items => cases h
  | object members => cases h

/-- A missing cell stays missing. -/
theorem isNull_scaleCell {cell : Cell} (h : cell.isNull = true) (shift divisor : Float) :
    (scaleCell shift divisor cell).isNull = true := by
  cases cell with
  | null => rfl
  | _ => cases h

/-- A column that holds no categories has none among its cells. -/
theorem isCategory_of_columnKind {i : Nat} (h : t.columnKind i ≠ .categorical) {cell : Cell}
    (hcell : cell ∈ t.column i) : cell.isCategory = false := by
  cases hcategory : cell.isCategory with
  | false => rfl
  | true =>
      refine absurd ?_ h
      have hany : (t.column i).any Cell.isCategory = true :=
        List.any_eq_true.2 ⟨cell, hcell, hcategory⟩
      rw [Table.columnKind, ColumnKind.ofCells, if_pos hany]

/-! ## One column -/

/-- What scaling one column does to a table. -/
structure Rescales (s : Scaling) (t : Table) (target : String) (t' : Table) : Prop where
  columns : t'.columns = t.columns
  mem : target ∈ t.columns
  numeric : ∀ cell ∈ t.cellsOf target, cell.isCategory = false
  cells : t'.cellsOf target = s.rescaled (t.cellsOf target)
  others : ∀ name, name ≠ target → t'.cellsOf name = t.cellsOf name

/-- A column that is scaled is there and holds no categories, and its cells are all that is changed. -/
theorem column_eq_ok {target : String} (h : s.column t target = .ok t') :
    ∃ i, t.columnIndex? target = some i ∧ t.columnKind i ≠ .categorical ∧
      t' = t.mapColumn i (scaleCell (s.shiftAndDivisor (.ofCells (t.column i))).1
        (s.shiftAndDivisor (.ofCells (t.column i))).2) := by
  obtain ⟨i, hfound, h⟩ := bind_eq_ok.1 h
  refine ⟨i, Table.requireColumn_eq_ok_iff.1 hfound, ?_⟩
  by_cases hkind : t.columnKind i = .categorical
  · rw [if_pos hkind] at h
    cases h
  · rw [if_neg hkind] at h
    cases h
    exact ⟨hkind, rfl⟩

/-- Scaling a column that is there and holds no categories changes its cells and nothing else. -/
theorem rescales_of_column {target : String} (h : s.column t target = .ok t') :
    s.Rescales t target t' := by
  obtain ⟨i, hindex, hkind, rfl⟩ := column_eq_ok h
  refine ⟨rfl, Table.mem_of_columnIndex? hindex, ?_, ?_, ?_⟩
  · rw [Table.cellsOf_eq hindex]
    intro cell hcell
    exact isCategory_of_columnKind hkind hcell
  · rw [Table.cellsOf_mapColumn hindex rfl, rescaled, Table.cellsOf_eq hindex]
  · intro name hne
    refine Table.cellsOf_mapColumn_of_ne _ ?_
    intro hname
    exact Table.ne_of_columnIndex? hname hindex hne rfl

/-- A column that was just scaled holds doubles and missing cells. -/
theorem Rescales.isFraction (h : s.Rescales t name t') :
    ∀ cell ∈ t'.cellsOf name, IsFraction cell := by
  rw [h.cells]
  intro cell hcell
  obtain ⟨old, hold, rfl⟩ := List.mem_map.1 hcell
  exact isFraction_scaleCell (h.numeric old hold) _ _

/-- Scaling any column leaves a column without values without values. -/
theorem Rescales.isNull {target : String} (h : s.Rescales t target t')
    (hnull : ∀ cell ∈ t.cellsOf name, cell.isNull = true) :
    ∀ cell ∈ t'.cellsOf name, cell.isNull = true := by
  by_cases hname : name = target
  · subst hname
    rw [h.cells]
    intro cell hcell
    obtain ⟨old, hold, rfl⟩ := List.mem_map.1 hcell
    exact isNull_scaleCell (hnull old hold) _ _
  · rw [h.others name hname]
    exact hnull

/-! ## All columns -/

/-- Scaling keeps the columns. -/
theorem columns_scaled {targets : List String} {scaled : Table}
    (h : targets.foldlM s.column t = .ok scaled) : scaled.columns = t.columns := by
  refine foldlM_invariant (P := fun u => u.columns = t.columns) ?_ rfl h
  intro u target _ u' hu hstep
  exact (rescales_of_column hstep).columns.trans hu

/-- A column that is not scaled keeps its cells. -/
theorem cellsOf_scaled {targets : List String} {scaled : Table}
    (h : targets.foldlM s.column t = .ok scaled) (hname : name ∉ targets) :
    scaled.cellsOf name = t.cellsOf name := by
  refine foldlM_invariant (P := fun u => u.cellsOf name = t.cellsOf name) ?_ rfl h
  intro u target htarget u' hu hstep
  have hne : name ≠ target := fun e => hname (e ▸ htarget)
  exact ((rescales_of_column hstep).others name hne).trans hu

/-- A column that is scaled holds doubles and missing cells. -/
theorem isFraction_of_scaled {targets : List String} {scaled : Table}
    (h : targets.foldlM s.column t = .ok scaled) (hname : name ∈ targets) :
    ∀ cell ∈ scaled.cellsOf name, IsFraction cell := by
  induction targets generalizing t with
  | nil => cases hname
  | cons target targets ih =>
      obtain ⟨first, hfirst, hrest⟩ := foldlM_cons_eq_ok.1 h
      by_cases hmore : name ∈ targets
      · exact ih hrest hmore
      · have htarget : name = target := by
          rcases List.mem_cons.1 hname with heq | hmem
          · exact heq
          · exact absurd hmem hmore
        subst htarget
        rw [cellsOf_scaled hrest hmore]
        exact (rescales_of_column hfirst).isFraction

/-- A column without values has none after scaling. -/
theorem isNull_of_scaled {targets : List String} {scaled : Table}
    (h : targets.foldlM s.column t = .ok scaled)
    (hnull : ∀ cell ∈ t.cellsOf name, cell.isNull = true) :
    ∀ cell ∈ scaled.cellsOf name, cell.isNull = true := by
  refine foldlM_invariant (P := fun u => ∀ cell ∈ u.cellsOf name, cell.isNull = true) ?_ hnull h
  intro u target _ u' hu hstep
  exact (rescales_of_column hstep).isNull hu

/-- A recorded column is scaled only if it is named. -/
theorem mem_columns_of_targets {context : Context} {columns exclude : List String}
    (h : name ∈ targets context t columns exclude)
    (hrecorded : context.encodings.contains name = true) : name ∈ columns := by
  unfold targets at h
  split at h
  · have hdefault := (List.mem_filter.1 h).2
    simp [isDefault, hrecorded] at hdefault
  · exact h

/-- A column that is named is scaled. -/
theorem mem_targets_of_columns {context : Context} {columns exclude : List String}
    (h : name ∈ columns) : name ∈ targets context t columns exclude := by
  unfold targets
  split
  · next hempty =>
      rw [List.isEmpty_iff.1 hempty] at h
      cases h
  · exact h

end Scaling
end TableFlow
