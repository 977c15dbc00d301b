import Mathlib.Logic.Function.Iterate
import TableFlow.Proofs.Command.Effect
import TableFlow.Proofs.Command.Scale
import TableFlow.Proofs.Table.Cells

/-!
# What scaling leaves alone, and what it can lose

A step that scales changes the cells at the places of the columns that it scales and nothing else, and there it changes
numbers alone.  A number becomes the double at its scaled value.  There is none where that value is not finite, and then
the cell is missing: the range of a column, and the squares that its deviation is made of, can leave the doubles though
its numbers do not.

Main results:

- Definition `Scaling.rescaledCell`: what scaling a column several times makes of one of its cells.
- Theorem `Scaling.isNull_rescaledCell_iff`: when that cell is missing.
- Definition `Scaling.Scales`: what scaling columns does to a table, cell by cell.
- Theorem `Scaling.scales_of_foldlM`: scaling columns one after another does this.
- Theorem `scaling_changes_only_numbers`: a step that scales does this to the table, and changes nothing else but the
  list of transforms.
- Theorem `number_lost_to_scaling`: a column of two finite numbers of which one is lost.
-/

namespace TableFlow

namespace Scaling

variable {s : Scaling} {t : Table} {row place : Nat} {cell : Cell}

/-! ## One cell -/

/-- The scaled value of a number among the cells of a column. -/
def value (s : Scaling) (cells : List Cell) (n : Number) : Float :=
  (n.toFloat - (s.shiftAndDivisor (.ofCells cells)).1) / (s.shiftAndDivisor (.ofCells cells)).2

/-- What scaling a column with these cells makes of one cell. -/
def scaledCell (s : Scaling) (cells : List Cell) (cell : Cell) : Cell :=
  scaleCell (s.shiftAndDivisor (.ofCells cells)).1 (s.shiftAndDivisor (.ofCells cells)).2 cell

/-- What scaling a column with these cells several times makes of one cell. -/
def rescaledCell (s : Scaling) : (times : Nat) → (cells : List Cell) → Cell → Cell
  | 0, _, cell => cell
  | times + 1, cells, cell => s.rescaledCell times (s.rescaled cells) (s.scaledCell cells cell)

/-- The cell is a number that has no finite scaled value in a column with these cells. -/
def Overflows (s : Scaling) (cells : List Cell) (cell : Cell) : Prop :=
  ∃ n, cell = .number n ∧ Decimal.isFinite (s.value cells n) = false

/-- A cell that is no number stays as it is. -/
theorem scaledCell_of_not_number (cells : List Cell) (h : cell.isNumber = false) : s.scaledCell cells cell = cell := by
  cases cell with
  | number n => cases h
  | _ => rfl

/-- A cell is missing once its column is scaled if it was before, or if it is a number without a scaled value. -/
theorem isNull_scaledCell_iff (cells : List Cell) :
    (s.scaledCell cells cell).isNull = true ↔ cell.isNull = true ∨ s.Overflows cells cell := by
  cases cell with
  | number n =>
      have hscaled : s.scaledCell cells (.number n) = .float (s.value cells n) := rfl
      rw [hscaled, Json.float]
      by_cases hfinite : Decimal.isFinite (s.value cells n) = true
      · rw [if_pos hfinite]
        simp [Json.isNull, Overflows, hfinite]
      · rw [if_neg hfinite]
        simp [Json.isNull, Overflows, hfinite]
  | _ => simp [scaledCell, scaleCell, Json.isNull, Overflows]

theorem rescaledCell_of_not_number (times : Nat) (cells : List Cell) (h : cell.isNumber = false) :
    s.rescaledCell times cells cell = cell := by
  induction times generalizing cells with
  | zero => rfl
  | succ times ih => rw [rescaledCell, scaledCell_of_not_number cells h, ih]

/-- A cell is missing after several times if it was before, or if it had no scaled value at one of them. -/
theorem isNull_rescaledCell_iff (times : Nat) (cells : List Cell) :
    (s.rescaledCell times cells cell).isNull = true ↔ cell.isNull = true ∨
      ∃ k < times, s.Overflows (s.rescaled^[k] cells) (s.rescaledCell k cells cell) := by
  induction times generalizing cells cell with
  | zero => simp [rescaledCell]
  | succ times ih =>
      rw [rescaledCell, ih, isNull_scaledCell_iff, or_assoc, Nat.exists_lt_succ_left]
      rfl

/-! ## All columns -/

/-- How many times the column at a place is scaled, if these columns are scaled one after another. -/
def timesScaled (t : Table) (targets : List String) (place : Nat) : Nat :=
  targets.countP fun name => t.columnIndex? name == some place

theorem timesScaled_mapColumn (i : Nat) (f : Cell → Cell) (targets : List String) :
    timesScaled (t.mapColumn i f) targets place = timesScaled t targets place := rfl

/-- A column that is not among those that are scaled is scaled no time. -/
theorem timesScaled_eq_zero {targets : List String} (h : ∀ name, t.columns[place]? = some name → name ∉ targets) :
    timesScaled t targets place = 0 := by
  rw [timesScaled, List.countP_eq_zero]
  intro name hname hplace
  rcases Table.columnIndex?_eq_some_iff.1 (eq_of_beq hplace) with ⟨hlt, hcolumn, _⟩
  exact h name (List.getElem?_eq_some_iff.2 ⟨hlt, hcolumn⟩) hname

/-- What scaling columns one after another does to a table: its columns and the lengths of its rows stay; each cell is
scaled as many times as its column, with the cells that the column has at the time; and so the cells of other columns
and cells that are no numbers stay, and a cell is missing only if it was missing or had no finite scaled value. -/
structure Scales (s : Scaling) (t : Table) (targets : List String) (scaled : Table) : Prop where
  columns : scaled.columns = t.columns
  widths : scaled.rows.map List.length = t.rows.map List.length
  cells : ∀ row place, scaled.cell? row place =
    (t.cell? row place).map (s.rescaledCell (timesScaled t targets place) (t.column place))
  others : ∀ row place, (∀ name, t.columns[place]? = some name → name ∉ targets) →
    scaled.cell? row place = t.cell? row place
  kept : ∀ row place cell, t.cell? row place = some cell → cell.isNumber = false →
    scaled.cell? row place = some cell
  missing : ∀ row place cell, t.cell? row place = some cell →
    ∃ cell', scaled.cell? row place = some cell' ∧ (cell'.isNull = true ↔ cell.isNull = true ∨
      ∃ k < timesScaled t targets place,
        s.Overflows (s.rescaled^[k] (t.column place)) (s.rescaledCell k (t.column place) cell))

/-- As many rows as before. -/
theorem Scales.rowCount_eq {targets : List String} {scaled : Table} (h : s.Scales t targets scaled) :
    scaled.rowCount = t.rowCount := by
  have hlength := congrArg List.length h.widths
  rw [List.length_map, List.length_map] at hlength
  exact hlength

/-- Scaling a column scales the cell at its place in every row, and leaves the other cells alone. -/
theorem cell?_scaled {targets : List String} {scaled : Table} (h : targets.foldlM s.column t = .ok scaled)
    (row place : Nat) : scaled.cell? row place =
      (t.cell? row place).map (s.rescaledCell (timesScaled t targets place) (t.column place)) := by
  induction targets generalizing t with
  | nil =>
      cases h
      exact Option.map_id_apply.symm
  | cons name targets ih =>
      rcases foldlM_cons_eq_ok.1 h with ⟨first, hfirst, hrest⟩
      rcases column_eq_ok hfirst with ⟨i, hindex, _, rfl⟩
      rw [ih hrest, Table.cell?_mapColumn, timesScaled_mapColumn]
      by_cases hplace : i = place
      · subst hplace
        have hmore : timesScaled t (name :: targets) i = timesScaled t targets i + 1 := by
          simp [timesScaled, hindex]
        rw [if_pos rfl, hmore, Option.map_map, Table.column_mapColumn rfl]
        rfl
      · have hsame : timesScaled t (name :: targets) place = timesScaled t targets place := by
          simp [timesScaled, hindex, hplace]
        rw [if_neg hplace, hsame, Table.column_mapColumn_of_ne _ hplace]

/-- Scaling changes no row's length. -/
theorem widths_scaled {targets : List String} {scaled : Table} (h : targets.foldlM s.column t = .ok scaled) :
    scaled.rows.map List.length = t.rows.map List.length := by
  refine foldlM_invariant (P := fun u => u.rows.map List.length = t.rows.map List.length) ?_ rfl h
  intro u name _ u' hu hstep
  rcases column_eq_ok hstep with ⟨i, _, _, rfl⟩
  rw [Table.widths_mapColumn, hu]

/-- Scaling columns one after another scales each cell as many times as its column. -/
theorem scales_of_foldlM {targets : List String} {scaled : Table} (h : targets.foldlM s.column t = .ok scaled) :
    s.Scales t targets scaled where
  columns := columns_scaled h
  widths := widths_scaled h
  cells := cell?_scaled h
  others := by
    intro row place hother
    rw [cell?_scaled h, timesScaled_eq_zero hother]
    exact Option.map_id_apply
  kept := by
    intro row place cell hcell hvalue
    rw [cell?_scaled h, hcell, Option.map_some, rescaledCell_of_not_number _ _ hvalue]
  missing := by
    intro row place cell hcell
    refine ⟨_, by rw [cell?_scaled h, hcell, Option.map_some], ?_⟩
    exact isNull_rescaledCell_iff _ _

end Scaling

/-! ## Steps that scale -/

/-- A step that scales needs a table that is not split, and puts the scaled table in its place. -/
theorem scaled_of_execute {services : Services} {way : Scaling} {columns exclude : List String} {w w' : Workspace}
    {message : String}
    (h : ((Instruction.scale way columns exclude).handler.execute services).runWith w = (.ok message, w')) :
    ∃ t scaled, w.context.dataset = some t ∧ w.context.split = none ∧
      (Scaling.targets w.context t columns exclude).foldlM way.column t = .ok scaled ∧
      w'.context = { w.context with
        dataset := some scaled
        transforms := w.context.transforms ++ ["scale " ++ way.name] } := by
  have heffect := Instruction.effect_of_execute h
  generalize w'.context = c' at heffect
  cases heffect with
  | scale hdata hsplit hscaled => exact ⟨_, _, hdata, hsplit, hscaled, rfl⟩

/-- The columns that a step names, to scale or to exclude, are columns of the table. -/
theorem named_of_execute {services : Services} {way : Scaling} {columns exclude : List String} {w w' : Workspace}
    {message : String} {t : Table} (hdata : w.context.dataset = some t)
    (h : ((Instruction.scale way columns exclude).handler.execute services).runWith w = (.ok message, w')) :
    ∀ name ∈ columns ++ exclude, name ∈ t.columns := by
  rw [Instruction.runWith_execute] at h
  rcases StepM.ofExcept_bind_eq_ok.1 h with ⟨u, hu, h⟩
  rcases StepM.ofExcept_bind_eq_ok.1 h with ⟨places, hplaces, _⟩
  obtain rfl : t = u := Option.some.inj (hdata.symm.trans (Instruction.requireUnsplit_eq_ok.1 hu).1)
  exact Table.exists_places_iff.1 ⟨places, hplaces⟩

/-- A step that scales succeeds if the columns that it names are there and each column can be scaled in its turn. -/
theorem exists_scaled_execute (services : Services) (way : Scaling) (columns exclude : List String) (w : Workspace)
    {t scaled : Table} (hdata : w.context.dataset = some t) (hsplit : w.context.split = none)
    (hnamed : ∀ name ∈ columns ++ exclude, name ∈ t.columns)
    (hscaled : (Scaling.targets w.context t columns exclude).foldlM way.column t = .ok scaled) :
    ∃ message w', ((Instruction.scale way columns exclude).handler.execute services).runWith w = (.ok message, w') ∧
      w'.context = { w.context with
        dataset := some scaled
        transforms := w.context.transforms ++ ["scale " ++ way.name] } := by
  have hrequired : w.context.requireUnsplit "scale" = .ok t := Instruction.requireUnsplit_eq_ok.2 ⟨hdata, hsplit⟩
  rcases Table.exists_places_iff.2 hnamed with ⟨places, hplaces⟩
  rw [Instruction.runWith_execute]
  show ∃ message w', (way.run columns exclude w.context).runWith w = (.ok message, w') ∧ _
  unfold Scaling.run
  simp only [StepM.runWith_bind, hrequired, hplaces, hscaled, StepM.runWith_ofExcept_ok, StepM.runWith_change,
    StepM.runWith_pure]
  exact ⟨_, _, rfl, rfl⟩

/-- A step that scales, with any columns and exclusions, needs a table that is not split.  If it succeeds, the table is
scaled as `Scaling.Scales` says, at the columns that the step names or finds, and nothing else of the context changes
but the list of transforms. -/
theorem scaling_changes_only_numbers (services : Services) (way : Scaling) (columns exclude : List String)
    (w w' : Workspace) (message : String)
    (h : ((Instruction.scale way columns exclude).handler.execute services).runWith w = (.ok message, w')) :
    ∃ t scaled, w.context.dataset = some t ∧ w.context.split = none ∧
      w'.context = { w.context with
        dataset := some scaled
        transforms := w.context.transforms ++ ["scale " ++ way.name] } ∧
      scaled.rowCount = t.rowCount ∧
      way.Scales t (Scaling.targets w.context t columns exclude) scaled := by
  rcases scaled_of_execute h with ⟨t, scaled, hdata, hsplit, hscaled, hcontext⟩
  have hscales := Scaling.scales_of_foldlM hscaled
  exact ⟨t, scaled, hdata, hsplit, hcontext, hscales.rowCount_eq, hscales⟩

/-- A table with two columns, of which only the first one holds numbers. -/
def markedTable : Table :=
  ⟨["x", "y"], [[.nat 1, .string "a"], [.null, .string "b"], [.nat 3, .null]]⟩

/-- Scaling the first column of that table leaves the second one and the missing cell alone. -/
theorem scaling_changes_only_numbers_of_markedTable :
    ∃ message w' scaled, ((Instruction.scale .standard ["x"] []).handler.execute (.native {} "")).runWith
        ⟨{ dataset := some markedTable }, Files.empty⟩ = (.ok message, w') ∧
      w'.context.dataset = some scaled ∧ scaled.columns = ["x", "y"] ∧ scaled.rowCount = 3 ∧
      scaled.cell? 0 1 = some (.string "a") ∧ scaled.cell? 1 0 = some .null := by
  have hrun : ((Instruction.scale .standard ["x"] []).handler.execute (.native {} "")).runWith
      ⟨{ dataset := some markedTable }, Files.empty⟩ = (.ok "Scaled 1 column(s) with standard: x", _) := rfl
  rcases scaling_changes_only_numbers _ _ _ _ _ _ _ hrun with ⟨t, scaled, hdata, _, hcontext, hrows, hscales⟩
  obtain rfl : markedTable = t := Option.some.inj hdata
  refine ⟨_, _, scaled, hrun, congrArg Context.dataset hcontext, hscales.columns, hrows, ?_, ?_⟩
  · exact hscales.kept 0 1 _ rfl rfl
  · exact hscales.kept 1 0 _ rfl rfl

/-! ## A number that is lost -/

/-- A table of two numbers that lie further apart than the largest double. -/
def farApart : Table :=
  ⟨["x"], [[.number (.float (-1.7e308))], [.number (.float 1.7e308)]]⟩

/-- Between zero and one there is no double for the second number, because the range of the column is infinite. -/
theorem overflows_farApart : Scaling.minMax.Overflows (farApart.column 0) (.number (.float 1.7e308)) := by
  have hstats : ColumnStats.ofCells (farApart.column 0) = .ofSorted [-1.7e308, 1.7e308] 0 :=
    ColumnStats.ofCells_eq_ofSorted rfl (by decide +kernel)
  refine ⟨_, rfl, ?_⟩
  rw [Scaling.value, hstats]
  decide +kernel

/-- So it is not true that scaling leaves a cell missing exactly if it was missing before. -/
theorem number_lost_to_scaling :
    ¬∀ (services : Services) (way : Scaling) (columns exclude : List String) (w w' : Workspace) (message : String)
      (t scaled : Table), w.context.dataset = some t → w.context.split = none →
      ((Instruction.scale way columns exclude).handler.execute services).runWith w = (.ok message, w') →
      w'.context.dataset = some scaled → ∀ row place cell cell', t.cell? row place = some cell →
        scaled.cell? row place = some cell' → (cell'.isNull = true ↔ cell.isNull = true) := by
  intro hgaps
  have hrun : ((Instruction.scale .minMax ["x"] []).handler.execute (.native {} "")).runWith
      ⟨{ dataset := some farApart }, Files.empty⟩ = (.ok "Scaled 1 column(s) with minmax: x", _) := rfl
  rcases scaled_of_execute hrun with ⟨t, scaled, hdata, _, hscaled, hcontext⟩
  obtain rfl : farApart = t := Option.some.inj hdata
  have hcell : farApart.cell? 1 0 = some (.number (.float 1.7e308)) := rfl
  rcases (Scaling.scales_of_foldlM hscaled).missing 1 0 _ hcell with ⟨cell', hcell', hmissing⟩
  have hlost : cell'.isNull = true := hmissing.2 (Or.inr ⟨0, by decide, overflows_farApart⟩)
  have hsame := hgaps _ _ _ _ _ _ _ _ scaled rfl rfl hrun (congrArg Context.dataset hcontext) 1 0 _ _ hcell hcell'
  exact absurd (hsame.1 hlost) (by decide)

end TableFlow
