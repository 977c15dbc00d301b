import TableFlow.Proofs.Command.Indicators
import TableFlow.Proofs.Command.ScaleFrame
import TableFlow.Proofs.Run.Failure

/-!
# One column at a time

Scaling and labelling treat the columns that they are given one after another, and each in a table in which the columns
before have been treated already.  What is done to a column depends on this column alone, though, so that nothing is
changed if every column has a step of its own, in whatever order.

Main results:

- Definition `ColumnWise.treat`: what treating one column makes of a table and its records.
- Theorem `ColumnWise.treat_swap`: two columns may be treated in either order.
- Theorem `ColumnWise.treats_of_execute`: a step that names columns treats them one after another.
- Theorem `ColumnWise.execute_single`: a step that names a single column treats it.
- Theorem `columns_are_independent`: steps for single columns do what one step for all of them does.
-/

namespace TableFlow

/-- A command that treats each of the columns it is given. -/
inductive ColumnWise where
  | scale (way : Scaling) (exclude : List String)
  | label

/-- A table with the categories that are recorded of its columns. -/
structure RecordedTable where
  table : Table
  records : KeyMap (List String)

namespace ColumnWise

/-- The instruction that treats these columns. -/
def instruction : ColumnWise → (columns : List String) → Instruction
  | .scale way exclude, columns => .scale way columns exclude
  | .label, columns => .encode .label columns

/-- The columns that are named beside those to treat. -/
def excluded : ColumnWise → List String
  | .scale _ exclude => exclude
  | .label => []

/-- A table with the column at a place labelled, unless it is recorded. -/
def labelAt (p : RecordedTable) (name : String) (i : Nat) : RecordedTable :=
  if (p.records.get? name).isSome then p
  else
    let cats := Encoding.categories (p.table.column i)
    ⟨Encoding.labelColumn p.table i cats, p.records.insert name cats⟩

/-- What treating one column makes of a table and its records. -/
def treat : ColumnWise → RecordedTable → String → Except Error RecordedTable
  | .scale way _, p, name => do
    let scaled ← way.column p.table name
    pure { p with table := scaled }
  | .label, p, name => do
    let i ← p.table.requireColumn name
    pure (labelAt p name i)

variable {how : ColumnWise} {p q : RecordedTable} {name : String}

/-! ## Treating a column -/

/-- Scaling changes the cells of a column that holds no categories, and no records. -/
theorem treat_scale_eq_ok {way : Scaling} {exclude : List String} :
    (ColumnWise.scale way exclude).treat p name = .ok q ↔
      ∃ i, p.table.columnIndex? name = some i ∧ p.table.columnKind i ≠ .categorical ∧
        q = { p with table := p.table.mapColumn i (way.scaledCell (p.table.column i)) } := by
  constructor
  · intro h
    obtain ⟨scaled, hscaled, hpure⟩ := bind_eq_ok.1 h
    obtain ⟨i, hindex, hkind, rfl⟩ := Scaling.column_eq_ok hscaled
    cases hpure
    exact ⟨i, hindex, hkind, rfl⟩
  · rintro ⟨i, hindex, hkind, rfl⟩
    refine bind_eq_ok.2 ⟨_, ?_, rfl⟩
    rw [Scaling.column, Table.requireColumn_eq_ok_iff.2 hindex]
    exact if_neg hkind

/-- Labelling needs a column that is there. -/
theorem treat_label_eq_ok :
    ColumnWise.label.treat p name = .ok q ↔
      ∃ i, p.table.columnIndex? name = some i ∧ q = labelAt p name i := by
  constructor
  · intro h
    obtain ⟨i, hfound, hpure⟩ := bind_eq_ok.1 h
    cases hpure
    exact ⟨i, Table.requireColumn_eq_ok_iff.1 hfound, rfl⟩
  · rintro ⟨i, hindex, rfl⟩
    exact bind_eq_ok.2 ⟨i, Table.requireColumn_eq_ok_iff.2 hindex, rfl⟩

@[simp]
theorem columns_labelAt (p : RecordedTable) (name : String) (i : Nat) :
    (labelAt p name i).table.columns = p.table.columns := by
  unfold labelAt
  split <;> rfl

/-- Columns at different places may be labelled in either order. -/
theorem labelAt_comm {other : String} {i j : Nat} (hne : name ≠ other) (hij : i ≠ j) :
    labelAt (labelAt p name i) other j = labelAt (labelAt p other j) name i := by
  by_cases hname : (p.records.get? name).isSome = true <;>
    by_cases hother : (p.records.get? other).isSome = true <;>
      simp [labelAt, Encoding.labelColumn, KeyMap.get?_insert, hname, hother, hne, hne.symm,
        Table.column_mapColumn_of_ne _ hij, Table.column_mapColumn_of_ne _ hij.symm,
        Table.mapColumn_comm _ _ hij, KeyMap.insert_comm _ hne]

/-- The columns stay. -/
theorem columns_treat (h : how.treat p name = .ok q) : q.table.columns = p.table.columns := by
  cases how with
  | scale way exclude =>
      obtain ⟨i, -, -, rfl⟩ := treat_scale_eq_ok.1 h
      rfl
  | label =>
      obtain ⟨i, -, rfl⟩ := treat_label_eq_ok.1 h
      exact columns_labelAt p name i

/-- Two columns may be treated in either order: neither sees what is done to the other. -/
theorem treat_swap {other : String} {r : RecordedTable} (hne : name ≠ other)
    (hfirst : how.treat p name = .ok q) (hsecond : how.treat q other = .ok r) :
    ∃ q', how.treat p other = .ok q' ∧ how.treat q' name = .ok r := by
  cases how with
  | scale way exclude =>
      obtain ⟨i, hi, hikind, rfl⟩ := treat_scale_eq_ok.1 hfirst
      obtain ⟨j, hj, hjkind, rfl⟩ := treat_scale_eq_ok.1 hsecond
      have hij : i ≠ j := Table.ne_of_columnIndex? hi hj hne
      simp only [Table.columnKind, Table.column_mapColumn_of_ne _ hij] at hjkind ⊢
      refine ⟨_, treat_scale_eq_ok.2 ⟨j, hj, hjkind, rfl⟩, treat_scale_eq_ok.2 ⟨i, hi, ?_, ?_⟩⟩
      · simpa only [Table.columnKind, Table.column_mapColumn_of_ne _ hij.symm] using hikind
      · rw [Table.column_mapColumn_of_ne _ hij.symm, Table.mapColumn_comm _ _ hij]
  | label =>
      obtain ⟨i, hi, rfl⟩ := treat_label_eq_ok.1 hfirst
      obtain ⟨j, hj, rfl⟩ := treat_label_eq_ok.1 hsecond
      have hindex : ∀ name' k k', (labelAt p name' k).table.columnIndex? k' = p.table.columnIndex? k' := by
        intro name' k k'
        rw [Table.columnIndex?, Table.columnIndex?, columns_labelAt]
      rw [hindex] at hj
      have hij : i ≠ j := Table.ne_of_columnIndex? hi hj hne
      refine ⟨_, treat_label_eq_ok.2 ⟨j, hj, rfl⟩, treat_label_eq_ok.2 ⟨i, ?_, ?_⟩⟩
      · rw [hindex, hi]
      · exact labelAt_comm hne hij

/-! ## Steps for several columns -/

/-- A workspace holds this table and these records, and columns may be treated there. -/
structure Holds (how : ColumnWise) (w : Workspace) (p : RecordedTable) : Prop where
  dataset : w.context.dataset = some p.table
  split : w.context.split = none
  records : w.context.encodings = p.records
  excluded : ∀ name ∈ how.excluded, name ∈ p.table.columns

section

variable {services : Services} {w w' : Workspace} {message : String} {columns : List String}

/-- The log does not matter. -/
theorem Holds.logged (h : how.Holds w p) (message : String) : how.Holds (w.logged message) p :=
  ⟨h.dataset, h.split, h.records, h.excluded⟩

/-- Scaling columns treats them one after another. -/
theorem treats_scale {way : Scaling} {exclude : List String} {scaled : Table}
    (h : columns.foldlM way.column p.table = .ok scaled) :
    columns.foldlM (ColumnWise.scale way exclude).treat p = .ok { p with table := scaled } := by
  induction columns generalizing p with
  | nil =>
      cases h
      rfl
  | cons name columns ih =>
      obtain ⟨first, hfirst, hrest⟩ := foldlM_cons_eq_ok.1 h
      refine foldlM_cons_eq_ok.2 ⟨{ p with table := first }, bind_eq_ok.2 ⟨first, hfirst, rfl⟩, ?_⟩
      exact ih (p := { p with table := first }) hrest

/-- What a step has recorded so far of the columns that it labels, put over the records it found. -/
def soFar (known : KeyMap (List String)) (r : Encoding.Progress) : RecordedTable :=
  ⟨r.table, known.insertAll r.recorded⟩

/-- Labelling a column within a step treats it, if the step has not recorded it itself. -/
theorem treat_soFar {known : KeyMap (List String)} {r r' : Encoding.Progress}
    (hname : (soFar known r).records.get? name = known.get? name)
    (h : Encoding.label.column known r name = .ok r') :
    ColumnWise.label.treat (soFar known r) name = .ok (soFar known r') ∧ r'.retired = r.retired ∧
      ∀ other, other ≠ name →
        (soFar known r').records.get? other = (soFar known r).records.get? other := by
  obtain ⟨i, hindex, hretired, ⟨hsome, htable, hrecorded⟩ | ⟨hnone, htable, hrecorded⟩⟩ :=
    Encoding.label_eq_ok h
  · have hsame : soFar known r' = soFar known r := by
      rw [soFar, soFar, htable, hrecorded]
    refine ⟨treat_label_eq_ok.2 ⟨i, hindex, ?_⟩, hretired, fun other _ => by rw [hsame]⟩
    rw [labelAt, hname, if_pos hsome, hsame]
  · have hmore : soFar known r' = ⟨r'.table, (soFar known r).records.insert name
        (Encoding.categories (r.table.column i))⟩ := by
      rw [soFar, hrecorded, KeyMap.insertAll_concat, soFar]
    refine ⟨treat_label_eq_ok.2 ⟨i, hindex, ?_⟩, hretired, ?_⟩
    · rw [labelAt, hname, hnone, hmore, htable]
      rfl
    · intro other hne
      rw [hmore, KeyMap.get?_insert, if_neg hne]

/-- Labelling distinct columns treats them one after another: a column was recorded before the step exactly if it is
recorded when its turn comes. -/
theorem treats_label {known : KeyMap (List String)} {r r' : Encoding.Progress}
    (hnodup : columns.Nodup)
    (hknown : ∀ name ∈ columns, (soFar known r).records.get? name = known.get? name)
    (h : columns.foldlM (Encoding.label.column known) r = .ok r') :
    columns.foldlM ColumnWise.label.treat (soFar known r) = .ok (soFar known r') ∧
      r'.retired = r.retired := by
  induction columns generalizing r with
  | nil =>
      cases h
      exact ⟨rfl, rfl⟩
  | cons name columns ih =>
      obtain ⟨s, hs, hrest⟩ := foldlM_cons_eq_ok.1 h
      obtain ⟨hnew, hnodup⟩ := List.nodup_cons.1 hnodup
      obtain ⟨htreat, hretired, hothers⟩ := treat_soFar (hknown name List.mem_cons_self) hs
      have hstill : ∀ other ∈ columns, (soFar known s).records.get? other = known.get? other := by
        intro other hin
        rw [hothers other fun heq => hnew (heq ▸ hin)]
        exact hknown other (List.mem_cons_of_mem _ hin)
      obtain ⟨htreats, hretired'⟩ := ih hnodup hstill hrest
      exact ⟨foldlM_cons_eq_ok.2 ⟨_, htreat, htreats⟩, hretired'.trans hretired⟩

/-- A step that names columns treats them one after another. -/
theorem treats_of_execute (hcolumns : columns ≠ []) (hnodup : columns.Nodup)
    (h : ((how.instruction columns).handler.execute services).runWith w = (.ok message, w')) :
    ∃ p q, how.Holds w p ∧ columns.foldlM how.treat p = .ok q ∧
      w'.context.dataset = some q.table ∧ w'.context.encodings = q.records := by
  cases how with
  | scale way exclude =>
      obtain ⟨t, scaled, hdata, hsplit, hscaled, hcontext⟩ := scaled_of_execute h
      have hnamed := named_of_execute hdata h
      have htargets : Scaling.targets w.context t columns exclude = columns := by
        simp [Scaling.targets, hcolumns]
      rw [htargets] at hscaled
      refine ⟨⟨t, w.context.encodings⟩, ⟨scaled, w.context.encodings⟩, ⟨hdata, hsplit, rfl, ?_⟩,
        treats_scale hscaled, ?_, ?_⟩
      · exact fun name hname => hnamed name (List.mem_append_right _ hname)
      · rw [hcontext]
      · rw [hcontext]
  | label =>
      obtain ⟨t, hdata, hsplit⟩ : ∃ t, w.context.dataset = some t ∧ w.context.split = none := by
        have heffect := Instruction.effect_of_execute h
        generalize w'.context = c' at heffect
        cases heffect with
        | encode hdata hsplit _ _ => exact ⟨_, hdata, hsplit⟩
      obtain ⟨targets, done, htargets, hdone, hdata', -, hencodings⟩ :=
        Encoding.encoded_of_execute hdata h
      rcases Encoding.targets_eq_ok htargets with ⟨hnil, -⟩ | ⟨-, rfl, -⟩
      · exact absurd hnil hcolumns
      · obtain ⟨htreats, hretired⟩ := treats_label hnodup (fun _ _ => rfl) hdone
        refine ⟨_, _, ⟨hdata, hsplit, rfl, ?_⟩, htreats, hdata', ?_⟩
        · exact fun name hname => absurd hname List.not_mem_nil
        · rw [hencodings, Encoding.filter_retired hretired]
          rfl

/-- A step that names a single column treats it. -/
theorem execute_single (services : Services) (hholds : how.Holds w p) (h : how.treat p name = .ok q) :
    ∃ message w', ((how.instruction [name]).handler.execute services).runWith w = (.ok message, w') ∧
      how.Holds w' q := by
  have hexcluded : ∀ other ∈ how.excluded, other ∈ q.table.columns := by
    rw [columns_treat h]
    exact hholds.excluded
  cases how with
  | scale way exclude =>
      obtain ⟨scaled, hscaled, hpure⟩ := bind_eq_ok.1 h
      cases hpure
      obtain ⟨i, hindex, -, -⟩ := Scaling.column_eq_ok hscaled
      have hnamed : ∀ other ∈ [name] ++ exclude, other ∈ p.table.columns := by
        intro other hother
        rcases List.mem_cons.1 hother with rfl | hmem
        · exact Table.mem_of_columnIndex? hindex
        · exact hholds.excluded other hmem
      obtain ⟨message, w', hrun, hcontext⟩ := exists_scaled_execute services way [name] exclude w
        hholds.dataset hholds.split hnamed (foldlM_cons_eq_ok.2 ⟨scaled, hscaled, rfl⟩)
      refine ⟨message, w', hrun, ?_, ?_, ?_, hexcluded⟩
      · rw [hcontext]
      · rw [hcontext]
        exact hholds.split
      · rw [hcontext]
        exact hholds.records
  | label =>
      obtain ⟨i, hindex, -⟩ := treat_label_eq_ok.1 h
      obtain ⟨message, w', hrun⟩ :=
        Encoding.exists_label services hholds.dataset hholds.split hindex
      obtain ⟨r, hr, hdata, hsplit, hencodings⟩ := Encoding.column_of_execute hholds.dataset hrun
      obtain ⟨htreat, hretired, -⟩ := treat_soFar rfl hr
      rw [Encoding.filter_retired hretired] at hencodings
      have hq : q = soFar w.context.encodings r := by
        have hsame : soFar w.context.encodings { table := p.table } = p := by
          rw [soFar, KeyMap.insertAll_nil, hholds.records]
        rw [hsame, h] at htreat
        exact Except.ok.inj htreat
      subst hq
      exact ⟨message, w', hrun, hdata, hsplit, hencodings, hexcluded⟩

/-- Steps that name one column each treat these columns one after another. -/
theorem performs_single (services : Services) (hholds : how.Holds w p)
    (h : columns.foldlM how.treat p = .ok q) {steps : List Step}
    (hsteps : steps.map Step.handler = columns.map fun name => (how.instruction [name]).handler) :
    ∃ messages w', Performs services w steps messages w' ∧ how.Holds w' q := by
  induction columns generalizing w p steps with
  | nil =>
      cases h
      obtain rfl : steps = [] := by simpa using hsteps
      exact ⟨[], w, .nil w, hholds⟩
  | cons name columns ih =>
      obtain ⟨first, hfirst, hrest⟩ := foldlM_cons_eq_ok.1 h
      rw [List.map_cons, List.map_eq_cons_iff] at hsteps
      obtain ⟨s, steps, rfl, hs, hsteps⟩ := hsteps
      obtain ⟨message, w₁, hrun, hholds₁⟩ := execute_single services hholds hfirst
      obtain ⟨messages, w', hperforms, hholds'⟩ := ih (hholds₁.logged message) hrest hsteps
      rw [← hs] at hrun
      exact ⟨message :: messages, w', .cons hrun hperforms, hholds'⟩

end

end ColumnWise

/-- If a step that scales distinct columns, or one that labels them, succeeds, then so does a step for each of them
alone, in whatever order these are taken, and in the end the table and the records are the same.  The columns are
named: a step without any would choose them itself. -/
theorem columns_are_independent (services : Services) (how : ColumnWise) (columns : List String)
    (w w' : Workspace) (message : String) (hcolumns : columns ≠ []) (hnodup : columns.Nodup)
    (h : ((how.instruction columns).handler.execute services).runWith w = (.ok message, w')) :
    ∀ order : List String, order.Perm columns → ∀ steps : List Step,
      steps.map Step.handler = order.map (fun name => (how.instruction [name]).handler) →
      ∃ messages w'', Performs services w steps messages w'' ∧
        w''.context.dataset = w'.context.dataset ∧ w''.context.encodings = w'.context.encodings := by
  intro order horder steps hsteps
  obtain ⟨p, q, hholds, htreats, hdata, hencodings⟩ :=
    ColumnWise.treats_of_execute hcolumns hnodup h
  have hreordered : order.foldlM how.treat p = .ok q := by
    refine foldlM_eq_ok_of_perm ?_ horder.symm hnodup htreats
    intro name other hne b c d hfirst hsecond
    exact ColumnWise.treat_swap hne hfirst hsecond
  obtain ⟨messages, w'', hperforms, hholds'⟩ :=
    ColumnWise.performs_single services hholds hreordered hsteps
  refine ⟨messages, w'', hperforms, ?_, ?_⟩
  · rw [hholds'.dataset, hdata]
  · rw [hholds'.records, hencodings]

/-- A context with two columns of numbers and one of texts, in which the codes of one column are recorded. -/
def partlyRecorded : Context where
  dataset := some ⟨["x", "c", "y"],
    [[.nat 1, .string "b", .nat 0], [.nat 3, .null, .null], [.nat 2, .string "a", .nat 1]]⟩
  encodings := .ofList [("y", ["no", "yes"])]

/-- A step that carries an instruction out. -/
def stepFor (todo : Instruction) : Step :=
  ⟨todo.name, [], Options.empty, 1, todo.handler⟩

/-- There, two columns of numbers may be scaled in either order, and so may a column of texts and the one that is
recorded be labelled. -/
theorem columns_are_independent_of_partlyRecorded :
    (∃ message w', ((Instruction.scale .minMax ["x", "y"] []).handler.execute (.native {} "")).runWith
        ⟨partlyRecorded, Files.empty⟩ = (.ok message, w') ∧
      ∃ messages w'', Performs (.native {} "") ⟨partlyRecorded, Files.empty⟩
          [stepFor (.scale .minMax ["y"] []), stepFor (.scale .minMax ["x"] [])] messages w'' ∧
        w''.context.dataset = w'.context.dataset) ∧
      ∃ message w', ((Instruction.encode .label ["y", "c"]).handler.execute (.native {} "")).runWith
          ⟨partlyRecorded, Files.empty⟩ = (.ok message, w') ∧
        ∃ messages w'', Performs (.native {} "") ⟨partlyRecorded, Files.empty⟩
            [stepFor (.encode .label ["c"]), stepFor (.encode .label ["y"])] messages w'' ∧
          w''.context.encodings = w'.context.encodings := by
  refine ⟨⟨_, _, rfl, ?_⟩, _, _, rfl, ?_⟩
  · obtain ⟨messages, w'', hperforms, hdata, -⟩ :=
      columns_are_independent (.native {} "") (.scale .minMax []) ["x", "y"] ⟨partlyRecorded, Files.empty⟩
        _ _ (by decide) (by decide) rfl ["y", "x"] (List.Perm.swap "x" "y" [])
        [stepFor (.scale .minMax ["y"] []), stepFor (.scale .minMax ["x"] [])] rfl
    exact ⟨messages, w'', hperforms, hdata⟩
  · obtain ⟨messages, w'', hperforms, -, hencodings⟩ :=
      columns_are_independent (.native {} "") .label ["y", "c"] ⟨partlyRecorded, Files.empty⟩
        _ _ (by decide) (by decide) rfl ["c", "y"] (List.Perm.swap "y" "c" [])
        [stepFor (.encode .label ["c"]), stepFor (.encode .label ["y"])] rfl
    exact ⟨messages, w'', hperforms, hencodings⟩

end TableFlow
