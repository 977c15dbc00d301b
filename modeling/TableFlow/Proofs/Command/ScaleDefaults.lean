import TableFlow.Proofs.Command.ScaleFrame
import TableFlow.Proofs.Table.Keys

/-!
# Which columns are scaled unasked

A step that scales and names no columns scales the numeric ones, but not those that hold codes: the excluded ones, the
recorded ones, the target, and columns of whole numbers of which few are distinct.  The whole numbers are counted as
words of 64 bits.  So no column is scaled that should not be, but a column of many whole numbers is left out if few of
its words are distinct: the numbers beyond the greatest word are all counted as one.

Main results:

- Definition `Scaling.HoldsCodes`: whole numbers of at most ten values.
- Structure `Scaling.Selected`: the columns that are to be scaled.
- Definition `Scaling.Countable`: many whole numbers are also many words.
- Theorem `Scaling.mem_targets_iff_selected`: which columns are found.
- Theorem `default_scaling_selects`: which columns a step scales without being told.
- Theorem `large_numbers_count_as_one`: a column of eleven whole numbers that is not scaled.
-/

namespace TableFlow

open Decimal

/-! ## Counting distinct values -/

section

variable {α β γ : Type*} [DecidableEq β] [DecidableEq γ]

/-- What is left without repetitions has none. -/
theorem nodup_eraseDups (xs : List β) : xs.eraseDups.Nodup := by
  induction h : xs.length using Nat.strongRecOn generalizing xs with
  | _ n ih =>
      cases xs with
      | nil => simp
      | cons x xs =>
          rw [List.eraseDups_cons, List.nodup_cons, List.mem_eraseDups]
          refine ⟨by simp, ih _ ?_ _ rfl⟩
          rw [← h]
          exact Nat.lt_succ_of_le (List.length_filter_le _ _)

/-- Without repetitions a list is as long as it has values. -/
theorem length_eraseDups (xs : List β) : xs.eraseDups.length = xs.toFinset.card := by
  have hsame : xs.toFinset = xs.eraseDups.toFinset := by
    ext x
    rw [List.mem_toFinset, List.mem_toFinset, List.mem_eraseDups]
  rw [hsame, List.toFinset_card_of_nodup (nodup_eraseDups xs)]

/-- A view that another view determines has no more values than it. -/
theorem card_map_le {f : α → β} {g : α → γ} {xs : List α} (h : ∀ a ∈ xs, ∀ b ∈ xs, g a = g b → f a = f b) :
    (xs.map f).toFinset.card ≤ (xs.map g).toFinset.card := by
  induction xs with
  | nil => rfl
  | cons x xs ih =>
      have hrest := ih fun a ha b hb => h a (List.mem_cons_of_mem _ ha) b (List.mem_cons_of_mem _ hb)
      simp only [List.map_cons, List.toFinset_cons]
      by_cases hknown : f x ∈ (xs.map f).toFinset
      · rw [Finset.insert_eq_of_mem hknown]
        exact hrest.trans (Finset.card_le_card (Finset.subset_insert _ _))
      · have hnew : g x ∉ (xs.map g).toFinset := by
          intro hmem
          obtain ⟨a, ha, hsame⟩ := List.mem_map.1 (List.mem_toFinset.1 hmem)
          have hf := h a (List.mem_cons_of_mem _ ha) x List.mem_cons_self hsame
          exact hknown (List.mem_toFinset.2 (List.mem_map.2 ⟨a, ha, hf⟩))
        rw [Finset.card_insert_of_notMem hknown, Finset.card_insert_of_notMem hnew]
        exact Nat.succ_le_succ hrest

end

/-! ## Whole numbers and their words -/

/-- The number is an integer. -/
def Number.Whole (n : Number) : Prop :=
  ∃ k : Int, n.value = k

/-- A number is an integer if and only if the double nearest to it has no fractional part. -/
theorem Number.Valid.isIntegral_iff {n : Number} (h : n.Valid) : isIntegral n.toFloat = true ↔ n.Whole := by
  cases n with
  | int k => exact iff_of_true (isIntegral_ofInt h.natAbs_lt) ⟨k, rfl⟩
  | float x => exact Decimal.isIntegral_iff h

/-- The word of an integral double is its value, as far as words reach. -/
theorem toInt64_eq {x : Float} {k : Int} (h : isFinite x = true) (hk : value x = k) :
    toInt64 x = max (-signBound : Int) (min (signBound - 1) k) := by
  have hpart := integerPart_eq h hk
  obtain ⟨negative, m, q, hfloat⟩ := exists_of_isFinite h
  rw [toInt64, hfloat, hpart]

/-- What a number is counted as: the value of the double nearest to it, as far as signed words of 64 bits reach. -/
def Number.word (n : Number) : ℚ :=
  max (-signBound) (min (signBound - 1) (Decimal.value n.toFloat))

/-- A whole number is counted as its word. -/
theorem Number.Valid.toInt64_toFloat {n : Number} (h : n.Valid) (hwhole : n.Whole) :
    (toInt64 n.toFloat : ℚ) = n.word := by
  obtain ⟨k, hk⟩ := (Decimal.isIntegral_iff h.isFinite_toFloat).1 (h.isIntegral_iff.2 hwhole)
  rw [toInt64_eq h.isFinite_toFloat hk, Number.word, hk]
  push_cast
  rfl

/-- A whole number that is the value of a double is its own word, as far as words reach. -/
theorem Number.Exact.word_eq {n : Number} (h : n.Exact) (hwhole : n.Whole) (hlow : (-signBound : ℚ) ≤ n.value)
    (hhigh : n.value < signBound) : n.word = n.value := by
  obtain ⟨k, hk⟩ := hwhole
  have hvalue : Decimal.value n.toFloat = n.value := h
  rw [hk] at hhigh
  have hgreatest : k < signBound := by exact_mod_cast hhigh
  have hbelow : n.value ≤ signBound - 1 := by
    rw [hk]
    exact_mod_cast Int.le_sub_one_of_lt hgreatest
  rw [Number.word, hvalue, min_eq_right hbelow, max_eq_right hlow]

/-! ## Columns of codes -/

/-- The numbers among the cells of a column. -/
def numbersOf (cells : List Cell) : List Number :=
  cells.filterMap fun cell => match cell with
    | .number n => some n
    | _ => none

theorem mem_numbersOf {cells : List Cell} {n : Number} : n ∈ numbersOf cells ↔ Json.number n ∈ cells := by
  rw [numbersOf, List.mem_filterMap]
  constructor
  · rintro ⟨cell, hcell, hn⟩
    cases cell with
    | number m =>
        cases hn
        exact hcell
    | _ => cases hn
  · intro hn
    exact ⟨_, hn, rfl⟩

/-- The numbers of a column stand in the rows of the table. -/
theorem mem_rows_of_mem_numbersOf {t : Table} {name : String} {n : Number} (h : n ∈ numbersOf (t.cellsOf name)) :
    ∃ row ∈ t.rows, Json.number n ∈ row := by
  have hcell := mem_numbersOf.1 h
  rw [Table.cellsOf] at hcell
  split at hcell
  · next i _ =>
      obtain ⟨row, hrow, hn⟩ := List.mem_map.1 hcell
      refine ⟨row, hrow, ?_⟩
      rw [List.getD_eq_getElem?_getD] at hn
      cases hplace : row[i]? with
      | none =>
          rw [hplace] at hn
          cases hn
      | some cell =>
          rw [hplace] at hn
          exact hn ▸ List.mem_of_getElem? hplace
  · cases hcell

theorem map_toFloat_numbersOf (cells : List Cell) :
    (numbersOf cells).map Number.toFloat = cells.filterMap Json.float? := by
  rw [numbersOf, List.map_filterMap]
  congr 1
  funext cell
  cases cell <;> rfl

namespace Scaling

/-- The numbers of the cells are whole, and of at most ten values. -/
structure HoldsCodes (cells : List Cell) : Prop where
  whole : ∀ n ∈ numbersOf cells, n.Whole
  few : ((numbersOf cells).map Number.value).toFinset.card ≤ maxCodeLevels

/-- If the numbers of the cells are whole and of more than ten values, they are also of more than ten words. -/
def Countable (cells : List Cell) : Prop :=
  (∀ n ∈ numbersOf cells, n.Whole) → maxCodeLevels < ((numbersOf cells).map Number.value).toFinset.card →
    maxCodeLevels < ((numbersOf cells).map Number.word).toFinset.card

section

variable {cells : List Cell}

/-- Whole numbers are counted as their words. -/
theorem card_words (hvalid : ∀ n ∈ numbersOf cells, n.Valid) (hwhole : ∀ n ∈ numbersOf cells, n.Whole) :
    ((numbersOf cells).map fun n => toInt64 n.toFloat).toFinset.card =
      ((numbersOf cells).map Number.word).toFinset.card := by
  have hword : ∀ n ∈ numbersOf cells, (toInt64 n.toFloat : ℚ) = n.word :=
    fun n hn => (hvalid n hn).toInt64_toFloat (hwhole n hn)
  apply le_antisymm
  · refine card_map_le fun a ha b hb hsame => ?_
    rw [← hword a ha, ← hword b hb] at hsame
    exact_mod_cast hsame
  · refine card_map_le fun a ha b hb hsame => ?_
    rw [← hword a ha, ← hword b hb, hsame]

/-- Cells are taken for codes if there are numbers among them, all whole and of few words. -/
theorem areCodes_iff (hvalid : ∀ n ∈ numbersOf cells, n.Valid) :
    areCodes (cells.filterMap Json.float?) = true ↔ numbersOf cells ≠ [] ∧ (∀ n ∈ numbersOf cells, n.Whole) ∧
      ((numbersOf cells).map Number.word).toFinset.card ≤ maxCodeLevels := by
  have hwhole : (∀ n ∈ numbersOf cells, isIntegral n.toFloat = true) ↔ ∀ n ∈ numbersOf cells, n.Whole :=
    forall₂_congr fun n hn => (hvalid n hn).isIntegral_iff
  have hcodes : areCodes (cells.filterMap Json.float?) = true ↔
      numbersOf cells ≠ [] ∧ (∀ n ∈ numbersOf cells, n.Whole) ∧
        ((numbersOf cells).map fun n => toInt64 n.toFloat).toFinset.card ≤ maxCodeLevels := by
    rw [← map_toFloat_numbersOf, areCodes, Bool.and_eq_true, Bool.and_eq_true, decide_eq_true_iff, length_eraseDups,
      List.map_map, ← hwhole, and_assoc]
    simp [Function.comp_def]
  rw [hcodes]
  exact and_congr_right fun _ => and_congr_right fun hall => by rw [card_words hvalid hall]

/-- Codes are taken for codes: numbers of one value have one word. -/
theorem areCodes_of_holdsCodes (hvalid : ∀ n ∈ numbersOf cells, n.Valid) (hsome : numbersOf cells ≠ [])
    (h : HoldsCodes cells) : areCodes (cells.filterMap Json.float?) = true := by
  refine (areCodes_iff hvalid).2 ⟨hsome, h.whole, le_trans (card_map_le fun a ha b hb hsame => ?_) h.few⟩
  rw [Number.word, Number.word, (hvalid a ha).value_toFloat (hvalid b hb) hsame]

/-- What is taken for codes are codes, unless they are many numbers of few words. -/
theorem holdsCodes_of_areCodes (hvalid : ∀ n ∈ numbersOf cells, n.Valid) (hcount : Countable cells)
    (h : areCodes (cells.filterMap Json.float?) = true) : HoldsCodes cells := by
  obtain ⟨-, hwhole, hfew⟩ := (areCodes_iff hvalid).1 h
  refine ⟨hwhole, Nat.le_of_not_lt fun hmany => ?_⟩
  exact Nat.not_lt.2 hfew (hcount hwhole hmany)

/-- Numbers that are not taken for codes are not many numbers of few words. -/
theorem countable_of_areCodes (hvalid : ∀ n ∈ numbersOf cells, n.Valid) (hsome : numbersOf cells ≠ [])
    (h : areCodes (cells.filterMap Json.float?) = false) : Countable cells := by
  intro hwhole _
  by_contra hfew
  rw [(areCodes_iff hvalid).2 ⟨hsome, hwhole, Nat.le_of_not_lt hfew⟩] at h
  cases h

/-- Whole numbers within 64 bits that are values of doubles can be counted. -/
theorem countable_of_exact
    (h : ∀ n ∈ numbersOf cells, n.Exact ∧ (-signBound : ℚ) ≤ n.value ∧ n.value < signBound) : Countable cells := by
  intro hwhole hmany
  refine Nat.lt_of_lt_of_le hmany (card_map_le fun a ha b hb hsame => ?_)
  have hword : ∀ n ∈ numbersOf cells, n.word = n.value := by
    intro n hn
    obtain ⟨hexact, hlow, hhigh⟩ := h n hn
    exact hexact.word_eq (hwhole n hn) hlow hhigh
  rw [← hword a ha, ← hword b hb, hsame]

end

/-! ## Columns that are scaled unasked -/

/-- A column that is to be scaled when no columns are named: it holds numbers and no categories, and it is not excluded,
recorded, the target or a column of codes. -/
structure Selected (context : Context) (t : Table) (exclude : List String) (name : String) : Prop where
  mem : name ∈ t.columns
  numbers : numbersOf (t.cellsOf name) ≠ []
  noCategories : ∀ cell ∈ t.cellsOf name, cell.isCategory = false
  notExcluded : name ∉ exclude
  notRecorded : context.encodings.contains name = false
  notTarget : context.target ≠ some name
  noCodes : ¬HoldsCodes (t.cellsOf name)

/-- A column is numeric if it has numbers and no categories. -/
theorem ofCells_eq_numeric_iff {cells : List Cell} :
    ColumnKind.ofCells cells = .numeric ↔ numbersOf cells ≠ [] ∧ ∀ cell ∈ cells, cell.isCategory = false := by
  have hnumber : cells.any Cell.isNumber = true ↔ numbersOf cells ≠ [] := by
    rw [List.any_eq_true]
    constructor
    · rintro ⟨cell, hcell, hn⟩
      cases cell with
      | number n => exact List.ne_nil_of_mem (mem_numbersOf.2 hcell)
      | _ => cases hn
    · intro hsome
      obtain ⟨n, hn⟩ := List.exists_mem_of_ne_nil _ hsome
      exact ⟨_, mem_numbersOf.1 hn, rfl⟩
  have hcategory : cells.any Cell.isCategory = true ↔ ¬∀ cell ∈ cells, cell.isCategory = false := by
    simp
  rw [ColumnKind.ofCells, ← hnumber]
  split
  · next h => simp [hcategory.1 h]
  · next h =>
      have hnone := not_not.1 (mt hcategory.2 h)
      split
      · next hsome => exact iff_of_true rfl ⟨hsome, hnone⟩
      · next hsome => exact iff_of_false (by decide) fun hboth => hsome hboth.1

variable {context : Context} {t : Table} {exclude : List String} {name : String}

/-- The columns that are found are numeric and none of the exceptions; of columns of codes, none that is taken for one. -/
theorem mem_targets_iff (hnodup : t.columns.Nodup) :
    name ∈ targets context t [] exclude ↔ name ∈ t.columns ∧ ColumnKind.ofCells (t.cellsOf name) = .numeric ∧
      name ∉ exclude ∧ context.encodings.contains name = false ∧ context.target ≠ some name ∧
      areCodes ((t.cellsOf name).filterMap Json.float?) = false := by
  have htargets : targets context t [] exclude = t.numericColumns.filter (isDefault context t exclude) := rfl
  rw [htargets, List.mem_filter, Table.numericColumns, Table.mem_columnsOfKind_iff hnodup, and_assoc]
  refine and_congr_right fun hmem => and_congr_right fun _ => ?_
  obtain ⟨i, hindex⟩ := Table.exists_columnIndex? hmem
  simp only [isDefault, hindex, Table.cellsOf_eq hindex, Table.numericValues]
  simp [and_assoc]

/-- The columns that are found stand in the order of the table. -/
theorem targets_sublist (context : Context) (t : Table) (exclude : List String) :
    (targets context t [] exclude).Sublist t.columns :=
  List.filter_sublist.trans (t.columnsOfKind_sublist .numeric)

/-- The columns that are found are those that are to be scaled and can be counted. -/
theorem mem_targets_iff_selected (hnodup : t.columns.Nodup)
    (hvalid : ∀ n ∈ numbersOf (t.cellsOf name), n.Valid) :
    name ∈ targets context t [] exclude ↔
      Selected context t exclude name ∧ Countable (t.cellsOf name) := by
  rw [mem_targets_iff hnodup]
  constructor
  · rintro ⟨hmem, hkind, hexclude, hrecorded, htarget, hcodes⟩
    obtain ⟨hnumbers, hcategories⟩ := ofCells_eq_numeric_iff.1 hkind
    have hno : ¬HoldsCodes (t.cellsOf name) := by
      intro hholds
      rw [areCodes_of_holdsCodes hvalid hnumbers hholds] at hcodes
      cases hcodes
    exact ⟨⟨hmem, hnumbers, hcategories, hexclude, hrecorded, htarget, hno⟩,
      countable_of_areCodes hvalid hnumbers hcodes⟩
  · rintro ⟨h, hcount⟩
    refine ⟨h.mem, ofCells_eq_numeric_iff.2 ⟨h.numbers, h.noCategories⟩, h.notExcluded, h.notRecorded, h.notTarget,
      Bool.eq_false_iff.2 fun hcodes => ?_⟩
    exact h.noCodes (holdsCodes_of_areCodes hvalid hcount hcodes)

/-- A column that is scaled once gets the scaled cells of the column that was there. -/
theorem cellsOf_scaled_of_mem {s : Scaling} {targets : List String} {scaled : Table} (hnodup : targets.Nodup)
    (h : targets.foldlM s.column t = .ok scaled) (hname : name ∈ targets) :
    scaled.cellsOf name = s.rescaled (t.cellsOf name) := by
  induction targets generalizing t with
  | nil => cases hname
  | cons target targets ih =>
      obtain ⟨first, hfirst, hrest⟩ := foldlM_cons_eq_ok.1 h
      obtain ⟨hnew, hnodup⟩ := List.nodup_cons.1 hnodup
      have hrescales := rescales_of_column hfirst
      rcases List.mem_cons.1 hname with rfl | hmore
      · rw [cellsOf_scaled hrest hnew, hrescales.cells]
      · have hne : name ≠ target := fun heq => hnew (heq ▸ hmore)
        rw [ih hnodup hrest hmore, hrescales.others name hne]

/-- A column without categories is scaled. -/
theorem column_of_noCategories {s : Scaling} (hmem : name ∈ t.columns)
    (h : ∀ cell ∈ t.cellsOf name, cell.isCategory = false) : ∃ scaled, s.column t name = .ok scaled := by
  obtain ⟨i, hindex⟩ := Table.exists_columnIndex? hmem
  rw [Table.cellsOf_eq hindex] at h
  have hkind : t.columnKind i ≠ .categorical := by
    rw [Table.columnKind, ColumnKind.ofCells, if_neg (by simpa using h)]
    split <;> decide
  rw [column, Table.requireColumn_eq_ok_iff.2 hindex]
  exact ⟨_, if_neg hkind⟩

/-- Columns without categories are scaled, one after another. -/
theorem exists_scaled {s : Scaling} {targets : List String} (hnodup : targets.Nodup)
    (h : ∀ name ∈ targets, name ∈ t.columns ∧ ∀ cell ∈ t.cellsOf name, cell.isCategory = false) :
    ∃ scaled, targets.foldlM s.column t = .ok scaled := by
  induction targets generalizing t with
  | nil => exact ⟨t, rfl⟩
  | cons target targets ih =>
      obtain ⟨hnew, hnodup⟩ := List.nodup_cons.1 hnodup
      obtain ⟨hmem, hcategories⟩ := h target List.mem_cons_self
      obtain ⟨first, hfirst⟩ := column_of_noCategories (s := s) hmem hcategories
      have hrescales := rescales_of_column hfirst
      have hrest : ∀ name ∈ targets, name ∈ first.columns ∧ ∀ cell ∈ first.cellsOf name, cell.isCategory = false := by
        intro name hname
        have hne : name ≠ target := fun heq => hnew (heq ▸ hname)
        rw [hrescales.columns, hrescales.others name hne]
        exact h name (List.mem_cons_of_mem _ hname)
      obtain ⟨scaled, hscaled⟩ := ih hnodup hrest
      exact ⟨scaled, foldlM_cons_eq_ok.2 ⟨first, hfirst, hscaled⟩⟩

end Scaling

/-! ## Steps that name no columns -/

variable {services : Services} {way : Scaling} {columns exclude : List String} {w w' : Workspace} {message : String}

/-- The message that names the columns that were scaled. -/
def Scaling.report (way : Scaling) (names : List String) : String :=
  let n := names.length
  let listed := ", ".intercalate names
  s!"Scaled {n} column(s) with {way.name}: {listed}"

/-- The message of a step that scales names the columns that it finds. -/
theorem Scaling.message_of_run (h : (way.run columns exclude w.context).runWith w = (.ok message, w')) :
    ∃ t, w.context.dataset = some t ∧ message = way.report (targets w.context t columns exclude) := by
  obtain ⟨t, ht, h⟩ := StepM.ofExcept_bind_eq_ok.1 h
  obtain ⟨_, _, h⟩ := StepM.ofExcept_bind_eq_ok.1 h
  obtain ⟨scaled, _, h⟩ := StepM.ofExcept_bind_eq_ok.1 h
  cases h
  exact ⟨t, (Instruction.requireUnsplit_eq_ok.1 ht).1, rfl⟩

/-- A step that scales and names no columns succeeds on a table that is not split, if it excludes columns of the table. -/
theorem exists_default_scaling (services : Services) (way : Scaling) (exclude : List String) (w : Workspace)
    {t : Table} (hdata : w.context.dataset = some t) (hsplit : w.context.split = none) (hnodup : t.columns.Nodup)
    (hexclude : ∀ name ∈ exclude, name ∈ t.columns) :
    ∃ message w', ((Instruction.scale way [] exclude).handler.execute services).runWith w = (.ok message, w') := by
  have hnumeric : ∀ name ∈ Scaling.targets w.context t [] exclude,
      name ∈ t.columns ∧ ∀ cell ∈ t.cellsOf name, cell.isCategory = false := by
    intro name hname
    obtain ⟨hmem, hkind, -⟩ := (Scaling.mem_targets_iff hnodup).1 hname
    exact ⟨hmem, (Scaling.ofCells_eq_numeric_iff.1 hkind).2⟩
  have hdistinct := (Scaling.targets_sublist w.context t exclude).nodup hnodup
  obtain ⟨scaled, hscaled⟩ := Scaling.exists_scaled (s := way) hdistinct hnumeric
  obtain ⟨message, w', hrun, -⟩ := exists_scaled_execute services way [] exclude w hdata hsplit hexclude hscaled
  exact ⟨message, w', hrun⟩

/-- A step that scales and names no columns rescales the columns of its message, in the order of the table, and no
others.  They are the columns that are to be scaled, but for those of many whole numbers that count as few. -/
theorem default_scaling_selects {t : Table} (hdata : w.context.dataset = some t) (hwell : t.WellFormed)
    (hvalid : ∀ row ∈ t.rows, ∀ n, Json.number n ∈ row → n.Valid)
    (h : ((Instruction.scale way [] exclude).handler.execute services).runWith w = (.ok message, w')) :
    ∃ names scaled,
      message = way.report names ∧ names.Sublist t.columns ∧ w'.context.dataset = some scaled ∧
      (∀ name ∈ names, scaled.cellsOf name = way.rescaled (t.cellsOf name)) ∧
      (∀ name, name ∉ names → scaled.cellsOf name = t.cellsOf name) ∧
      ∀ name, name ∈ names ↔ Scaling.Selected w.context t exclude name ∧ Scaling.Countable (t.cellsOf name) := by
  have hnumbers : ∀ name, ∀ n ∈ numbersOf (t.cellsOf name), n.Valid := by
    intro name n hn
    obtain ⟨row, hrow, hmem⟩ := mem_rows_of_mem_numbersOf hn
    exact hvalid row hrow n hmem
  obtain ⟨t', scaled, hdata', -, hscaled, hcontext⟩ := scaled_of_execute h
  rw [Instruction.runWith_execute] at h
  obtain ⟨t'', hdata'', hmessage⟩ := Scaling.message_of_run h
  obtain rfl : t = t' := Option.some.inj (hdata.symm.trans hdata')
  obtain rfl : t = t'' := Option.some.inj (hdata.symm.trans hdata'')
  have hsublist := Scaling.targets_sublist w.context t exclude
  refine ⟨_, scaled, hmessage, hsublist, congrArg Context.dataset hcontext, ?_, ?_, ?_⟩
  · exact fun name => Scaling.cellsOf_scaled_of_mem (hsublist.nodup hwell.nodup) hscaled
  · exact fun name => Scaling.cellsOf_scaled hscaled
  · exact fun name => Scaling.mem_targets_iff_selected hwell.nodup (hnumbers name)

/-! ## A table with measurements, codes and counts -/

/-- The whole numbers below twelve, the last one first. -/
def counts : List Nat :=
  11 :: List.range 11

theorem lt_of_mem_counts : ∀ i ∈ counts, i < 12 := by decide

/-- A table with a column of measurements, one of them missing, a column of codes, and a column of counts. -/
def codedTable : Table :=
  ⟨["x", "y", "z"], counts.map fun i =>
    [if i = 11 then .null else .number (.float 1.5), .nat (i % 2), .nat i]⟩

theorem valid_measure : (Number.float 1.5).Valid :=
  show isFinite 1.5 = true by decide +kernel

theorem valid_codedTable : ∀ row ∈ codedTable.rows, ∀ n, Json.number n ∈ row → n.Valid := by
  have hfits : ∀ i < 12, Number.fits (i : Nat) = true := by decide
  intro row hrow n hn
  obtain ⟨i, hi, rfl⟩ := List.mem_map.1 hrow
  have hlt := lt_of_mem_counts i hi
  simp only [Json.nat, List.mem_cons, List.not_mem_nil, or_false, Json.number.injEq] at hn
  rcases hn with hmeasure | rfl | rfl
  · split at hmeasure
    · cases hmeasure
    · cases hmeasure
      exact valid_measure
  · exact hfits (i % 2) (Nat.lt_of_le_of_lt (Nat.mod_le i 2) hlt)
  · exact hfits i hlt

theorem not_whole_measure : ¬(Number.float 1.5).Whole := by
  rw [← valid_measure.isIntegral_iff]
  decide +kernel

theorem holdsCodes_codedTable : Scaling.HoldsCodes (codedTable.cellsOf "y") := by
  have hnumbers : numbersOf (codedTable.cellsOf "y") = counts.map fun i => .int (i % 2 : Nat) := rfl
  refine ⟨?_, by decide +kernel⟩
  rw [hnumbers]
  intro n hn
  obtain ⟨i, -, rfl⟩ := List.mem_map.1 hn
  exact ⟨_, rfl⟩

/-- The counts are small enough to be counted. -/
theorem countable_codedTable : Scaling.Countable (codedTable.cellsOf "z") := by
  have hnumbers : numbersOf (codedTable.cellsOf "z") = counts.map fun i => .int i := rfl
  apply Scaling.countable_of_exact
  rw [hnumbers]
  intro n hn
  obtain ⟨i, hi, rfl⟩ := List.mem_map.1 hn
  have hsmall := lt_of_mem_counts i hi
  have hnonneg : (0 : ℚ) ≤ i := Nat.cast_nonneg i
  have hbound : (i : ℚ) < signBound := by exact_mod_cast hsmall.trans (by decide : 12 < signBound)
  have hvalue : (Number.int i).value = i := Int.cast_natCast i
  rw [hvalue]
  refine ⟨Number.exact_int ?_, by linarith, hbound⟩
  rw [Int.natAbs_natCast]
  omega

/-- Nothing but codes would keep a column of that table from being scaled. -/
theorem selected_codedTable {name : String} {n : Number} (hmem : name ∈ codedTable.columns)
    (hn : n ∈ numbersOf (codedTable.cellsOf name)) (hcodes : ¬Scaling.HoldsCodes (codedTable.cellsOf name)) :
    Scaling.Selected { dataset := some codedTable } codedTable [] name := by
  have hcategories : ∀ name ∈ codedTable.columns, ∀ cell ∈ codedTable.cellsOf name, cell.isCategory = false := by
    decide +kernel
  exact ⟨hmem, List.ne_nil_of_mem hn, hcategories name hmem, List.not_mem_nil, rfl, by simp, hcodes⟩

/-- Of that table the measurements and the counts are scaled, and the codes are not. -/
theorem default_scaling_selects_of_codedTable :
    ∃ message w' names, ((Instruction.scale .minMax [] []).handler.execute (.native {} "")).runWith
        ⟨{ dataset := some codedTable }, Files.empty⟩ = (.ok message, w') ∧
      message = Scaling.minMax.report names ∧ "x" ∈ names ∧ "y" ∉ names ∧ "z" ∈ names := by
  have hwell : codedTable.WellFormed := ⟨by decide, by decide⟩
  obtain ⟨message, w', hrun⟩ := exists_default_scaling (.native {} "") .minMax []
    ⟨{ dataset := some codedTable }, Files.empty⟩ rfl rfl hwell.nodup (by simp)
  obtain ⟨names, scaled, hmessage, -, -, -, -, hall⟩ :=
    default_scaling_selects rfl hwell valid_codedTable hrun
  have hmeasure : Number.float 1.5 ∈ numbersOf (codedTable.cellsOf "x") :=
    mem_numbersOf.2 (List.mem_of_getElem? (show (codedTable.cellsOf "x")[1]? = _ from rfl))
  have hcount : Number.int 11 ∈ numbersOf (codedTable.cellsOf "z") := mem_numbersOf.2 List.mem_cons_self
  refine ⟨message, w', names, hrun, hmessage, ?_, ?_, ?_⟩
  · have hcodes : ¬Scaling.HoldsCodes (codedTable.cellsOf "x") :=
      fun hcodes => not_whole_measure (hcodes.whole _ hmeasure)
    have hcountable : Scaling.Countable (codedTable.cellsOf "x") :=
      fun hwhole => absurd (hwhole _ hmeasure) not_whole_measure
    exact (hall "x").2 ⟨selected_codedTable (by decide) hmeasure hcodes, hcountable⟩
  · exact fun hmem => ((hall "y").1 hmem).1.noCodes holdsCodes_codedTable
  · have hcodes : ¬Scaling.HoldsCodes (codedTable.cellsOf "z") :=
      fun hcodes => absurd hcodes.few (by decide +kernel)
    exact (hall "z").2 ⟨selected_codedTable (by decide) hcount hcodes, countable_codedTable⟩

/-! ## Numbers beyond the words -/

/-- A table of eleven whole numbers that are values of doubles, beyond the greatest signed word of 64 bits. -/
def elevenTable : Table :=
  ⟨["x"], (List.range 11).map fun i => [.nat (10 ^ 19 + 5 * 10 ^ 17 * i)]⟩

/-- The column of that table is to be scaled, but its numbers count as one, and it is left alone. -/
theorem large_numbers_count_as_one :
    Scaling.Selected { dataset := some elevenTable } elevenTable [] "x" ∧
      ∃ w', ((Instruction.scale .minMax [] []).handler.execute (.native {} "")).runWith
          ⟨{ dataset := some elevenTable }, Files.empty⟩ = (.ok (Scaling.minMax.report []), w') ∧
        w'.context.dataset = some elevenTable := by
  have hnodup : elevenTable.columns.Nodup := by decide
  have htargets : Scaling.targets { dataset := some elevenTable } elevenTable [] [] = [] := by decide +kernel
  constructor
  · refine ⟨by decide, List.cons_ne_nil _ _, by decide +kernel, List.not_mem_nil, rfl, by simp, fun hcodes => ?_⟩
    exact absurd hcodes.few (by decide +kernel)
  · obtain ⟨message, w', hrun⟩ := exists_default_scaling (.native {} "") .minMax []
      ⟨{ dataset := some elevenTable }, Files.empty⟩ rfl rfl hnodup (by simp)
    obtain ⟨t, scaled, hdata, -, hscaled, hcontext⟩ := scaled_of_execute hrun
    obtain rfl : elevenTable = t := Option.some.inj hdata
    rw [htargets] at hscaled
    obtain rfl : elevenTable = scaled := Except.ok.inj hscaled
    have hreport : message = Scaling.minMax.report [] := by
      rw [Instruction.runWith_execute] at hrun
      obtain ⟨t, hdata, hmessage⟩ := Scaling.message_of_run hrun
      obtain rfl : elevenTable = t := Option.some.inj hdata
      rw [hmessage, htargets]
    exact ⟨w', hreport ▸ hrun, congrArg Context.dataset hcontext⟩

end TableFlow
