import TableFlow.Proofs.Guarded.Reports

/-!
# Reports balance

A report counts rows in three ways: by their predicted class, by both classes, and those of no known class.  Rows of no
known class are in the first and the last of these counts and not in the second.  The sums of the matrix of both classes
account for the difference, so that every figure of the report is a quotient of counts of rows, and none depends on the
order of the rows.

Main results:

- Theorem `total_countP`: rows counted by a class that they have are counted once each.
- Definition `Report.Balances`: the sums of the counts, and the figures that are made of them.
- Theorem `balances_compute`: reports balance.
- Theorem `ofOutcomes_perm`: the order of the rows makes no difference.
- Theorem `evaluate_perm`: so it makes none to the metrics of a model.
- Theorem `reports_balance`: counting row by row gives a report that balances, in whatever order the rows are.
-/

namespace TableFlow

/-! ## Sums of counts -/

/-- Of the first numbers one is the given one, if it is among them. -/
theorem total_range_eq (x k : Nat) :
    total ((List.range k).map fun i => if x = i then 1 else 0) = if x < k then 1 else 0 := by
  induction k with
  | zero => rfl
  | succ k ih =>
      rw [List.range_succ, List.map_append, total_append, ih, List.map_singleton, total_cons, total_nil]
      split <;> split <;> split <;> omega

@[simp] theorem total_map_zero {α : Type} (items : List α) : total (items.map fun _ => 0) = 0 := by
  induction items with
  | nil => rfl
  | cons a items ih => rw [List.map_cons, total_cons, ih]

/-- Items that are counted by a number that they have are counted once each, if they have one below the bound. -/
theorem total_countP {α : Type} (number : α → Option Nat) (test : α → Bool) (k : Nat) (items : List α) :
    total ((List.range k).map fun i => items.countP fun a => number a == some i && test a) =
      items.countP fun a => (number a).any (· < k) && test a := by
  induction items with
  | nil => exact total_map_zero _
  | cons a items ih =>
      -- One item adds one to one of the counts, or to none.
      have hfirst : total ((List.range k).map fun i => if (number a == some i && test a) = true then 1 else 0) =
          if ((number a).any (· < k) && test a) = true then 1 else 0 := by
        cases test a with
        | false => simpa using total_map_zero (List.range k)
        | true =>
            cases number a with
            | none => simpa using total_map_zero (List.range k)
            | some x => simpa using total_range_eq x k
      rw [List.countP_cons, ← ih, ← hfirst]
      exact (total_map_add fun i _ => List.countP_cons.symm).symm

namespace Learn
namespace Report

open Guarded (Within)

variable {outcomes : List Outcome} {k : Nat}

/-! ## The matrix -/

/-- How many rows of known class were predicted as a class. -/
def columnTotal (confusion : List (List Nat)) (j : Nat) : Nat :=
  total (confusion.map fun row => row.getD j 0)

/-- A class that is known has its place. -/
theorem any_truth_lt {o : Outcome} (h : Within k o) : o.1.any (· < k) = o.1.isSome := by
  cases htruth : o.1 with
  | none => rfl
  | some i => simp [h.truth_lt i htruth]

theorem getD_matrix {i : Nat} (hi : i < k) :
    (matrix outcomes k).getD i [] = (List.range k).map fun j => confused outcomes i j := by
  simp [matrix, hi]

theorem hits_matrix {i : Nat} (hi : i < k) : hits (matrix outcomes k) i = confused outcomes i i := by
  simp [hits, matrix, hi]

/-- There is a count for each pair of classes. -/
theorem shape_matrix (outcomes : List Outcome) (k : Nat) :
    (matrix outcomes k).length = k ∧ ∀ row ∈ matrix outcomes k, row.length = k := by
  constructor
  · simp [matrix]
  · intro row hrow
    obtain ⟨i, _, rfl⟩ := List.mem_map.1 hrow
    rw [List.length_map, List.length_range]

theorem entry_matrix {i j : Nat} (hi : i < k) (hj : j < k) :
    ((matrix outcomes k).getD i []).getD j 0 = outcomes.count (some i, j) := by
  rw [getD_matrix hi, List.count_eq_countP]
  simp only [List.getD_eq_getElem?_getD, List.getElem?_map, List.getElem?_range hj, Option.map_some, Option.getD_some]
  rfl

/-- The rows of a class are counted in its row of the matrix. -/
theorem supportOf_matrix (h : ∀ o ∈ outcomes, Within k o) {i : Nat} (hi : i < k) :
    supportOf (matrix outcomes k) i = outcomes.countP fun o => o.1 == some i := by
  have hrow := total_countP (fun o : Outcome => some o.2) (fun o => o.1 == some i) k outcomes
  rw [supportOf, getD_matrix hi]
  simp only [confused, Bool.and_comm]
  refine hrow.trans (List.countP_congr fun o ho => ?_)
  simp [(h o ho).predicted_lt]

/-- The rows that were predicted as a class are counted in its column if their class is known. -/
theorem columnTotal_matrix (h : ∀ o ∈ outcomes, Within k o) {j : Nat} (hj : j < k) :
    columnTotal (matrix outcomes k) j = outcomes.countP fun o => o.1.isSome && o.2 == j := by
  have hcolumn := total_countP (fun o : Outcome => o.1) (fun o => o.2 == j) k outcomes
  have hentry : ∀ i, ((List.range k).map fun j => confused outcomes i j).getD j 0 = confused outcomes i j := by
    intro i
    simp [hj]
  rw [columnTotal, matrix, List.map_map]
  simp only [Function.comp_def, hentry]
  refine hcolumn.trans (List.countP_congr fun o ho => ?_)
  rw [any_truth_lt (h o ho)]

/-- All rows whose class is known are counted in the matrix. -/
theorem total_matrix (h : ∀ o ∈ outcomes, Within k o) :
    total ((matrix outcomes k).map total) = outcomes.countP fun o => o.1.isSome := by
  have hrows : (matrix outcomes k).map total =
      (List.range k).map fun i => outcomes.countP fun o => o.1 == some i && true := by
    rw [matrix, List.map_map]
    refine List.map_congr_left fun i hi => ?_
    rw [Function.comp_apply, ← getD_matrix (List.mem_range.1 hi), ← supportOf,
      supportOf_matrix h (List.mem_range.1 hi)]
    simp only [Bool.and_true]
  rw [hrows, total_countP]
  refine List.countP_congr fun o ho => ?_
  rw [any_truth_lt (h o ho), Bool.and_true]

/-- The rows that were predicted as their class are counted on the diagonal. -/
theorem total_hits_matrix (h : ∀ o ∈ outcomes, Within k o) :
    total ((List.range k).map (hits (matrix outcomes k))) = outcomes.countP fun o => o.1 == some o.2 := by
  -- A row on the diagonal is counted by its predicted class alone.
  have hdiagonal : (List.range k).map (hits (matrix outcomes k)) =
      (List.range k).map fun i => outcomes.countP fun o => some o.2 == some i && o.1 == some o.2 := by
    refine List.map_congr_left fun i hi => ?_
    rw [hits_matrix (List.mem_range.1 hi), confused]
    refine List.countP_congr fun o _ => ?_
    by_cases hclass : o.2 = i
    · simp [hclass]
    · simp [hclass]
  rw [hdiagonal, total_countP (fun o : Outcome => some o.2)]
  refine List.countP_congr fun o ho => ?_
  simp [(h o ho).predicted_lt]

/-! ## Balanced reports -/

/-- The classes that occur: some row is of them or was predicted as them. -/
def occurring (truth : List (Option Nat)) (predicted : List Nat) (k : Nat) : List Nat :=
  (List.range k).filter fun i => 0 < truth.count (some i) || 0 < predicted.count i

/-- The figures of some classes divided by the number of these classes. -/
def meanOver (classes : List Nat) (figure : Nat → Float) : Float :=
  (classes.map figure).foldl (· + ·) 0.0 / count classes.length

/-- The report of these rows balances, with these figures of the classes: the sums of the matrix are counts of rows, up
to the rows of no known class, and each figure is a quotient of such counts. -/
structure Balances (r : Report) (truth : List (Option Nat)) (predicted : List Nat) (labels : List String)
    (stats : Nat → ClassStats) : Prop where
  samples_eq : r.samples = truth.length
  unseen_eq : r.unseen = truth.count none
  shape : r.confusion.length = labels.length ∧ ∀ row ∈ r.confusion, row.length = labels.length
  entry_eq : ∀ i < labels.length, ∀ j < labels.length,
    (r.confusion.getD i []).getD j 0 = (truth.zip predicted).count (some i, j)
  total_eq : r.samples = total (r.confusion.map total) + r.unseen
  row_eq : ∀ i < labels.length, total (r.confusion.getD i []) = (stats i).support ∧
    (stats i).support = truth.count (some i)
  column_eq : ∀ j < labels.length,
    columnTotal r.confusion j + (truth.zip predicted).count (none, j) = predicted.count j
  precision_eq : ∀ j < labels.length, (stats j).precision = ratio (hits r.confusion j) (predicted.count j)
  sensitivity_eq : ∀ i < labels.length, (stats i).sensitivity = ratio (hits r.confusion i) (stats i).support
  f1_eq : ∀ i < labels.length, (stats i).f1 = harmonic (stats i).precision (stats i).sensitivity
  accuracy_eq : r.accuracy =
    count (total ((List.range labels.length).map (hits r.confusion))) / count r.samples
  classes_perm : r.classes.entries.Perm (labels.zipIdx.map fun place => (place.1, stats place.2))
  occurring_pos : 0 < (occurring truth predicted labels.length).length
  precisionMacro_eq : r.precisionMacro =
    meanOver (occurring truth predicted labels.length) fun i => (stats i).precision
  recallMacro_eq : r.recallMacro =
    meanOver (occurring truth predicted labels.length) fun i => (stats i).sensitivity
  f1Macro_eq : r.f1Macro = meanOver (occurring truth predicted labels.length) fun i => (stats i).f1

/-! ## Counts of rows -/

variable {truth : List (Option Nat)} {predicted : List Nat} {labels : List String}

theorem countP_fst_zip (hlength : truth.length = predicted.length) (p : Option Nat → Bool) :
    (truth.zip predicted).countP (fun o => p o.1) = truth.countP p := by
  have htruth := List.map_fst_zip (Nat.le_of_eq hlength)
  conv => rhs; rw [← htruth, List.countP_map]
  rfl

theorem countP_snd_zip (hlength : truth.length = predicted.length) (p : Nat → Bool) :
    (truth.zip predicted).countP (fun o => p o.2) = predicted.countP p := by
  have hpredicted := List.map_snd_zip (Nat.le_of_eq hlength.symm)
  conv => rhs; rw [← hpredicted, List.countP_map]
  rfl

theorem within_of_mem_zip (htruth : ∀ i, some i ∈ truth → i < k) (hpredicted : ∀ j ∈ predicted, j < k) :
    ∀ o ∈ truth.zip predicted, Within k o := by
  rintro ⟨found, j⟩ ho
  obtain ⟨hfound, hj⟩ := List.of_mem_zip ho
  refine ⟨hpredicted j hj, ?_⟩
  rintro i rfl
  exact htruth i hfound

/-- A class is counted where a row is predicted, so that some class occurs. -/
theorem occurring_pos (hlength : truth.length = predicted.length) (hsome : truth ≠ [])
    (hpredicted : ∀ j ∈ predicted, j < k) : 0 < (occurring truth predicted k).length := by
  have hpos : 0 < predicted.length := by
    rw [← hlength]
    exact List.length_pos_iff.2 hsome
  obtain ⟨j, hj⟩ := List.exists_mem_of_length_pos hpos
  have hcount : 0 < predicted.count j := List.count_pos_iff.2 hj
  refine List.length_pos_of_mem (a := j) (List.mem_filter.2 ⟨List.mem_range.2 (hpredicted j hj), ?_⟩)
  simp [hcount]

/-- The figures of each class stand under its label. -/
theorem classes_perm (hlabels : labels.Nodup) (stats : Nat → ClassStats) :
    (KeyMap.ofList (labels.zip (((List.range labels.length).map fun i => (i, stats i)).map Prod.snd))).entries.Perm
      (labels.zipIdx.map fun place => (place.1, stats place.2)) := by
  have hpairs : labels.zip (((List.range labels.length).map fun i => (i, stats i)).map Prod.snd) =
      labels.zipIdx.map fun place => (place.1, stats place.2) := by
    rw [List.map_map, List.zip_map_right, List.zipIdx_eq_zip_range', ← List.range_eq_range']
    rfl
  rw [hpairs]
  apply KeyMap.entries_ofList_perm
  rw [List.map_map]
  exact (List.zipIdx_map_fst 0 labels).symm ▸ hlabels

/-- The mean over classes that occur divides by their number. -/
theorem macroMean_map {classes : List Nat} (h : 0 < classes.length) (figure : Nat → Float) :
    macroMean (classes.map figure) = meanOver classes figure := by
  have hsome : ¬(classes.map figure).isEmpty = true := by
    rw [List.isEmpty_iff_length_eq_zero, List.length_map]
    omega
  rw [macroMean, if_neg hsome, List.length_map, meanOver]

/-- The figures of a class in the report of some rows. -/
abbrev statsOf (truth : List (Option Nat)) (predicted : List Nat) (k i : Nat) : ClassStats :=
  classStats (truth.zip predicted) (matrix (truth.zip predicted) k) i

theorem support_statsOf (hlength : truth.length = predicted.length)
    (hwithin : ∀ o ∈ truth.zip predicted, Within k o) {i : Nat} (hi : i < k) :
    (statsOf truth predicted k i).support = truth.count (some i) :=
  (supportOf_matrix hwithin hi).trans (countP_fst_zip hlength (· == some i))

theorem predictedCount_zip (hlength : truth.length = predicted.length) (j : Nat) :
    predictedCount (truth.zip predicted) j = predicted.count j :=
  countP_snd_zip hlength (· == j)

/-- The report takes its means over the classes that occur. -/
theorem filter_statsOf (hlength : truth.length = predicted.length)
    (hwithin : ∀ o ∈ truth.zip predicted, Within k o) :
    (((List.range k).map fun i => (i, statsOf truth predicted k i)).filter fun (i, c) =>
        0 < c.support || 0 < predictedCount (truth.zip predicted) i).map Prod.snd =
      (occurring truth predicted k).map (statsOf truth predicted k) := by
  rw [List.filter_map, List.map_map, occurring]
  have hfilter : (List.range k).filter ((fun (i, c) => decide (0 < ClassStats.support c) ||
        decide (0 < predictedCount (truth.zip predicted) i)) ∘ fun i => (i, statsOf truth predicted k i)) =
      (List.range k).filter fun i => 0 < truth.count (some i) || 0 < predicted.count i := by
    refine List.filter_congr fun i hi => ?_
    simp only [Function.comp_apply, support_statsOf hlength hwithin (List.mem_range.1 hi),
      predictedCount_zip hlength]
  rw [hfilter]
  rfl

/-- Each row that was predicted as a class is in its column or has no known class. -/
theorem columnTotal_add_count (hlength : truth.length = predicted.length)
    (hwithin : ∀ o ∈ truth.zip predicted, Within k o) {j : Nat} (hj : j < k) :
    columnTotal (matrix (truth.zip predicted) k) j + (truth.zip predicted).count (none, j) = predicted.count j := by
  have hunseen : (truth.zip predicted).count (none, j) =
      ((truth.zip predicted).filter fun o => o.2 == j).countP fun o => ¬o.1.isSome := by
    rw [List.count_eq_countP, List.countP_filter]
    apply List.countP_congr
    rintro ⟨found, class'⟩ _
    cases found <;> simp
  rw [columnTotal_matrix hwithin hj, ← List.countP_filter, hunseen, ← List.length_eq_countP_add_countP,
    ← List.countP_eq_length_filter]
  exact predictedCount_zip hlength j

/-- Each row is counted in the matrix or has no known class. -/
theorem total_matrix_add_countP (hlength : truth.length = predicted.length)
    (hwithin : ∀ o ∈ truth.zip predicted, Within k o) :
    total ((matrix (truth.zip predicted) k).map total) + (truth.zip predicted).countP (fun o => o.1.isNone) =
      truth.length := by
  have hunseen : (truth.zip predicted).countP (fun o => o.1.isNone) =
      (truth.zip predicted).countP fun o => ¬o.1.isSome := by
    refine List.countP_congr fun o _ => ?_
    simp
  rw [total_matrix hwithin, hunseen, ← List.length_eq_countP_add_countP, List.length_zip, ← hlength, Nat.min_self]

theorem countP_isNone_zip (hlength : truth.length = predicted.length) :
    (truth.zip predicted).countP (fun o => o.1.isNone) = truth.count none := by
  rw [countP_fst_zip hlength Option.isNone, List.count_eq_countP]
  refine List.countP_congr fun found _ => ?_
  simp

/-- Reports balance. -/
theorem balances_compute (hlabels : labels.Nodup) (hsome : truth ≠ []) (hlength : truth.length = predicted.length)
    (htruth : ∀ i, some i ∈ truth → i < labels.length) (hpredicted : ∀ j ∈ predicted, j < labels.length) :
    (compute truth predicted labels).Balances truth predicted labels (statsOf truth predicted labels.length) := by
  have hwithin := within_of_mem_zip htruth hpredicted
  have hrows : truth.length ≠ 0 := List.length_eq_zero_iff.not.2 hsome
  have hoccurring := occurring_pos hlength hsome hpredicted
  -- The three means differ in the figure that they take, and in nothing else.
  have hmean : ∀ figure : ClassStats → Float, macroMean (((((List.range labels.length).map fun i =>
      (i, statsOf truth predicted labels.length i)).filter fun (i, c) =>
        0 < c.support || 0 < predictedCount (truth.zip predicted) i).map Prod.snd).map figure) =
      meanOver (occurring truth predicted labels.length) fun i => figure (statsOf truth predicted labels.length i) := by
    intro figure
    rw [filter_statsOf hlength hwithin, List.map_map]
    exact macroMean_map hoccurring _
  rw [compute, ofOutcomes, if_neg hrows]
  exact {
    samples_eq := rfl
    unseen_eq := countP_isNone_zip hlength
    shape := shape_matrix ..
    entry_eq := fun _ hi _ hj => entry_matrix hi hj
    total_eq := (total_matrix_add_countP hlength hwithin).symm
    row_eq := fun i hi => ⟨rfl, support_statsOf hlength hwithin hi⟩
    column_eq := fun j hj => columnTotal_add_count hlength hwithin hj
    precision_eq := fun j _ => congrArg (ratio _) (predictedCount_zip hlength j)
    sensitivity_eq := fun _ _ => rfl
    f1_eq := fun _ _ => rfl
    accuracy_eq := congrArg (fun correct => count correct / count truth.length) (total_hits_matrix hwithin).symm
    classes_perm := classes_perm hlabels _
    occurring_pos := hoccurring
    precisionMacro_eq := hmean ClassStats.precision
    recallMacro_eq := hmean ClassStats.sensitivity
    f1Macro_eq := hmean ClassStats.f1 }

/-! ## Orders of rows -/

/-- The report depends on how many rows there are of each sort, and not on their order. -/
theorem ofOutcomes_perm {others : List Outcome} (h : outcomes.Perm others) (samples : Nat) (labels : List String) :
    ofOutcomes samples outcomes labels = ofOutcomes samples others labels := by
  have hconfused : confused outcomes = confused others := by
    funext i j
    exact h.countP_eq _
  have hpredicted : predictedCount outcomes = predictedCount others := by
    funext j
    exact h.countP_eq _
  simp only [ofOutcomes, matrix, classStats, hconfused, hpredicted, h.countP_eq]

theorem compute_perm {truth' : List (Option Nat)} {predicted' : List Nat} (hlength : truth.length = predicted.length)
    (hlength' : truth'.length = predicted'.length) (h : (truth'.zip predicted').Perm (truth.zip predicted))
    (labels : List String) : compute truth' predicted' labels = compute truth predicted labels := by
  have hrows := h.length_eq
  rw [List.length_zip, List.length_zip, ← hlength, ← hlength', Nat.min_self, Nat.min_self] at hrows
  rw [compute, compute, hrows]
  exact ofOutcomes_perm h _ labels

/-- Rows that are predicted one by one may be in another order. -/
theorem compute_rows_perm {α β : Type} {rows others : List α} {matrix matrix' : List β} (truth : α → Option Nat)
    (predict : β → Nat) (hlength : rows.length = matrix.length) (hlength' : others.length = matrix'.length)
    (h : (others.zip matrix').Perm (rows.zip matrix)) (labels : List String) :
    compute (others.map truth) (matrix'.map predict) labels = compute (rows.map truth) (matrix.map predict) labels := by
  apply compute_perm
  · rw [List.length_map, List.length_map, hlength]
  · rw [List.length_map, List.length_map, hlength']
  · rw [List.zip_map, List.zip_map]
    exact h.map _

end Report

/-- The number of a row is told by errors only. -/
theorem featureValue_eq_ok {name : String} {number : Nat} {cell : Cell} {x : Float}
    (h : featureValue name number cell = .ok x) (other : Nat) : featureValue name other cell = .ok x := by
  cases cell with
  | number n => exact h
  | bool b => exact h
  | _ => cases h

theorem rowFeatures_eq_ok {columns : List (String × Nat)} {number : Nat} {row : List Cell} {features : Features}
    (h : rowFeatures columns number row = .ok features) (other : Nat) :
    rowFeatures columns other row = .ok features := by
  obtain ⟨values, hvalues, hpure⟩ := bind_eq_ok.1 h
  exact bind_eq_ok.2 ⟨values, mapM_eq_ok_of_forall (fun _ _ hvalue => featureValue_eq_ok hvalue other) hvalues, hpure⟩

/-- The features of the rows of a table, if all of them have some, are those of one row after another. -/
theorem featureMatrix_eq_ok_iff {t : Table} {columns : List String} {matrix : List Features} :
    featureMatrix t columns = .ok matrix ↔ ∃ places, columns.mapM t.requireColumn = .ok places ∧
      t.rows.map (fun row => (rowFeatures (columns.zip places) 0 row).toOption) = matrix.map some := by
  refine bind_eq_ok.trans (exists_congr fun places => and_congr_right fun _ => mapM_zipIdx_eq_ok_iff ?_)
  intro row i features
  constructor
  · intro h
    rw [rowFeatures_eq_ok h 0, Except.toOption]
  · intro h
    cases hrow : rowFeatures (columns.zip places) 0 row with
    | error e =>
        rw [hrow] at h
        cases h
    | ok found =>
        rw [hrow] at h
        cases h
        exact rowFeatures_eq_ok hrow (i + 1)

/-- Where all items have a result, the same items in another order have the same results beside them. -/
theorem exists_results_of_perm {α β : Type} {g : α → Option β} {items others : List α} {results : List β}
    (hperm : others.Perm items) (h : items.map g = results.map some) :
    ∃ results', others.map g = results'.map some ∧ (others.zip results').Perm (items.zip results) := by
  induction hperm generalizing results with
  | nil => exact ⟨results, h, .refl _⟩
  | cons a _ ih =>
      obtain ⟨b, rest, rfl, hb, hrest⟩ := List.map_eq_cons_iff.1 h.symm
      obtain ⟨rest', hrest', hsame⟩ := ih hrest.symm
      refine ⟨b :: rest', ?_, hsame.cons (a, b)⟩
      rw [List.map_cons, List.map_cons, hb, hrest']
  | swap a a' items =>
      obtain ⟨b, rest, rfl, hb, h⟩ := List.map_eq_cons_iff.1 h.symm
      obtain ⟨b', rest, rfl, hb', hrest⟩ := List.map_eq_cons_iff.1 h
      refine ⟨b' :: b :: rest, ?_, .swap _ _ _⟩
      rw [List.map_cons, List.map_cons, List.map_cons, List.map_cons, hb, hb', hrest]
  | trans _ _ ih ih' =>
      obtain ⟨between, hbetween, hsame⟩ := ih' h
      obtain ⟨results', hresults', hsame'⟩ := ih hbetween
      exact ⟨results', hresults', hsame'.trans hsame⟩

/-- The metrics of a model do not depend on the order of the rows. -/
theorem evaluate_perm {m : Model} {test : Table} {rows : List (List Cell)} {metrics : Metrics}
    (hperm : rows.Perm test.rows) (h : evaluate m test = .ok metrics) :
    evaluate m { test with rows } = .ok metrics := by
  unfold evaluate at h ⊢
  by_cases hempty : test.rows.isEmpty = true
  · rw [if_pos hempty] at h
    cases h
  · have hrows : ¬rows.isEmpty = true := by
      rw [List.isEmpty_iff_length_eq_zero, hperm.length_eq, ← List.isEmpty_iff_length_eq_zero]
      exact hempty
    rw [if_neg hempty] at h
    rw [if_neg hrows]
    obtain ⟨features, hfeatures, h⟩ := bind_eq_ok.1 h
    obtain ⟨target, htarget, hpure⟩ := bind_eq_ok.1 h
    obtain ⟨places, hplaces, hresults⟩ := featureMatrix_eq_ok_iff.1 hfeatures
    obtain ⟨features', hresults', hpairs⟩ := exists_results_of_perm hperm hresults
    have hfeatures' : featureMatrix { test with rows } m.features = .ok features' :=
      featureMatrix_eq_ok_iff.2 ⟨places, hplaces, hresults'⟩
    refine bind_eq_ok.2 ⟨features', hfeatures', bind_eq_ok.2 ⟨target, htarget, ?_⟩⟩
    rw [← hpure]
    have hlength : test.rows.length = features.length := by simpa using congrArg List.length hresults
    have hlength' : rows.length = features'.length := by simpa using congrArg List.length hresults'
    have hreport := Report.compute_rows_perm (fun row => (Cell.key? (row.getD target .null)).bind m.classIndex?) m.predict
      hlength hlength' hpairs m.classes
    simp only [Table.column, List.map_map]
    exact congrArg (fun r => Except.ok r.toMetrics) hreport

/-- Counting row by row gives a report that balances.  It is the same for the rows in any other order, and so are the
metrics of a model. -/
theorem reports_balance {truth : List (Option Nat)} {predicted : List Nat} {labels : List String}
    (hlabels : labels.Nodup) (hsome : truth ≠ []) (hlength : truth.length = predicted.length)
    (htruth : ∀ i, some i ∈ truth → i < labels.length) (hpredicted : ∀ j ∈ predicted, j < labels.length) :
    Guarded.compute truth predicted labels = .ok (Report.compute truth predicted labels) ∧
      (∃ stats, (Report.compute truth predicted labels).Balances truth predicted labels stats) ∧
      (∀ truth' predicted', truth'.length = predicted'.length → (truth'.zip predicted').Perm (truth.zip predicted) →
        Report.compute truth' predicted' labels = Report.compute truth predicted labels) ∧
      ∀ (m : Model) (test : Table) (rows : List (List Cell)) (metrics : Metrics), rows.Perm test.rows →
        evaluate m test = .ok metrics → evaluate m { test with rows } = .ok metrics := by
  refine ⟨?_, ⟨_, Report.balances_compute hlabels hsome hlength htruth hpredicted⟩, ?_, ?_⟩
  · exact Guarded.compute_eq (Report.within_of_mem_zip htruth hpredicted)
  · intro truth' predicted' hlength' hperm
    exact Report.compute_perm hlength hlength' hperm labels
  · intro m test rows metrics hperm h
    exact evaluate_perm hperm h

/-- Five rows, two of them of no known class, and four classes of which one does not occur. -/
theorem reports_balance_of_five_rows :
    ["a", "b", "c", "d"].Nodup ∧ ∃ stats, (Report.compute [some 0, none, some 1, some 1, none] [0, 1, 0, 1, 2]
        ["a", "b", "c", "d"]).Balances [some 0, none, some 1, some 1, none] [0, 1, 0, 1, 2] ["a", "b", "c", "d"] stats ∧
      Report.occurring [some 0, none, some 1, some 1, none] [0, 1, 0, 1, 2] 4 = [0, 1, 2] := by
  have hlabels : ["a", "b", "c", "d"].Nodup := by decide
  have htruth : ∀ i, some i ∈ [some 0, none, some 1, some 1, none] → i < 4 := by
    intro i hi
    simp only [List.mem_cons, Option.some.injEq, reduceCtorEq, List.not_mem_nil, or_false, false_or] at hi
    omega
  have hpredicted : ∀ j ∈ [0, 1, 0, 1, 2], j < 4 := by decide
  obtain ⟨_, ⟨stats, hbalances⟩, _⟩ :=
    reports_balance hlabels (List.cons_ne_nil (some 0) _) rfl htruth hpredicted
  exact ⟨hlabels, stats, hbalances, by decide⟩

end Learn
end TableFlow
