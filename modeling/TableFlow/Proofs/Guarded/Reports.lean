import TableFlow.Learn.Report
import TableFlow.Proofs.Guarded.Models

/-!
# Guarded reports

Predictions are scored with guarded accesses: every row is counted at its predicted class, and in the confusion matrix
at its true and its predicted class.  A model that fits predicts one of its classes, and the true classes are those
that it knows, so each place is there, and the counts are those of the report.

Main results:

- Theorem `countOutcomes_eq`: counting rows one by one gives the counts of the report.
- Theorem `compute_eq`: a report is computed without a breakdown.
- Theorem `evaluate_eq`: scoring a model that fits on a well-formed table breaks down nowhere, and its errors are the
  same.
-/

namespace TableFlow
namespace Guarded

open Learn
open Learn.Report (Outcome)

variable {k : Nat} {outcomes : List Outcome}

/-- How many rows were predicted as each class, and the confusion matrix. -/
structure Tallies where
  predicted : List Nat
  confusion : List (List Nat)

/-- Count a row. -/
def countOutcome (t : Tallies) (o : Outcome) : Guarded Tallies := do
  let predicted ← update t.predicted o.2 (· + 1)
  match o.1 with
  | none => pure { t with predicted }
  | some truth => do
    let row ← element t.confusion truth
    let counted ← update row o.2 (· + 1)
    let confusion ← update t.confusion truth fun _ => counted
    pure { predicted, confusion }

/-- Count rows of `k` classes. -/
def countOutcomes (k : Nat) (outcomes : List Outcome) : Guarded Tallies :=
  outcomes.foldlM countOutcome ⟨List.replicate k 0, List.replicate k (List.replicate k 0)⟩

/-- The quality of one class. -/
def classStats (t : Tallies) (i : Nat) : Guarded ClassStats := do
  let row ← element t.confusion i
  let hits ← element row i
  let predicted ← element t.predicted i
  let support := total row
  let precision := Report.ratio hits predicted
  let sensitivity := Report.ratio hits support
  pure ⟨precision, sensitivity, Report.harmonic precision sensitivity, support⟩

/-- A class occurs: some row is of it or was predicted as it. -/
def occurs (t : Tallies) (pair : Nat × ClassStats) : Guarded Bool := do
  let predicted ← element t.predicted pair.1
  pure (decide (0 < pair.2.support) || decide (0 < predicted))

/-- The report of true and predicted classes. -/
def compute (truth : List (Option Nat)) (predicted : List Nat) (labels : List String) : Guarded Report := do
  let samples := truth.length
  let outcomes := truth.zip predicted
  let tallies ← countOutcomes labels.length outcomes
  let confusion := tallies.confusion
  if samples = 0 then pure { samples, confusion, labels }
  else do
    let stats ← (List.range labels.length).mapM fun i => do
      let c ← classStats tallies i
      pure (i, c)
    let kept ← filter (occurs tallies) stats
    let occurring := kept.map Prod.snd
    let correct := outcomes.countP fun o => o.1 == some o.2
    pure {
      samples
      accuracy := count correct / count samples
      precisionMacro := Report.macroMean (occurring.map ClassStats.precision)
      recallMacro := Report.macroMean (occurring.map ClassStats.sensitivity)
      f1Macro := Report.macroMean (occurring.map ClassStats.f1)
      classes := KeyMap.ofList (labels.zip (stats.map Prod.snd))
      confusion
      labels
      unseen := outcomes.countP fun o => o.1.isNone }

/-- Score a model on rows it was not trained on. -/
def evaluate (m : Model) (test : Table) : Guarded Metrics := do
  if test.rows.isEmpty then
    lift (throw (.precondition "held-out split"
      "the test split has no rows; use a split ratio that leaves rows for evaluation"))
  else do
    let features ← featureMatrix test m.features
    let target ← lift (test.requireColumn m.target)
    let cells ← column test target
    let truth := cells.map fun cell => (Cell.key? cell).bind m.classIndex?
    let predicted ← features.mapM fun row => predictClass row m.classifier
    let report ← compute truth predicted m.classes
    pure report.toMetrics

/-! ## Counting rows -/

/-- There is one count for each of `k` classes, and for each pair of them. -/
structure Tallies.Fits (k : Nat) (t : Tallies) : Prop where
  length_predicted : t.predicted.length = k
  length_confusion : t.confusion.length = k
  length_row : ∀ row ∈ t.confusion, row.length = k

/-- The predicted class of a row is one of `k`, and so is its true class if it is known. -/
structure Within (k : Nat) (o : Outcome) : Prop where
  predicted_lt : o.2 < k
  truth_lt : ∀ truth, o.1 = some truth → truth < k

/-- The counts with one more row counted. -/
def Tallies.counted (t : Tallies) (o : Outcome) : Tallies where
  predicted := t.predicted.modify o.2 (· + 1)
  confusion :=
    match o.1 with
    | none => t.confusion
    | some truth => t.confusion.modify truth fun row => row.modify o.2 (· + 1)

/-- Counting a row asks for counts that are there, and keeps their number. -/
theorem countOutcome_eq {t : Tallies} (ht : t.Fits k) {o : Outcome} (ho : Within k o) :
    countOutcome t o = .ok (t.counted o) ∧ (t.counted o).Fits k := by
  obtain ⟨truth, predicted⟩ := o
  have hpredicted : predicted < t.predicted.length := by
    rw [ht.length_predicted]
    exact ho.predicted_lt
  have hlength : (t.predicted.modify predicted (· + 1)).length = k :=
    (List.length_modify ..).trans ht.length_predicted
  cases truth with
  | none =>
      constructor
      · exact bind_ok (update_eq hpredicted _) _
      · exact ⟨hlength, ht.length_confusion, ht.length_row⟩
  | some truth =>
      have htruth : truth < t.confusion.length := by
        rw [ht.length_confusion]
        exact ho.truth_lt truth rfl
      have hrow : predicted < t.confusion[truth].length := by
        rw [ht.length_row _ (List.getElem_mem htruth)]
        exact ho.predicted_lt
      constructor
      · rw [countOutcome, bind_ok (update_eq hpredicted _)]
        simp only [bind_ok (element_eq htruth), bind_ok (update_eq hrow _), bind_ok (update_eq htruth _),
          modify_const htruth fun row => row.modify predicted (· + 1)]
        rfl
      · refine ⟨hlength, (List.length_modify ..).trans ht.length_confusion, ?_⟩
        intro row hmem
        obtain ⟨i, hi, rfl⟩ := List.mem_iff_getElem.1 hmem
        simp only [Tallies.counted, List.getElem_modify]
        split
        · rw [List.length_modify]
          exact ht.length_row _ (List.getElem_mem _)
        · exact ht.length_row _ (List.getElem_mem _)

/-- The rows whose true class is known, with both classes. -/
def known (outcomes : List Outcome) : List (Nat × Nat) :=
  outcomes.filterMap fun o => o.1.map fun truth => (truth, o.2)

/-- Counting all rows counts their predicted classes, and both classes of those whose true class is known. -/
theorem foldl_counted (t : Tallies) (outcomes : List Outcome) :
    outcomes.foldl Tallies.counted t =
      ⟨outcomes.foldl (fun counts o => counts.modify o.2 (· + 1)) t.predicted,
        (known outcomes).foldl (fun rows pair => rows.modify pair.1 fun row => row.modify pair.2 (· + 1))
          t.confusion⟩ := by
  induction outcomes generalizing t with
  | nil => rfl
  | cons o outcomes ih =>
      obtain ⟨truth, predicted⟩ := o
      rw [List.foldl_cons, ih]
      cases truth <;> rfl

/-- The rows of a pair of classes are those that the report counts. -/
theorem length_filter_known (outcomes : List Outcome) (truth predicted : Nat) :
    (((known outcomes).filter fun pair => pair.1 == truth).filter fun pair => pair.2 == predicted).length =
      Report.confused outcomes truth predicted := by
  induction outcomes with
  | nil => rfl
  | cons o outcomes ih =>
      obtain ⟨found, class'⟩ := o
      rw [Report.confused, List.countP_cons, ← Report.confused, ← ih]
      cases found with
      | none => rfl
      | some found =>
          by_cases htruth : found = truth
          · by_cases hclass : class' = predicted
            · simp [known, htruth, hclass]
            · simp [known, htruth, hclass]
          · simp [known, htruth]

/-- Counting predicted classes counts the rows of each. -/
theorem foldl_predicted (k : Nat) (outcomes : List Outcome) :
    outcomes.foldl (fun counts o => counts.modify o.2 (· + 1)) (List.replicate k 0) =
      (List.range k).map fun i => Report.predictedCount outcomes i := by
  rw [foldl_modify_replicate (fun o : Outcome => o.2) fun n _ => n + 1]
  simp only [foldl_succ, Nat.zero_add, Report.predictedCount, List.countP_eq_length_filter]

/-- Counting pairs of classes counts the rows of each. -/
theorem foldl_known (k : Nat) (outcomes : List Outcome) :
    (known outcomes).foldl (fun rows pair => rows.modify pair.1 fun row => row.modify pair.2 (· + 1))
        (List.replicate k (List.replicate k 0)) = Report.matrix outcomes k := by
  rw [foldl_modify_replicate (fun pair : Nat × Nat => pair.1)
    fun (row : List Nat) pair => row.modify pair.2 (· + 1)]
  simp only [foldl_modify_replicate (fun pair : Nat × Nat => pair.2) fun n _ => n + 1, foldl_succ,
    Nat.zero_add, length_filter_known, Report.matrix]

/-- Counting rows one by one gives the counts of the report. -/
theorem countOutcomes_eq (h : ∀ o ∈ outcomes, Within k o) :
    countOutcomes k outcomes =
      .ok ⟨(List.range k).map fun i => Report.predictedCount outcomes i, Report.matrix outcomes k⟩ := by
  have hstart : Tallies.Fits k ⟨List.replicate k 0, List.replicate k (List.replicate k 0)⟩ := by
    refine ⟨List.length_replicate .., List.length_replicate .., ?_⟩
    intro row hrow
    rw [List.eq_of_mem_replicate hrow, List.length_replicate]
  have hfold := (foldlM_eq (P := Tallies.Fits k) (fun t o ho ht => countOutcome_eq ht (h o ho)) hstart).1
  rw [countOutcomes, hfold, foldl_counted, ← foldl_predicted, ← foldl_known]

/-! ## Reports -/

/-- The statistics of each class ask for counts that are there. -/
theorem classStats_eq {i : Nat} (hi : i < k) :
    classStats ⟨(List.range k).map fun i => Report.predictedCount outcomes i, Report.matrix outcomes k⟩ i =
      .ok (Report.classStats outcomes (Report.matrix outcomes k) i) := by
  have hrow : element (Report.matrix outcomes k) i =
      .ok ((List.range k).map fun j => Report.confused outcomes i j) := element_map_range hi _
  have hget : (Report.matrix outcomes k).getD i [] = (List.range k).map fun j => Report.confused outcomes i j := by
    simp [Report.matrix, hi]
  have hhits : ((List.range k).map fun j => Report.confused outcomes i j).getD i 0 =
      Report.confused outcomes i i := by
    simp [hi]
  rw [classStats, bind_ok hrow, bind_ok (element_map_range hi _), bind_ok (element_map_range hi _),
    Report.classStats, Report.hits, Report.supportOf, hget, hhits]
  rfl

/-- A report is computed without a breakdown where the classes of all rows are among the labels. -/
theorem compute_eq {truth : List (Option Nat)} {predicted : List Nat} {labels : List String}
    (h : ∀ o ∈ truth.zip predicted, Within labels.length o) :
    compute truth predicted labels = .ok (Report.compute truth predicted labels) := by
  have hstats : ∀ i ∈ List.range labels.length, (do
      let c ← classStats ⟨(List.range labels.length).map fun i => Report.predictedCount (truth.zip predicted) i,
        Report.matrix (truth.zip predicted) labels.length⟩ i
      pure (i, c) : Guarded (Nat × ClassStats)) = .ok (i, Report.classStats (truth.zip predicted)
        (Report.matrix (truth.zip predicted) labels.length) i) := by
    intro i hi
    exact bind_ok (classStats_eq (List.mem_range.1 hi)) _
  have hoccurs : ∀ pair ∈ (List.range labels.length).map fun i => (i, Report.classStats (truth.zip predicted)
        (Report.matrix (truth.zip predicted) labels.length) i),
      occurs ⟨(List.range labels.length).map fun i => Report.predictedCount (truth.zip predicted) i,
        Report.matrix (truth.zip predicted) labels.length⟩ pair =
        .ok (decide (0 < pair.2.support) || decide (0 < Report.predictedCount (truth.zip predicted) pair.1)) := by
    intro pair hpair
    obtain ⟨i, hi, rfl⟩ := List.mem_map.1 hpair
    exact bind_ok (element_map_range (List.mem_range.1 hi) _) _
  rw [compute, bind_ok (countOutcomes_eq h), Report.compute, Report.ofOutcomes]
  by_cases hnone : truth.length = 0
  · simp only [if_pos hnone]
    rfl
  · simp only [if_neg hnone]
    rw [bind_ok (mapM_eq hstats), bind_ok (filter_eq hoccurs)]
    rfl

/-- A class that a model knows has a place among its classes. -/
theorem classIndex?_lt {m : Model} {key : String} {i : Nat} (h : m.classIndex? key = some i) :
    i < m.classKeys.length :=
  (List.findIdx?_eq_some_iff_getElem.1 h).1

theorem predict_lt {m : Model} (hm : m.Fits) {row : Features} (hrow : row.size = m.features.length) :
    m.predict row < m.classKeys.length :=
  (predictClass_eq hm.classifier hm.classKeys_pos hrow).2

/-- Rows that fit are predicted one after another. -/
theorem mapM_predictClass {m : Model} (hm : m.Fits) {rows : List Features}
    (hrows : ∀ row ∈ rows, row.size = m.features.length) :
    rows.mapM (fun row => predictClass row m.classifier) = .ok (rows.map m.predict) := by
  apply mapM_eq
  intro row hrow
  exact (predictClass_eq hm.classifier hm.classKeys_pos (hrows row hrow)).1

/-- The true classes that a model knows and those that it predicts are among its classes. -/
theorem within_of_fits {m : Model} (hm : m.Fits) {rows : List Features}
    (hrows : ∀ row ∈ rows, row.size = m.features.length) (cells : List Cell) :
    ∀ o ∈ (cells.map fun cell => (Cell.key? cell).bind m.classIndex?).zip (rows.map m.predict),
      Within m.classes.length o := by
  rintro ⟨truth, predicted⟩ hmem
  obtain ⟨htruth, hpredicted⟩ := List.of_mem_zip hmem
  rw [hm.length_classes]
  constructor
  · obtain ⟨row, hrow, rfl⟩ := List.mem_map.1 hpredicted
    exact predict_lt hm (hrows row hrow)
  · rintro i rfl
    obtain ⟨cell, _, hcell⟩ := List.mem_map.1 htruth
    obtain ⟨key, _, hindex⟩ := Option.bind_eq_some_iff.1 hcell
    exact classIndex?_lt hindex

/-- Scoring a model that fits on a well-formed table breaks down nowhere. -/
theorem evaluate_eq {m : Model} (hm : m.Fits) {test : Table} (hwell : test.WellFormed) :
    evaluate m test = lift (Learn.evaluate m test) := by
  unfold evaluate Learn.evaluate
  by_cases hempty : test.rows.isEmpty = true
  · rw [if_pos hempty, if_pos hempty]
    rfl
  · rw [if_neg hempty, if_neg hempty, featureMatrix_eq hwell]
    refine bind_lift fun features hfeatures => bind_lift fun target htarget => ?_
    have hsize := (shape_of_featureMatrix hfeatures).2
    rw [bind_ok (column_eq hwell (Table.lt_of_requireColumn htarget)), bind_ok (mapM_predictClass hm hsize),
      bind_ok (compute_eq (within_of_fits hm hsize _))]
    rfl

end Guarded
end TableFlow
