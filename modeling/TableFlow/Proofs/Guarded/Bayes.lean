import TableFlow.Learn.Bayes
import TableFlow.Proofs.Guarded.Neighbours

/-!
# Guarded naive Bayes

The rows of the samples are summed at the places of their labels, and the sums of a class are those of its own rows.
So a pass over all samples gives each class what its rows alone tell, and asks for no class that is not there.

Main results:

- Theorem `sumByClass_eq`: summing the rows of all samples sums the rows of each class.
- Theorems `fitBayes_eq` and `predictBayes_eq`: the classes are described and compared without a breakdown.
-/

namespace TableFlow

namespace Learn

/-- The classes are as many as there are, and each has a mean and a variance for each feature. -/
structure Bayes.Fits (features classes : Nat) (b : Bayes) : Prop where
  length_classes : b.classes.length = classes
  length_means : ∀ m ∈ b.classes, m.means.length = features
  length_variances : ∀ m ∈ b.classes, m.variances.length = features

namespace Bayes

/-- The rows of the samples of a class. -/
def rowsOf (samples : List Sample) (k : Nat) : List (List Float) :=
  (samples.filter fun s => s.label == k).map fun s => s.features.toList

/-- The mean of the rows of a class. -/
def meanOf (features : Nat) (rows : List (List Float)) : List Float :=
  if rows.length = 0 then sumRows features rows else (sumRows features rows).map (· / count rows.length)

/-- The sum of the squares by which the rows of a class differ from a mean. -/
def spreadOf (features : Nat) (rows : List (List Float)) (mean : List Float) : List Float :=
  sumRows features (rows.map fun row => List.zipWith (fun v m => square (v - m)) row mean)

/-- A class is described by its mean and by how far its rows spread from it. -/
theorem classModel_eq (features total : Nat) (floor : Float) (rows : List (List Float)) :
    classModel features total floor rows =
      { logShare := if rows.length = 0 then -(1.0 / 0.0)
          else (count rows.length / count (max total 1)).log
        means := meanOf features rows
        variances := (spreadOf features rows (meanOf features rows)).map fun v =>
          v / count (max rows.length 1) + floor } := rfl

/-- The sum of rows has a number for each feature. -/
theorem length_sumRows {features : Nat} {rows : List (List Float)} (h : ∀ row ∈ rows, row.length = features) :
    (sumRows features rows).length = features := by
  have hfold : ∀ sums : List Float, sums.length = features →
      (rows.foldl (List.zipWith (· + ·)) sums).length = features := by
    induction rows with
    | nil => exact fun _ hsums => hsums
    | cons row rows ih =>
        intro sums hsums
        apply ih fun other hother => h other (List.mem_cons_of_mem _ hother)
        rw [List.length_zipWith, hsums, h row List.mem_cons_self, Nat.min_self]
  exact hfold _ (List.length_replicate ..)

theorem length_meanOf {features : Nat} {rows : List (List Float)} (h : ∀ row ∈ rows, row.length = features) :
    (meanOf features rows).length = features := by
  unfold meanOf
  split
  · exact length_sumRows h
  · rw [List.length_map]
    exact length_sumRows h

theorem length_spreadOf {features : Nat} {rows : List (List Float)} (h : ∀ row ∈ rows, row.length = features) :
    (spreadOf features rows (meanOf features rows)).length = features := by
  apply length_sumRows
  intro spread hspread
  obtain ⟨row, hrow, rfl⟩ := List.mem_map.1 hspread
  rw [List.length_zipWith, h row hrow, length_meanOf h, Nat.min_self]

theorem length_of_mem_rowsOf {features classes : Nat} {samples : List Sample}
    (hfit : ∀ s ∈ samples, s.Fits features classes) (k : Nat) : ∀ row ∈ rowsOf samples k, row.length = features := by
  intro row hrow
  obtain ⟨s, hs, rfl⟩ := List.mem_map.1 hrow
  rw [Array.length_toList]
  exact (hfit s (List.mem_filter.1 hs).1).size_eq

end Bayes

end Learn

namespace Guarded

open Learn

variable {features classes : Nat} {samples : List Sample}

/-! ## Sums by class -/

/-- Add a row to the sums of a class. -/
def addRowAt (features : Nat) (sums : List (List Float)) (label : Nat) (row : List Float) :
    Guarded (List (List Float)) := do
  let old ← element sums label
  let new ← zipPlaces features (· + ·) old row
  update sums label fun _ => new

/-- The sums of the rows of each class. -/
def sumByClass (features classes : Nat) (rowOf : Sample → Guarded (List Float)) (samples : List Sample) :
    Guarded (List (List Float)) :=
  samples.foldlM (fun sums s => do
    let row ← rowOf s
    addRowAt features sums s.label row) (List.replicate classes (List.replicate features 0.0))

theorem addRowAt_eq {sums : List (List Float)} (hsums : ∀ row ∈ sums, row.length = features) {label : Nat}
    (hlabel : label < sums.length) {row : List Float} (hrow : row.length = features) :
    addRowAt features sums label row =
        .ok (sums.modify label fun old => List.zipWith (· + ·) old row) ∧
      ∀ new ∈ sums.modify label fun old => List.zipWith (· + ·) old row, new.length = features := by
  have hold : sums[label].length = features := hsums _ (List.getElem_mem hlabel)
  constructor
  · rw [addRowAt, bind_ok (element_eq hlabel), bind_ok (zipPlaces_eq hold hrow _), update_eq hlabel]
    exact congrArg Except.ok (modify_const hlabel fun old => List.zipWith (· + ·) old row)
  · intro new hnew
    obtain ⟨i, hi, rfl⟩ := List.mem_iff_getElem.1 hnew
    rw [List.getElem_modify]
    split
    · rw [List.length_zipWith, hrow, hsums _ (List.getElem_mem _), Nat.min_self]
    · exact hsums _ (List.getElem_mem _)

/-- Summing the rows of all samples sums the rows of each class. -/
theorem sumByClass_eq {f : Sample → Guarded (List Float)} {r : Sample → List Float}
    (hlabel : ∀ s ∈ samples, s.label < classes) (hrow : ∀ s ∈ samples, f s = .ok (r s))
    (hlength : ∀ s ∈ samples, (r s).length = features) :
    sumByClass features classes f samples = .ok ((List.range classes).map fun k =>
      Bayes.sumRows features ((samples.filter fun s => s.label == k).map r)) := by
  have hfold : sumByClass features classes f samples = .ok (samples.foldl
      (fun sums s => sums.modify s.label fun old => List.zipWith (· + ·) old (r s))
      (List.replicate classes (List.replicate features 0.0))) := by
    refine (foldlM_eq (P := fun sums : List (List Float) =>
      sums.length = classes ∧ ∀ row ∈ sums, row.length = features) ?_ ?_).1
    · rintro sums s hs ⟨hcount, hsums⟩
      obtain ⟨hadd, hnew⟩ := addRowAt_eq hsums (hcount ▸ hlabel s hs) (hlength s hs)
      rw [bind_ok (hrow s hs)]
      exact ⟨hadd, (List.length_modify ..).trans hcount, hnew⟩
    · refine ⟨List.length_replicate .., ?_⟩
      intro row hrow
      rw [List.eq_of_mem_replicate hrow, List.length_replicate]
  rw [hfold, foldl_modify_replicate Sample.label fun old s => List.zipWith (· + ·) old (r s)]
  simp only [Bayes.sumRows, List.foldl_map]

/-- The sums of the squares by which the rows of each class differ from its mean. -/
def spreadByClass (features classes : Nat) (means : List (List Float)) (samples : List Sample) :
    Guarded (List (List Float)) :=
  sumByClass features classes (fun s => do
    let mean ← element means s.label
    zipPlaces features (fun v m => square (v - m)) s.features.toList mean) samples

/-- Where each class has its own mean, the rows of each class are compared with that. -/
theorem spreadByClass_eq (hfit : ∀ s ∈ samples, s.Fits features classes) :
    spreadByClass features classes
        ((List.range classes).map fun k => Bayes.meanOf features (Bayes.rowsOf samples k)) samples =
      .ok ((List.range classes).map fun k =>
        Bayes.spreadOf features (Bayes.rowsOf samples k) (Bayes.meanOf features (Bayes.rowsOf samples k))) := by
  have hlabel : ∀ s ∈ samples, s.label < classes := fun s hs => (hfit s hs).label_lt
  have hrow : ∀ s ∈ samples, s.features.toList.length = features := by
    intro s hs
    rw [Array.length_toList]
    exact (hfit s hs).size_eq
  have hmean : ∀ k, (Bayes.meanOf features (Bayes.rowsOf samples k)).length = features :=
    fun k => Bayes.length_meanOf (Bayes.length_of_mem_rowsOf hfit k)
  have hsums := sumByClass_eq (r := fun s => List.zipWith (fun v m => square (v - m)) s.features.toList
    (Bayes.meanOf features (Bayes.rowsOf samples s.label))) (f := fun s => do
      let mean ← element ((List.range classes).map fun k =>
        Bayes.meanOf features (Bayes.rowsOf samples k)) s.label
      zipPlaces features (fun v m => square (v - m)) s.features.toList mean) hlabel
    (fun s hs => by
      rw [bind_ok (element_map_range (hlabel s hs) _)]
      exact zipPlaces_eq (hrow s hs) (hmean _) _)
    (fun s hs => by rw [List.length_zipWith, hrow s hs, hmean, Nat.min_self])
  rw [spreadByClass, hsums]
  refine congrArg Except.ok (List.map_congr_left fun k _ => ?_)
  rw [Bayes.spreadOf]
  apply congrArg
  conv_rhs => rw [Bayes.rowsOf, List.map_map]
  refine List.map_congr_left fun s hs => ?_
  have hk : s.label = k := by simpa using (List.mem_filter.1 hs).2
  rw [hk]
  rfl

/-- How many samples each class has. -/
theorem tally_labels (hlabel : ∀ s ∈ samples, s.label < classes) :
    tally classes (samples.map Sample.label) =
      .ok ((List.range classes).map fun k => (Bayes.rowsOf samples k).length) := by
  have hlabels : ∀ label ∈ samples.map Sample.label, label < classes := by
    intro label hmem
    obtain ⟨s, hs, rfl⟩ := List.mem_map.1 hmem
    exact hlabel s hs
  rw [tally_eq hlabels, Neighbours.tally, List.foldl_map,
    foldl_modify_replicate Sample.label fun n _ => n + 1]
  simp only [foldl_succ, Nat.zero_add, Bayes.rowsOf, List.length_map]

/-! ## Fitting and asking -/

/-- The classes of samples. -/
def fitBayes (classes : Nat) (samples : List Sample) : Guarded Bayes := do
  let features := featureCount samples
  let floor := Bayes.varianceFloor samples
  let counts ← tally classes (samples.map Sample.label)
  let sums ← sumByClass features classes (fun s => .ok s.features.toList) samples
  let means ← zipPlaces classes (fun n sum => if n = 0 then sum else sum.map (· / count n)) counts sums
  let spreads ← spreadByClass features classes means samples
  let variances ← zipPlaces classes (fun n spread => spread.map fun v => v / count (max n 1) + floor) counts spreads
  let shares := counts.map fun n =>
    if n = 0 then -(1.0 / 0.0) else (count n / count (max samples.length 1)).log
  let models ← (List.range classes).mapM fun k => do
    let logShare ← element shares k
    let means ← element means k
    let variances ← element variances k
    pure { logShare, means, variances : ClassModel }
  pure ⟨models⟩

/-- The score of a row under a class. -/
def classScore (m : ClassModel) (row : List Float) : Guarded Float := do
  let likelihoods ← (List.range row.length).mapM fun j => do
    let value ← element row j
    let mean ← element m.means j
    let variance ← element m.variances j
    pure (Bayes.logLikelihood value mean variance)
  pure (m.logShare + sumFloats likelihoods)

/-- The class of a row. -/
def predictBayes (b : Bayes) (row : Features) : Guarded Nat := do
  let scores ← b.classes.mapM fun m => classScore m row.toList
  argmax scores

/-- The mean of each class is that of its own rows. -/
theorem means_eq (features classes : Nat) (samples : List Sample) :
    zipPlaces classes (fun n sum => if n = 0 then sum else sum.map (· / count n))
        ((List.range classes).map fun k => (Bayes.rowsOf samples k).length)
        ((List.range classes).map fun k => Bayes.sumRows features (Bayes.rowsOf samples k)) =
      .ok ((List.range classes).map fun k => Bayes.meanOf features (Bayes.rowsOf samples k)) :=
  zipPlaces_map_range ..

/-- The classes are described without a breakdown by samples of one number of features. -/
theorem fitBayes_eq (hcount : featureCount samples = features) (hfit : ∀ s ∈ samples, s.Fits features classes) :
    fitBayes classes samples = .ok (Bayes.fit classes samples) ∧
      (Bayes.fit classes samples).Fits features classes := by
  subst hcount
  have hlabel : ∀ s ∈ samples, s.label < classes := fun s hs => (hfit s hs).label_lt
  have hlength : ∀ s ∈ samples, s.features.toList.length = featureCount samples := by
    intro s hs
    rw [Array.length_toList]
    exact (hfit s hs).size_eq
  have hrows : ∀ k, ∀ row ∈ Bayes.rowsOf samples k, row.length = featureCount samples :=
    Bayes.length_of_mem_rowsOf hfit
  constructor
  · have hsums : sumByClass (featureCount samples) classes (fun s => .ok s.features.toList) samples =
        .ok ((List.range classes).map fun k => Bayes.sumRows (featureCount samples) (Bayes.rowsOf samples k)) :=
      sumByClass_eq hlabel (fun _ _ => rfl) hlength
    rw [fitBayes, bind_ok (tally_labels hlabel), bind_ok hsums, bind_ok (means_eq ..),
      bind_ok (spreadByClass_eq hfit), bind_ok (zipPlaces_map_range ..)]
    refine bind_ok (mapM_eq fun k hk => ?_) _
    have hlt := List.mem_range.1 hk
    simp only [List.map_map, bind_ok (element_map_range hlt _)]
    rfl
  · refine ⟨by simp [Bayes.fit], ?_, ?_⟩
    · intro m hm
      obtain ⟨k, _, rfl⟩ := List.mem_map.1 hm
      rw [Bayes.classModel_eq]
      exact Bayes.length_meanOf (hrows k)
    · intro m hm
      obtain ⟨k, _, rfl⟩ := List.mem_map.1 hm
      rw [Bayes.classModel_eq]
      exact (List.length_map ..).trans (Bayes.length_spreadOf (hrows k))

theorem classScore_eq {m : ClassModel} {row : List Float} (hmeans : m.means.length = row.length)
    (hvariances : m.variances.length = row.length) : classScore m row = .ok (Bayes.ClassModel.score m row) := by
  have hlikelihoods : (List.range row.length).mapM (fun j => do
      let value ← element row j
      let mean ← element m.means j
      let variance ← element m.variances j
      pure (Bayes.logLikelihood value mean variance)) = (.ok (List.zipWith
        (fun value pair => Bayes.logLikelihood value pair.1 pair.2) row (m.means.zip m.variances)) :
          Guarded (List Float)) := by
    have hpairs : (m.means.zip m.variances).length = row.length := by
      rw [List.length_zip, hmeans, hvariances, Nat.min_self]
    refine mapM_range_zipWith rfl hpairs fun j hj _ => ?_
    rw [bind_ok (element_eq hj), bind_ok (element_eq (hmeans ▸ hj)), bind_ok (element_eq (hvariances ▸ hj)),
      List.getElem_zip]
    rfl
  exact bind_ok hlikelihoods _

theorem predictBayes_eq {b : Bayes} (hb : b.Fits features classes) (hclasses : 0 < classes) {row : Features}
    (hrow : row.size = features) :
    predictBayes b row = .ok (b.predict row) ∧ b.predict row < classes := by
  have hlength : row.toList.length = features := by
    rw [Array.length_toList]
    exact hrow
  have hscores : ∀ m ∈ b.classes, classScore m row.toList = .ok (Bayes.ClassModel.score m row.toList) := by
    intro m hm
    exact classScore_eq ((hb.length_means m hm).trans hlength.symm) ((hb.length_variances m hm).trans hlength.symm)
  constructor
  · rw [predictBayes, bind_ok (mapM_eq hscores), argmax_eq]
    rfl
  · exact argmax_lt_of_length ((List.length_map ..).trans hb.length_classes) hclasses

end Guarded
end TableFlow
