import TableFlow.Learn.Model
import TableFlow.Proofs.Guarded.Bayes
import TableFlow.Proofs.Guarded.Ensembles
import TableFlow.Proofs.Guarded.Logistic
import TableFlow.Proofs.Guarded.Tables
import TableFlow.Proofs.KeyMap

/-!
# Guarded models

Training with guarded accesses.  The rows of a well-formed table give samples with one number of features, and the key
of each label has a place among the sorted keys; so every sample fits, whichever algorithm is asked, and the trained
model fits the features and the classes that it names.

Main results:

- Theorem `fitClassifier_eq`: each algorithm fits a classifier to samples that fit without a breakdown.
- Theorem `predictClass_eq`: a classifier that fits tells one of the classes of a row that fits.
- Theorem `train_eq`: training on a well-formed table breaks down nowhere, and its errors are the same.
- Theorem `prepared_of_train`: what training that succeeds has found, and the model that it makes of it.
- Theorem `fits_of_train`: a trained model fits the features and the classes that it names.
-/

namespace TableFlow

namespace Learn

/-- The classifier asks for features that there are and tells one of the classes. -/
def Classifier.Fits (features classes : Nat) : Classifier → Prop
  | .constant => True
  | .tree t => t.Fits features classes
  | .forest f => f.Fits features classes
  | .boosted b => b.Fits features classes
  | .neighbours n => n.Fits classes
  | .logistic m => m.Fits features classes
  | .bayes b => b.Fits features classes

/-- The classifier fits the features and the classes of the model, and each class has a name. -/
structure Model.Fits (m : Model) : Prop where
  classifier : m.classifier.Fits m.features.length m.classKeys.length
  classKeys_pos : 0 < m.classKeys.length
  length_classes : m.classes.length = m.classKeys.length

/-- Taking keys once each takes all of them. -/
theorem mem_distinctKeys {keys : List String} {key : String} :
    key ∈ (sortKeys (keys.map fun key => (key, ()))).map Prod.fst ↔ key ∈ keys := by
  rw [mem_map_fst_sortKeys, List.map_map]
  exact List.mem_map.trans (by simp)

/-- The sorted keys are the keys. -/
theorem mem_sortedKeys {keys : List String} {key : String} : key ∈ sortedKeys keys ↔ key ∈ keys := by
  simp only [sortedKeys]
  split
  · exact (List.mergeSort_perm _ _).mem_iff.trans mem_distinctKeys
  · exact mem_distinctKeys

/-- Each cell of a target column has a key, or there are no keys. -/
theorem length_labelKeys {target : String} {cells : List Cell} {keys : List String}
    (h : labelKeys target cells = .ok keys) : keys.length = cells.length := by
  have hlength := congrArg List.length (mapM_eq_ok_iff.1 h)
  simpa using hlength.symm

/-- The rows of a feature matrix are as many as those of the table, and have a number for each column. -/
theorem shape_of_featureMatrix {t : Table} {columns : List String} {matrix : List Features}
    (h : featureMatrix t columns = .ok matrix) :
    matrix.length = t.rows.length ∧ ∀ row ∈ matrix, row.size = columns.length := by
  obtain ⟨places, hplaces, hrows⟩ := bind_eq_ok.1 h
  have hcount : places.length = columns.length := by
    have hlength := congrArg List.length (mapM_eq_ok_iff.1 hplaces)
    simpa using hlength.symm
  constructor
  · have hlength := congrArg List.length (mapM_eq_ok_iff.1 hrows)
    simpa using hlength.symm
  · intro row hrow
    obtain ⟨⟨cells, i⟩, _, hfeatures⟩ := exists_of_mem_mapM hrows hrow
    obtain ⟨values, hvalues, hpure⟩ := bind_eq_ok.1 hfeatures
    cases hpure
    have hlength := congrArg List.length (mapM_eq_ok_iff.1 hvalues)
    simpa [hcount] using hlength.symm

end Learn

namespace Guarded

open Learn

variable {features classes : Nat} {samples : List Sample} {t : Table}

/-! ## Classifiers -/

/-- The classifier of samples. -/
def fitClassifier (defaultTrees classes seed : Nat) (algorithm : Algorithm) (p : Params)
    (samples : List Sample) : Guarded Classifier :=
  match algorithm with
  | .decisionTree => do
    let grown ← fitTree (.ofDepth p.maxDepth) classes samples (.ofSeed seed)
    pure (.tree grown.1)
  | .randomForest => do
    let forest ← fitForest classes (p.trees.getD defaultTrees) p.maxDepth seed samples
    pure (.forest forest)
  | .boosting => do
    let stages ← fitBoosted classes (p.trees.getD 50) (p.maxDepth.getD 2) (p.learningRate.getD 1.0) seed samples
    pure (.boosted stages)
  | .knn => do
    let kept ← fitNeighbours classes (p.k.getD 5) samples
    pure (.neighbours kept)
  | .logisticRegression => do
    let scores ← fitLogistic classes (p.iterations.getD 300) (p.learningRate.getD 0.1) samples
    pure (.logistic scores)
  | .naiveBayes => do
    let models ← fitBayes classes samples
    pure (.bayes models)

/-- The class of a row. -/
def predictClass (row : Features) : Classifier → Guarded Nat
  | .constant => .ok 0
  | .tree t => predictTree row t
  | .forest f => predictForest f row
  | .boosted b => predictBoosted b row
  | .neighbours n => predictNeighbours n row
  | .logistic m => predictLogistic m row
  | .bayes b => predictBayes b row

/-- Each algorithm fits a classifier to samples that fit. -/
theorem fitClassifier_eq (hclasses : 0 < classes) (hcount : featureCount samples = features)
    (hfit : ∀ s ∈ samples, s.Fits features classes) (defaultTrees seed : Nat) (algorithm : Algorithm) (p : Params) :
    fitClassifier defaultTrees classes seed algorithm p samples =
        .ok (Learn.fitClassifier defaultTrees classes seed algorithm p samples) ∧
      (Learn.fitClassifier defaultTrees classes seed algorithm p samples).Fits features classes := by
  cases algorithm with
  | decisionTree =>
      obtain ⟨htree, hfits⟩ := fitTree_eq hclasses hfit (.ofSeed seed)
      exact ⟨bind_ok htree _, hfits⟩
  | randomForest =>
      obtain ⟨hforest, hfits⟩ := fitForest_eq hclasses hfit (p.trees.getD defaultTrees) p.maxDepth seed
      exact ⟨bind_ok hforest _, hfits⟩
  | boosting =>
      obtain ⟨hstages, hfits⟩ := fitBoosted_eq hclasses hfit (p.trees.getD 50) (p.maxDepth.getD 2)
        (p.learningRate.getD 1.0) seed
      exact ⟨bind_ok hstages _, hfits⟩
  | knn =>
      obtain ⟨hkept, hfits⟩ := fitNeighbours_eq (fun s hs => (hfit s hs).label_lt) (p.k.getD 5)
      exact ⟨bind_ok hkept _, hfits⟩
  | logisticRegression =>
      obtain ⟨hscores, hfits⟩ := fitLogistic_eq hcount hfit (p.iterations.getD 300) (p.learningRate.getD 0.1)
      exact ⟨bind_ok hscores _, hfits⟩
  | naiveBayes =>
      obtain ⟨hmodels, hfits⟩ := fitBayes_eq hcount hfit
      exact ⟨bind_ok hmodels _, hfits⟩

/-- A classifier that fits tells one of the classes of a row that fits. -/
theorem predictClass_eq {c : Classifier} (hc : c.Fits features classes) (hclasses : 0 < classes) {row : Features}
    (hrow : row.size = features) :
    predictClass row c = .ok (c.predict row) ∧ c.predict row < classes := by
  cases c with
  | constant => exact ⟨rfl, hclasses⟩
  | tree t => exact ⟨predictTree_eq hc hrow, hc.predict_lt row⟩
  | forest f => exact predictForest_eq hc hclasses hrow
  | boosted b => exact predictBoosted_eq hc hclasses hrow
  | neighbours n => exact predictNeighbours_eq hc hclasses row
  | logistic m => exact predictLogistic_eq hc hclasses hrow
  | bayes b => exact predictBayes_eq hc hclasses hrow

/-! ## Features -/

/-- The features for a target: every other column, all of them numeric. -/
def featureColumns (t : Table) (target : String) : Guarded (List String) := do
  let _ ← lift (t.requireColumn target)
  let features ← (t.columns.zipIdx.filter fun place => place.1 != target).mapM fun place => do
    let kind ← columnKind t place.2
    match kind with
    | .numeric => .ok place.1
    | .categorical =>
      lift (.error (.schema ("feature column '" ++ place.1 ++
        "' is not numeric; run `encode` before `train`")))
    | .empty =>
      lift (.error (.schema ("feature column '" ++ place.1 ++
        "' has no values; `drop` it before `train`")))
  if features.isEmpty then
    lift (throw (.schema s!"no feature columns besides target '{target}'"))
  else pure features

/-- The features of a row with its number: the cell and the name at each place. -/
def rowFeatures (t : Table) (places : List Nat) (row : List Cell × Nat) : Guarded Features := do
  let values ← places.mapM fun i => do
    let cell ← element row.1 i
    let name ← element t.columns i
    lift (featureValue name (row.2 + 1) cell)
  pure values.toArray

/-- The features of every row for the named columns. -/
def featureMatrix (t : Table) (columns : List String) : Guarded (List Features) := do
  let places ← lift (columns.mapM t.requireColumn)
  t.rows.zipIdx.mapM (rowFeatures t places)

theorem featureColumns_eq (hwell : t.WellFormed) (target : String) :
    featureColumns t target = lift (Learn.featureColumns t target) := by
  refine bind_lift fun _ _ => bind_mapM_lift ?_ fun features _ => ?_
  · rintro ⟨name, i⟩ hplace
    have hi : i < t.columns.length := by
      have hmem := List.mk_mem_zipIdx_iff_getElem?.1 (List.mem_filter.1 hplace).1
      exact (List.getElem?_eq_some_iff.1 hmem).1
    rw [bind_ok (columnKind_eq hwell hi)]
    simp only
    cases t.columnKind i <;> rfl
  · cases features <;> rfl

/-- The places of columns that must be there have their names. -/
theorem zip_places {columns : List String} {places : List Nat} (h : columns.mapM t.requireColumn = .ok places) :
    columns.zip places = places.map fun i => (t.columns.getD i "", i) := by
  have hfound := mapM_eq_ok_iff.1 h
  have hlength : columns.length = places.length := by simpa using congrArg List.length hfound
  refine List.ext_getElem (by simp [hlength]) fun k hk _ => ?_
  have hkc : k < columns.length := by
    rw [List.length_zip] at hk
    omega
  have hkp : k < places.length := hlength ▸ hkc
  have hcolumn : t.requireColumn columns[k] = .ok places[k] := by
    have hget := congrArg (fun l => l[k]?) hfound
    simpa [hkc, hkp] using hget
  obtain ⟨hlt, hname, _⟩ := Table.columnIndex?_eq_some_iff.1 (Table.requireColumn_eq_ok_iff.1 hcolumn)
  rw [List.getElem_zip, List.getElem_map, List.getD_eq_getElem?_getD, List.getElem?_eq_getElem hlt, hname]
  rfl

theorem featureMatrix_eq (hwell : t.WellFormed) (columns : List String) :
    featureMatrix t columns = lift (Learn.featureMatrix t columns) := by
  refine bind_lift fun places hplaces => ?_
  rw [zip_places hplaces]
  apply mapM_lift
  rintro ⟨row, number⟩ hrow
  simp only [Learn.rowFeatures, List.mapM_map]
  refine bind_mapM_lift (fun i hi => ?_) fun values _ => rfl
  have hmem : row ∈ t.rows := List.fst_mem_of_mem_zipIdx hrow
  have hlt : i < row.length := lt_length_of_mem_places hwell hplaces hmem i hi
  have hcolumn : i < t.columns.length := by
    rw [← hwell.width row hmem]
    exact hlt
  rw [bind_ok (element_eq_getD hlt .null), bind_ok (element_eq_getD hcolumn "")]
  rfl

/-! ## Training -/

/-- The classifier of what is asked for; with one class there is nothing to fit. -/
def chooseClassifier (defaultTrees : Nat) (r : Request) (classes : Nat) (samples : List Sample) :
    Guarded Classifier :=
  if classes = 1 then .ok .constant
  else fitClassifier (max defaultTrees 1) classes (r.params.seed.getD r.seed) r.algorithm r.params samples

/-- Train a model. -/
def train (defaultTrees : Nat) (r : Request) : Guarded Model := do
  if r.table.rows.isEmpty then
    lift (throw (.precondition "training rows" "the training split has no rows"))
  else do
    let features ← featureColumns r.table r.target
    let matrix ← featureMatrix r.table features
    let target ← lift (r.table.requireColumn r.target)
    let cells ← column r.table target
    let keys ← lift (labelKeys r.target cells)
    let classKeys := sortedKeys keys
    let labels ← keys.mapM (placeOf classKeys)
    let samples ← zipPlaces labels.length (fun row label => { features := row, label : Sample }) matrix labels
    let classifier ← chooseClassifier defaultTrees r classKeys.length samples
    pure
      { algorithm := r.algorithm.name
        target := r.target
        features
        classKeys
        classes := classKeys.map (className r.names)
        trainedRows := matrix.length
        params := r.params
        classifier }

/-- The samples of the rows of a table and the keys of their labels. -/
def samplesOf (matrix : List Features) (keys : List String) : List Sample :=
  List.zipWith (fun row label => { features := row, label : Sample }) matrix
    (keys.map fun key => (sortedKeys keys).idxOf key)

/-- Such samples fit: each row has a number for each feature, and each key is one of the sorted ones. -/
theorem fits_of_mem_samplesOf {matrix : List Features} (hmatrix : ∀ row ∈ matrix, row.size = features)
    {keys : List String} : ∀ s ∈ samplesOf matrix keys, s.Fits features (sortedKeys keys).length := by
  intro s hs
  obtain ⟨i, hi, rfl⟩ := List.mem_iff_getElem.1 hs
  have hlengths := hi
  rw [samplesOf, List.length_zipWith, Nat.lt_min] at hlengths
  simp only [samplesOf, List.getElem_zipWith, List.getElem_map]
  constructor
  · exact hmatrix _ (List.getElem_mem _)
  · exact List.idxOf_lt_length_iff.2 (mem_sortedKeys.2 (List.getElem_mem _))

/-- Samples that fit have the features that they fit, if there are any samples. -/
theorem featureCount_eq (hsome : 0 < samples.length) (hfit : ∀ s ∈ samples, s.Fits features classes) :
    featureCount samples = features := by
  cases samples with
  | nil => exact absurd hsome (Nat.lt_irrefl _)
  | cons s samples => exact (hfit s List.mem_cons_self).size_eq

theorem length_samplesOf {matrix : List Features} {keys : List String} (h : matrix.length = keys.length) :
    (samplesOf matrix keys).length = keys.length := by
  rw [samplesOf, List.length_zipWith, List.length_map, h, Nat.min_self]

theorem sortedKeys_pos {keys : List String} (h : 0 < keys.length) : 0 < (sortedKeys keys).length := by
  obtain ⟨key, hkey⟩ := List.exists_mem_of_length_pos h
  exact List.length_pos_of_mem (mem_sortedKeys.2 hkey)

/-- The key of each label is found, and each row gets its label. -/
theorem samplesOf_eq {matrix : List Features} {keys : List String} (h : matrix.length = keys.length)
    (k : List Sample → Guarded Model) : (do
      let labels ← keys.mapM (placeOf (sortedKeys keys))
      let samples ← zipPlaces labels.length (fun row label => { features := row, label : Sample }) matrix labels
      k samples) = k (samplesOf matrix keys) := by
  have hlabels : ∀ key ∈ keys, placeOf (sortedKeys keys) key = .ok ((sortedKeys keys).idxOf key) :=
    fun key hkey => placeOf_eq (mem_sortedKeys.2 hkey)
  rw [bind_ok (mapM_eq hlabels), bind_ok (zipPlaces_eq (by rw [List.length_map, h]) rfl _)]
  rfl

/-- What training finds out before it fits a classifier: a row of features and a key for each row of the table. -/
structure Prepared (r : Request) (features : List String) (matrix : List Features) (keys : List String) : Prop where
  matrix_eq : Learn.featureMatrix r.table features = .ok matrix
  length_keys : keys.length = r.table.rows.length
  rows_pos : 0 < r.table.rows.length

theorem Prepared.length_eq {r : Request} {names keys : List String} {matrix : List Features}
    (h : Prepared r names matrix keys) : matrix.length = keys.length :=
  (shape_of_featureMatrix h.matrix_eq).1.trans h.length_keys.symm

theorem Prepared.fits {r : Request} {names keys : List String} {matrix : List Features}
    (h : Prepared r names matrix keys) :
    ∀ s ∈ samplesOf matrix keys, s.Fits names.length (sortedKeys keys).length :=
  fits_of_mem_samplesOf (shape_of_featureMatrix h.matrix_eq).2

theorem Prepared.classes_pos {r : Request} {names keys : List String} {matrix : List Features}
    (h : Prepared r names matrix keys) : 0 < (sortedKeys keys).length := by
  apply sortedKeys_pos
  rw [h.length_keys]
  exact h.rows_pos

theorem Prepared.featureCount_eq {r : Request} {names keys : List String} {matrix : List Features}
    (h : Prepared r names matrix keys) : featureCount (samplesOf matrix keys) = names.length := by
  refine Guarded.featureCount_eq ?_ h.fits
  rw [length_samplesOf h.length_eq, h.length_keys]
  exact h.rows_pos

/-- The classifier of what training has prepared. -/
def classifierOf (defaultTrees : Nat) (r : Request) (matrix : List Features) (keys : List String) : Classifier :=
  if (sortedKeys keys).length = 1 then .constant
  else
    Learn.fitClassifier (max defaultTrees 1) (sortedKeys keys).length (r.params.seed.getD r.seed) r.algorithm
      r.params (samplesOf matrix keys)

theorem Prepared.classifier {r : Request} {names keys : List String} {matrix : List Features}
    (h : Prepared r names matrix keys) (defaultTrees : Nat) :
    chooseClassifier defaultTrees r (sortedKeys keys).length (samplesOf matrix keys) =
        .ok (classifierOf defaultTrees r matrix keys) ∧
      (classifierOf defaultTrees r matrix keys).Fits names.length (sortedKeys keys).length := by
  unfold chooseClassifier classifierOf
  by_cases hone : (sortedKeys keys).length = 1
  · rw [if_pos hone, if_pos hone]
    exact ⟨rfl, trivial⟩
  · rw [if_neg hone, if_neg hone]
    exact fitClassifier_eq h.classes_pos h.featureCount_eq h.fits _ _ _ _

/-- Training on a well-formed table breaks down nowhere. -/
theorem train_eq {r : Request} (hwell : r.table.WellFormed) (defaultTrees : Nat) :
    train defaultTrees r = lift (Learn.train defaultTrees r) := by
  unfold train Learn.train
  by_cases hempty : r.table.rows.isEmpty = true
  · rw [if_pos hempty, if_pos hempty]
    rfl
  · have hrows : 0 < r.table.rows.length := by
      rw [List.isEmpty_iff_length_eq_zero] at hempty
      omega
    rw [if_neg hempty, if_neg hempty, featureColumns_eq hwell]
    refine bind_lift fun features _ => ?_
    rw [featureMatrix_eq hwell]
    refine bind_lift fun matrix hmatrix => bind_lift fun target htarget => ?_
    rw [bind_ok (column_eq hwell (Table.lt_of_requireColumn htarget))]
    refine bind_lift fun keys hkeys => ?_
    have hlength : keys.length = r.table.rows.length := by
      rw [length_labelKeys hkeys, Table.column, List.length_map]
    have hprepared : Prepared r features matrix keys := ⟨hmatrix, hlength, hrows⟩
    simp only
    rw [samplesOf_eq hprepared.length_eq, bind_ok (hprepared.classifier defaultTrees).1]
    rfl

/-- The model of what training has prepared. -/
def modelOf (defaultTrees : Nat) (r : Request) (features : List String) (matrix : List Features)
    (keys : List String) : Model where
  algorithm := r.algorithm.name
  target := r.target
  features
  classKeys := sortedKeys keys
  classes := (sortedKeys keys).map (className r.names)
  trainedRows := matrix.length
  params := r.params
  classifier := classifierOf defaultTrees r matrix keys

/-- Training that succeeds has found a row of features and a key for each row of the table, and makes its model of
them. -/
theorem prepared_of_train {r : Request} {defaultTrees : Nat} {m : Model} (h : Learn.train defaultTrees r = .ok m) :
    ∃ features matrix keys, Prepared r features matrix keys ∧ r.target ∈ r.table.columns ∧
      labelKeys r.target (r.table.cellsOf r.target) = .ok keys ∧ m = modelOf defaultTrees r features matrix keys := by
  unfold Learn.train at h
  by_cases hempty : r.table.rows.isEmpty = true
  · rw [if_pos hempty] at h
    cases h
  · have hrows : 0 < r.table.rows.length := by
      rw [List.isEmpty_iff_length_eq_zero] at hempty
      omega
    rw [if_neg hempty] at h
    obtain ⟨features, _, h⟩ := bind_eq_ok.1 h
    obtain ⟨matrix, hmatrix, h⟩ := bind_eq_ok.1 h
    obtain ⟨target, htarget, h⟩ := bind_eq_ok.1 h
    obtain ⟨keys, hkeys, hpure⟩ := bind_eq_ok.1 h
    have hindex := Table.requireColumn_eq_ok_iff.1 htarget
    have hlength : keys.length = r.table.rows.length := by
      rw [length_labelKeys hkeys, Table.column, List.length_map]
    rw [← Table.cellsOf_eq hindex] at hkeys
    cases hpure
    exact ⟨features, matrix, keys, ⟨hmatrix, hlength, hrows⟩, Table.mem_of_columnIndex? hindex, hkeys, rfl⟩

/-- A trained model fits the features and the classes that it names. -/
theorem fits_of_train {r : Request} {defaultTrees : Nat} {m : Model} (h : Learn.train defaultTrees r = .ok m) :
    m.Fits := by
  obtain ⟨features, matrix, keys, hprepared, _, _, rfl⟩ := prepared_of_train h
  exact ⟨(hprepared.classifier defaultTrees).2, hprepared.classes_pos, List.length_map ..⟩

end Guarded
end TableFlow
