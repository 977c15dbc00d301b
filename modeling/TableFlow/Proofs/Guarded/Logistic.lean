import TableFlow.Learn.Logistic
import TableFlow.Proofs.Guarded.Trees

/-!
# Guarded logistic regression

Logistic regression keeps one row of weights and one bias for each class, and each row has one weight for each
feature; the gradient has the same shape.  Every step down the gradient keeps the shape, so the places that a step asks
for are there.

Main results:

- Theorem `standardize_eq`: standardizing a row asks for a mean and a scale of each of its features.
- Theorem `addRow_eq`: adding a row to a gradient of the right shape keeps the shape.
- Theorem `logisticStep_eq`: so does a step down the gradient.
- Theorems `fitLogistic_eq` and `predictLogistic_eq`: the scores are fitted and asked without a breakdown.
-/

namespace TableFlow

namespace Learn

/-- One row of weights and one bias for each class, and one weight for each feature in a row. -/
structure Shaped (features classes : Nat) (weights : List (List Float)) (bias : List Float) : Prop where
  length_weights : weights.length = classes
  length_row : ∀ row ∈ weights, row.length = features
  length_bias : bias.length = classes

/-- The scores have a mean and a scale for each feature, and weights of the right shape. -/
structure Logistic.Fits (features classes : Nat) (m : Logistic) : Prop where
  length_means : m.means.length = features
  length_scales : m.scales.length = features
  shaped : Shaped features classes m.weights m.bias

/-- The sums over all rows that a step starts from. -/
def Logistic.sums (m : Logistic) (rows : List (List Float × Nat)) (zero : Gradient) : Gradient :=
  rows.foldl (fun g pair => g.add (residuals (softmax (scores m.weights m.bias pair.1)) pair.2) pair.1) zero

/-- No weights yet have the right shape. -/
theorem shaped_replicate (features classes : Nat) :
    Shaped features classes (List.replicate classes (List.replicate features 0.0))
      (List.replicate classes 0.0) := by
  refine ⟨List.length_replicate .., ?_, List.length_replicate ..⟩
  intro row hrow
  rw [List.eq_of_mem_replicate hrow, List.length_replicate]

/-- There is one score, and one probability, for each class. -/
theorem length_softmax_scores {features classes : Nat} {weights : List (List Float)} {bias : List Float}
    (h : Shaped features classes weights bias) (row : List Float) :
    (Logistic.softmax (Logistic.scores weights bias row)).length = classes := by
  rw [Logistic.softmax, List.length_map, List.length_map, Logistic.scores, List.length_zipWith,
    h.length_weights, h.length_bias, Nat.min_self]

theorem length_residuals (probabilities : List Float) (label : Nat) :
    (Logistic.residuals probabilities label).length = probabilities.length := by
  rw [Logistic.residuals, List.length_map, List.length_zipIdx]

theorem length_standardize {means scales row : List Float} (hmeans : means.length = row.length)
    (hscales : scales.length = row.length) : (Logistic.standardize means scales row).length = row.length := by
  rw [Logistic.standardize, List.length_zipWith, List.length_zipWith, hmeans, hscales, Nat.min_self, Nat.min_self]

end Learn

namespace Guarded

open Learn

variable {features classes : Nat} {samples : List Sample}

/-! ## Rows -/

/-- A row with its features standardized. -/
def standardize (means scales row : List Float) : Guarded (List Float) :=
  (List.range row.length).mapM fun j => do
    let value ← element row j
    let mean ← element means j
    let scale ← element scales j
    pure ((value - mean) / scale)

/-- How far the probabilities of a row are from its class. -/
def residuals (classes : Nat) (probabilities : List Float) (label : Nat) : Guarded (List Float) :=
  (List.range classes).mapM fun k => do
    let p ← element probabilities k
    pure (p - (if k = label then 1.0 else 0.0))

theorem standardize_eq {means scales row : List Float} (hmeans : means.length = row.length)
    (hscales : scales.length = row.length) :
    standardize means scales row = .ok (Logistic.standardize means scales row) := by
  have hlength := length_standardize hmeans hscales
  refine mapM_range hlength fun j hj => ?_
  rw [hlength] at hj
  rw [bind_ok (element_eq hj), bind_ok (element_eq (hmeans ▸ hj)), bind_ok (element_eq (hscales ▸ hj))]
  simp only [Logistic.standardize, List.getElem_zipWith]
  rfl

theorem residuals_eq {probabilities : List Float} (h : probabilities.length = classes) (label : Nat) :
    residuals classes probabilities label = .ok (Logistic.residuals probabilities label) := by
  refine mapM_range ((length_residuals _ _).trans h) fun k hk => ?_
  rw [length_residuals] at hk
  rw [bind_ok (element_eq hk)]
  simp only [Logistic.residuals, List.getElem_map, List.getElem_zipIdx, Nat.zero_add]
  rfl

/-! ## The gradient -/

/-- Combine weights with one item for each class, and each of its weights with a number of the item. -/
def combine {α : Type} (features classes : Nat) (f : α → Float → Float → Float) (numbers : α → List Float)
    (weights : List (List Float)) (items : List α) : Guarded (List (List Float)) :=
  (List.range classes).mapM fun k => do
    let row ← element weights k
    let a ← element items k
    zipPlaces features (f a) row (numbers a)

/-- Add one row to the sums. -/
def addRow (features classes : Nat) (g : Logistic.Gradient) (deltas row : List Float) :
    Guarded Logistic.Gradient := do
  let weights ← combine features classes (fun delta sum x => sum + delta * x) (fun _ => row) g.weights deltas
  let bias ← zipPlaces classes (· + ·) g.bias deltas
  pure { weights, bias }

/-- The sums over all rows. -/
def gradient (features classes : Nat) (m : Logistic) (rows : List (List Float × Nat))
    (zero : Logistic.Gradient) : Guarded Logistic.Gradient :=
  rows.foldlM (fun g pair => do
    let deltas ← residuals classes (Logistic.softmax (Logistic.scores m.weights m.bias pair.1)) pair.2
    addRow features classes g deltas pair.1) zero

/-- One step down the gradient. -/
def logisticStep (features classes : Nat) (rate : Float) (rows : List (List Float × Nat))
    (zero : Logistic.Gradient) (m : Logistic) : Guarded Logistic := do
  let n := count rows.length
  let sums ← gradient features classes m rows zero
  let bias ← zipPlaces classes (fun b sum => b - rate * sum / n) m.bias sums.bias
  let weights ← combine features classes (fun _ w sum => w - rate * (sum / n + Logistic.penalty * w)) (fun row => row)
    m.weights sums.weights
  pure { m with bias, weights }

/-- A number of steps. -/
def logisticSteps (features classes : Nat) (rate : Float) (rows : List (List Float × Nat))
    (zero : Logistic.Gradient) : Nat → Logistic → Guarded Logistic
  | 0, m => .ok m
  | n + 1, m => do
    let m ← logisticStep features classes rate rows zero m
    logisticSteps features classes rate rows zero n m

theorem combine_eq {α : Type} {weights : List (List Float)} {bias : List Float}
    (h : Shaped features classes weights bias) {items : List α} (hitems : items.length = classes)
    {numbers : α → List Float} (hnumbers : ∀ a ∈ items, (numbers a).length = features)
    (f : α → Float → Float → Float) :
    combine features classes f numbers weights items =
      .ok (List.zipWith (fun row a => List.zipWith (f a) row (numbers a)) weights items) := by
  refine mapM_range_zipWith h.length_weights hitems fun k hk ha => ?_
  rw [bind_ok (element_eq hk), bind_ok (element_eq ha)]
  exact zipPlaces_eq (h.length_row _ (List.getElem_mem hk)) (hnumbers _ (List.getElem_mem ha)) _

/-- Combining keeps the shape. -/
theorem Shaped.combine {α β : Type} {weights : List (List Float)} {bias : List Float}
    (h : Shaped features classes weights bias) {items : List α} (hitems : items.length = classes)
    {numbers : α → List Float} (hnumbers : ∀ a ∈ items, (numbers a).length = features)
    (f : α → Float → Float → Float) {sums : List β} (hsums : sums.length = classes) (g : Float → β → Float) :
    Shaped features classes (List.zipWith (fun row a => List.zipWith (f a) row (numbers a)) weights items)
      (List.zipWith g bias sums) := by
  constructor
  · rw [List.length_zipWith, h.length_weights, hitems, Nat.min_self]
  · intro row hrow
    obtain ⟨k, hk, rfl⟩ := List.mem_iff_getElem.1 hrow
    rw [List.length_zipWith, Nat.lt_min] at hk
    rw [List.getElem_zipWith, List.length_zipWith, h.length_row _ (List.getElem_mem hk.1),
      hnumbers _ (List.getElem_mem hk.2), Nat.min_self]
  · rw [List.length_zipWith, h.length_bias, hsums, Nat.min_self]

/-- Adding a row to sums of the right shape keeps the shape. -/
theorem addRow_eq {g : Logistic.Gradient} (hg : Shaped features classes g.weights g.bias)
    {deltas row : List Float} (hdeltas : deltas.length = classes) (hrow : row.length = features) :
    addRow features classes g deltas row = .ok (g.add deltas row) ∧
      Shaped features classes (g.add deltas row).weights (g.add deltas row).bias := by
  constructor
  · rw [addRow, bind_ok (combine_eq hg hdeltas (fun _ _ => hrow) _), bind_ok (zipPlaces_eq hg.length_bias hdeltas _)]
    rfl
  · exact Shaped.combine hg hdeltas (fun _ _ => hrow) (fun delta sum x => sum + delta * x) hdeltas _

/-- The sums over rows of one number of features have the right shape. -/
theorem gradient_eq {m : Logistic} (hm : m.Fits features classes) {zero : Logistic.Gradient}
    (hzero : Shaped features classes zero.weights zero.bias) {rows : List (List Float × Nat)}
    (hrows : ∀ pair ∈ rows, pair.1.length = features) :
    gradient features classes m rows zero = .ok (m.sums rows zero) ∧
      Shaped features classes (m.sums rows zero).weights (m.sums rows zero).bias := by
  refine foldlM_eq (P := fun g : Logistic.Gradient => Shaped features classes g.weights g.bias) ?_ hzero
  intro g pair hpair hg
  have hprobabilities := length_softmax_scores hm.shaped pair.1
  rw [bind_ok (residuals_eq hprobabilities pair.2)]
  exact addRow_eq hg ((length_residuals _ _).trans hprobabilities) (hrows pair hpair)

/-- A step down the gradient keeps the shape of the scores. -/
theorem logisticStep_eq {m : Logistic} (hm : m.Fits features classes) {zero : Logistic.Gradient}
    (hzero : Shaped features classes zero.weights zero.bias) {rows : List (List Float × Nat)}
    (hrows : ∀ pair ∈ rows, pair.1.length = features) (rate : Float) :
    logisticStep features classes rate rows zero m = .ok (Logistic.step rate rows zero m) ∧
      (Logistic.step rate rows zero m).Fits features classes := by
  obtain ⟨hsums, hshaped⟩ := gradient_eq hm hzero hrows
  have hnumbers : ∀ row ∈ (m.sums rows zero).weights, row.length = features := hshaped.length_row
  constructor
  · rw [logisticStep, bind_ok hsums, bind_ok (zipPlaces_eq hm.shaped.length_bias hshaped.length_bias _),
      bind_ok (combine_eq hm.shaped hshaped.length_weights hnumbers _)]
    rfl
  · exact ⟨hm.length_means, hm.length_scales,
      Shaped.combine hm.shaped hshaped.length_weights hnumbers
        (fun _ w sum => w - rate * (sum / count rows.length + Logistic.penalty * w)) hshaped.length_bias _⟩

theorem logisticSteps_eq {zero : Logistic.Gradient} (hzero : Shaped features classes zero.weights zero.bias)
    {rows : List (List Float × Nat)} (hrows : ∀ pair ∈ rows, pair.1.length = features) (rate : Float) (n : Nat)
    {m : Logistic} (hm : m.Fits features classes) :
    logisticSteps features classes rate rows zero n m = .ok (Logistic.steps rate rows zero n m) ∧
      (Logistic.steps rate rows zero n m).Fits features classes := by
  induction n generalizing m with
  | zero => exact ⟨rfl, hm⟩
  | succ n ih =>
      obtain ⟨hstep, hfits⟩ := logisticStep_eq hm hzero hrows rate
      rw [logisticSteps, bind_ok hstep]
      exact ih hfits

/-! ## Fitting and asking -/

/-- The samples' standardized rows with their classes. -/
def standardizeAll (means scales : List Float) (samples : List Sample) : Guarded (List (List Float × Nat)) :=
  samples.mapM fun s => do
    let row ← standardize means scales s.features.toList
    pure (row, s.label)

/-- The scores fitted to samples. -/
def fitLogistic (classes iterations : Nat) (rate : Float) (samples : List Sample) : Guarded Logistic := do
  let features := featureCount samples
  let columns ← (List.range features).mapM fun j => samples.mapM fun s => feature s.features j
  let standards := columns.map Logistic.standard
  let means := standards.map Prod.fst
  let scales := standards.map Prod.snd
  let rows ← standardizeAll means scales samples
  let noWeights := List.replicate classes (List.replicate features 0.0)
  let noBias := List.replicate classes 0.0
  logisticSteps features classes rate rows ⟨noWeights, noBias⟩ iterations ⟨means, scales, noWeights, noBias⟩

/-- The class of a row. -/
def predictLogistic (m : Logistic) (row : Features) : Guarded Nat := do
  let standardized ← standardize m.means m.scales row.toList
  argmax (Logistic.softmax (Logistic.scores m.weights m.bias standardized))

theorem standardizeAll_eq {means scales : List Float} (hmeans : means.length = features)
    (hscales : scales.length = features) (hfit : ∀ s ∈ samples, s.Fits features classes) :
    standardizeAll means scales samples =
        .ok (samples.map fun s => (Logistic.standardize means scales s.features.toList, s.label)) ∧
      ∀ pair ∈ samples.map fun s => (Logistic.standardize means scales s.features.toList, s.label),
        pair.1.length = features := by
  have hlength : ∀ s ∈ samples, s.features.toList.length = features := by
    intro s hs
    rw [Array.length_toList]
    exact (hfit s hs).size_eq
  constructor
  · apply mapM_eq
    intro s hs
    exact bind_ok (standardize_eq (hmeans.trans (hlength s hs).symm) (hscales.trans (hlength s hs).symm)) _
  · intro pair hpair
    obtain ⟨s, hs, rfl⟩ := List.mem_map.1 hpair
    rw [length_standardize (hmeans.trans (hlength s hs).symm) (hscales.trans (hlength s hs).symm)]
    exact hlength s hs

/-- The scores are fitted without a breakdown to samples of one number of features. -/
theorem fitLogistic_eq (hcount : featureCount samples = features) (hfit : ∀ s ∈ samples, s.Fits features classes)
    (iterations : Nat) (rate : Float) :
    fitLogistic classes iterations rate samples = .ok (Logistic.fit classes iterations rate samples) ∧
      (Logistic.fit classes iterations rate samples).Fits features classes := by
  subst hcount
  have hcolumns : ∀ j ∈ List.range (featureCount samples),
      samples.mapM (fun s => feature s.features j) = .ok (samples.map fun s => s.value j) := by
    intro j hj
    apply mapM_eq
    intro s hs
    exact value_eq (hfit s hs) (List.mem_range.1 hj)
  have hmeans : ((((List.range (featureCount samples)).map fun j => samples.map fun s => s.value j).map
      Logistic.standard).map Prod.fst).length = featureCount samples := by simp
  have hscales : ((((List.range (featureCount samples)).map fun j => samples.map fun s => s.value j).map
      Logistic.standard).map Prod.snd).length = featureCount samples := by simp
  have hzero := shaped_replicate (featureCount samples) classes
  obtain ⟨hrows, hlengths⟩ := standardizeAll_eq hmeans hscales hfit
  rw [fitLogistic, bind_ok (mapM_eq hcolumns)]
  simp only [bind_ok hrows]
  exact logisticSteps_eq hzero hlengths rate iterations ⟨hmeans, hscales, hzero⟩

theorem predictLogistic_eq {m : Logistic} (hm : m.Fits features classes) (hclasses : 0 < classes) {row : Features}
    (hrow : row.size = features) :
    predictLogistic m row = .ok (m.predict row) ∧ m.predict row < classes := by
  have hlength : row.toList.length = features := by
    rw [Array.length_toList]
    exact hrow
  constructor
  · rw [predictLogistic, bind_ok (standardize_eq (hm.length_means.trans hlength.symm)
      (hm.length_scales.trans hlength.symm)), argmax_eq]
    rfl
  · exact argmax_lt_of_length (length_softmax_scores hm.shaped _) hclasses

end Guarded
end TableFlow
