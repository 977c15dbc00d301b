import TableFlow.Learn.Sample

/-!
# Logistic regression

A linear score for each class on standardized features, fitted by steps down the gradient of the loss over
all samples, with a small penalty on large weights.
-/

namespace TableFlow
namespace Learn

/-- The linear scores: what standardizes the features, and the weights and bias of each class. -/
structure Logistic where
  means : List Float
  scales : List Float
  weights : List (List Float)
  bias : List Float
  deriving Inhabited

namespace Logistic

/-- The penalty on weights. -/
def penalty : Float := 1e-4

/-- The mean of a column and what to divide it by: its standard deviation, or one for a constant column. -/
def standard (column : List Float) : Float × Float :=
  let n := count column.length
  let mean := sumFloats column / n
  let variance := sumFloats (column.map fun v => square (v - mean)) / n
  (mean, if 1e-12 < variance then variance.sqrt else 1.0)

/-- A row with its features standardized. -/
def standardize (means scales row : List Float) : List Float :=
  List.zipWith (· / ·) (List.zipWith (· - ·) row means) scales

/-- The scores of a standardized row. -/
def scores (weights : List (List Float)) (bias row : List Float) : List Float :=
  List.zipWith (fun w b => b + sumFloats (List.zipWith (· * ·) w row)) weights bias

/-- Scores as probabilities. -/
def softmax (scores : List Float) : List Float :=
  let top := scores.foldl larger (-(1.0 / 0.0))
  let powers := scores.map fun s => (s - top).exp
  let total := sumFloats powers
  powers.map (· / total)

/-- How far the probabilities of a row are from its class. -/
def residuals (probabilities : List Float) (label : Nat) : List Float :=
  probabilities.zipIdx.map fun (p, k) => p - (if k = label then 1.0 else 0.0)

/-- Sums over the rows: of the residuals, and of the residuals times the features. -/
structure Gradient where
  weights : List (List Float)
  bias : List Float

/-- Add one row to the sums. -/
def Gradient.add (g : Gradient) (deltas row : List Float) : Gradient :=
  { weights := List.zipWith (fun sums delta =>
      List.zipWith (fun sum x => sum + delta * x) sums row) g.weights deltas
    bias := List.zipWith (· + ·) g.bias deltas }

/-- One step down the gradient. -/
def step (rate : Float) (rows : List (List Float × Nat)) (zero : Gradient) (m : Logistic) :
    Logistic :=
  let n := count rows.length
  let gradient := rows.foldl (fun g (row, label) =>
    g.add (residuals (softmax (scores m.weights m.bias row)) label) row) zero
  { m with
    bias := List.zipWith (fun b sum => b - rate * sum / n) m.bias gradient.bias
    weights := List.zipWith (fun ws sums =>
      List.zipWith (fun w sum => w - rate * (sum / n + penalty * w)) ws sums)
      m.weights gradient.weights }

/-- A number of steps. -/
def steps (rate : Float) (rows : List (List Float × Nat)) (zero : Gradient) :
    Nat → Logistic → Logistic
  | 0, m => m
  | n + 1, m => steps rate rows zero n (step rate rows zero m)

/-- The scores fitted to samples. -/
def fit (classes iterations : Nat) (rate : Float) (samples : List Sample) : Logistic :=
  let features := featureCount samples
  let columns := (List.range features).map fun j => samples.map fun s => s.value j
  let standards := columns.map standard
  let means := standards.map Prod.fst
  let scales := standards.map Prod.snd
  let rows := samples.map fun s => (standardize means scales s.features.toList, s.label)
  let noWeights := List.replicate classes (List.replicate features 0.0)
  let noBias := List.replicate classes 0.0
  steps rate rows ⟨noWeights, noBias⟩ iterations ⟨means, scales, noWeights, noBias⟩

/-- The class of a row. -/
def predict (m : Logistic) (row : Features) : Nat :=
  argmax (softmax (scores m.weights m.bias (standardize m.means m.scales row.toList)))

end Logistic
end Learn
end TableFlow
