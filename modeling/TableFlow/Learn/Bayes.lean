import TableFlow.Learn.Sample

/-!
# Naive Bayes

Each class is described by its share of the samples and by the mean and variance of every feature; a row goes
to the class under which it is most likely.
-/

namespace TableFlow
namespace Learn

/-- What is known of one class. -/
structure ClassModel where
  /-- The logarithm of its share. -/
  logShare : Float
  means : List Float
  variances : List Float
  deriving Inhabited

/-- The classes in order. -/
structure Bayes where
  classes : List ClassModel
  deriving Inhabited

namespace Bayes

/-- The ratio of a circle's circumference to its diameter. -/
def pi : Float := 3.141592653589793

/-- Sum rows place by place. -/
def sumRows (features : Nat) (rows : List (List Float)) : List Float :=
  rows.foldl (List.zipWith (· + ·)) (List.replicate features 0.0)

/-- What is added to every variance, so that constant features do no harm. -/
def varianceFloor (samples : List Sample) : Float :=
  let largest := samples.foldl (fun top s => s.features.foldl (fun top v => larger top v.abs) top) 0.0
  1e-9 * larger (square largest) 1.0

/-- What the rows of one class tell, given how many samples there are in all. -/
def classModel (features total : Nat) (floor : Float) (rows : List (List Float)) : ClassModel :=
  let n := rows.length
  let sums := sumRows features rows
  let means := if n = 0 then sums else sums.map (· / count n)
  let squares := sumRows features (rows.map fun row =>
    List.zipWith (fun v mean => square (v - mean)) row means)
  { logShare := if n = 0 then -(1.0 / 0.0) else (count n / count (max total 1)).log
    means
    variances := squares.map fun v => v / count (max n 1) + floor }

/-- The classes of samples. -/
def fit (classes : Nat) (samples : List Sample) : Bayes :=
  let features := featureCount samples
  let floor := varianceFloor samples
  ⟨(List.range classes).map fun k =>
    classModel features samples.length floor
      ((samples.filter fun s => s.label == k).map fun s => s.features.toList)⟩

/-- The logarithm of the likelihood of a value. -/
def logLikelihood (value mean variance : Float) : Float :=
  -0.5 * (2.0 * pi * variance).log - square (value - mean) / (2.0 * variance)

/-- The score of a row under a class. -/
def ClassModel.score (m : ClassModel) (row : List Float) : Float :=
  m.logShare + sumFloats (List.zipWith (fun value (mean, variance) =>
    logLikelihood value mean variance) row (m.means.zip m.variances))

/-- The class of a row. -/
def predict (b : Bayes) (row : Features) : Nat :=
  argmax (b.classes.map fun m => ClassModel.score m row.toList)

end Bayes
end Learn
end TableFlow
