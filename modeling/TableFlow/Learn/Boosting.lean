import TableFlow.Learn.Tree

/-!
# Boosted trees

Shallow trees fitted one after another, each to the samples that those before it got wrong: after each stage
the weights of the missed samples grow.  A stage votes with a weight that grows with its accuracy.
-/

namespace TableFlow
namespace Learn

/-- Boosted trees: the stages with their votes, and the number of classes. -/
structure Boosted where
  stages : List (Tree × Float)
  classes : Nat
  deriving Inhabited

namespace Boosted

/-- What fitting needs to know besides the weights. -/
structure Settings where
  params : Tree.Params
  classes : Nat
  learningRate : Float
  samples : List Sample

/-- The samples with the given weights. -/
def weighted (samples : List Sample) (weights : List Float) : List Sample :=
  List.zipWith (fun s w => { s with weight := w }) samples weights

/-- The share of the weight that lies on missed samples. -/
def errorRate (weights : List Float) (missed : List Bool) : Float :=
  sumFloats (((weights.zip missed).filter fun pair => pair.2).map Prod.fst) / sumFloats weights

/-- The weights after a stage with the given vote: those of missed samples grow, and the sum is one. -/
def reweigh (vote : Float) (weights : List Float) (missed : List Bool) : List Float :=
  let grown := List.zipWith (fun w m => if m then w * vote.exp else w) weights missed
  let total := sumFloats grown
  grown.map (· / total)

/-- The vote of a stage with the given share of error. -/
def vote (s : Settings) (error : Float) : Float :=
  s.learningRate * (((1.0 - error) / error).log + (count (s.classes - 1)).log)

/-- The stages of the remaining rounds.  A stage without error ends the fitting; one that is no better than
chance ends it too and counts only if it is the first. -/
def stagesFrom (s : Settings) : (rounds : Nat) → (first : Bool) → (weights : List Float) →
    Random.Generator → List (Tree × Float)
  | 0, _, _, _ => []
  | rounds + 1, first, weights, g =>
    let (tree, g) := Tree.fit s.params s.classes (weighted s.samples weights) g
    let missed := s.samples.map fun sample => tree.predict sample.features != sample.label
    let error := errorRate weights missed
    if error ≤ 1e-10 then [(tree, 1.0)]
    else if 1.0 - 1.0 / count s.classes ≤ error then if first then [(tree, 1.0)] else []
    else
      let vote := vote s error
      (tree, vote) :: stagesFrom s rounds false (reweigh vote weights missed) g

/-- The boosted trees of samples. -/
def fit (classes rounds maxDepth : Nat) (learningRate : Float) (seed : Nat)
    (samples : List Sample) : Boosted :=
  let n := samples.length
  let settings : Settings :=
    { params := .ofDepth (some maxDepth), classes, learningRate, samples }
  { stages := stagesFrom settings (max rounds 1) true (List.replicate n (1.0 / count n))
      (.ofSeed seed)
    classes }

/-- The class of a row. -/
def predict (b : Boosted) (row : Features) : Nat :=
  argmax (b.stages.foldl (fun scores (tree, vote) => addAt scores (tree.predict row) vote)
    (List.replicate b.classes 0.0))

end Boosted
end Learn
end TableFlow
