import TableFlow.Counting
import TableFlow.Learn.Tree

/-!
# Random forests

Trees grown on random draws of the samples, each trying a random choice of features at each node; the class
with the most votes wins.  Every tree has a generator of its own, so their order of growth does not matter.
-/

namespace TableFlow
namespace Learn

/-- A forest: its trees and the number of classes they vote for. -/
structure Forest where
  trees : List Tree
  classes : Nat
  deriving Inhabited

namespace Forest

/-- How often each of `n` samples is drawn in some draws. -/
def draw (n : Nat) : (draws : Nat) → Array Float → Random.Generator →
    Array Float × Random.Generator
  | 0, counts, g => (counts, g)
  | draws + 1, counts, g =>
    let (i, g) := g.below64 n
    draw n draws (counts.modify i (· + 1.0)) g

/-- The samples that were drawn, weighted by how often. -/
def drawn (samples : List Sample) (counts : Array Float) : List Sample :=
  samples.zipIdx.filterMap fun (s, i) =>
    let weight := counts.getD i 0.0
    if 0.0 < weight then some { s with weight } else none

/-- The tree of one member of the forest. -/
def member (params : Tree.Params) (classes : Nat) (samples : List Sample) (seed : Nat) : Tree :=
  let n := samples.length
  let (counts, g) := draw n n (Array.replicate n 0.0) (.ofSeed seed)
  (Tree.fit params classes (drawn samples counts) g).1

/-- How many features each node tries: the square root of their number, rounded up. -/
def featuresTried (features : Nat) : Nat :=
  max (Decimal.toWord64 (count features).sqrt.ceil) 1

/-- The forest of samples. -/
def fit (classes trees : Nat) (maxDepth : Option Nat) (seed : Nat) (samples : List Sample) :
    Forest :=
  let params :=
    { Tree.Params.ofDepth maxDepth with maxFeatures := some (featuresTried (featureCount samples)) }
  { trees := (List.range (max trees 1)).map fun i =>
      member params classes samples ((seed + i) % wordBound)
    classes }

/-- The class of a row. -/
def predict (f : Forest) (row : Features) : Nat :=
  argmax (f.trees.foldl (fun votes tree => addAt votes (tree.predict row) 1.0)
    (List.replicate f.classes 0.0))

end Forest
end Learn
end TableFlow
