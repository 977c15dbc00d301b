import TableFlow.Learn.Sample

/-!
# Nearest neighbours

The class that is most frequent among the nearest samples.  Distances are Euclidean; samples at the same
distance keep their order, and of equally frequent classes the one of the nearest sample wins.
-/

namespace TableFlow
namespace Learn

/-- The samples to look among, and how many of the nearest ones vote. -/
structure Neighbours where
  samples : List Sample
  classes : Nat
  k : Nat
  deriving Inhabited

namespace Neighbours

/-- At least one and at most all samples vote. -/
def fit (classes k : Nat) (samples : List Sample) : Neighbours :=
  ⟨samples, classes, min (max k 1) (max samples.length 1)⟩

/-- The square of the distance between two rows. -/
def distance (a b : Features) : Float :=
  sumFloats (List.zipWith (fun x y => square (x - y)) a.toList b.toList)

/-- The samples' distances to a row and their classes, the nearest first. -/
def ranked (samples : List Sample) (row : Features) : List (Float × Nat) :=
  (samples.map fun s => (distance s.features row, s.label)).mergeSort fun a b =>
    Decimal.rankLe a.1 b.1

/-- How many of the labels are each class. -/
def tally (classes : Nat) (labels : List Nat) : List Nat :=
  labels.foldl (fun votes label => votes.modify label (· + 1)) (List.replicate classes 0)

/-- The label that comes first of those that are most frequent. -/
def winner (classes : Nat) (labels : List Nat) : Nat :=
  let votes := tally classes labels
  let top := votes.foldl max 0
  (labels.find? fun label => votes.getD label 0 == top).getD 0

/-- The class of a row. -/
def predict (n : Neighbours) (row : Features) : Nat :=
  winner n.classes (((ranked n.samples row).take n.k).map Prod.snd)

end Neighbours
end Learn
end TableFlow
