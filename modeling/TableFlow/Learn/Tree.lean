import TableFlow.Learn.Sample
import TableFlow.Random.Choice

/-!
# Decision trees

A tree that asks at each node whether one feature is at most a threshold, grown on weighted samples.  A node
is split where the Gini impurity of the two sides, weighted, is least; thresholds lie halfway between
neighbouring values of a feature.
-/

namespace TableFlow
namespace Learn

/-- A decision tree. -/
inductive Tree where
  /-- The class of every row that comes here. -/
  | leaf (label : Nat)
  /-- Rows whose feature is at most the threshold go to the first tree, the others to the second. -/
  | split (feature : Nat) (threshold : Float) (below above : Tree)
  deriving Inhabited

namespace Tree

/-- How trees are grown. -/
structure Params where
  /-- The most splits on the way to a leaf. -/
  maxDepth : Nat := 32
  /-- The fewest samples that are split. -/
  minSamples : Nat := 2
  /-- How many randomly chosen features are tried at each node; all of them if absent. -/
  maxFeatures : Option Nat := none
  deriving DecidableEq, Repr, Inhabited

/-- The parameters with a depth that may be absent; it is at least one. -/
def Params.ofDepth (depth : Option Nat) : Params :=
  { maxDepth := max (depth.getD 32) 1 }

/-- The class of a row. -/
def predict (row : Features) : Tree → Nat
  | .leaf label => label
  | .split j threshold below above =>
    if feature row j ≤ threshold then below.predict row else above.predict row

/-- The most splits on the way to a leaf. -/
def depth : Tree → Nat
  | .leaf _ => 0
  | .split _ _ below above => 1 + max below.depth above.depth

/-- The impurity of a mixture of classes with these weights: how often two random draws differ. -/
def gini (weights : List Float) (total : Float) : Float :=
  if total ≤ 0.0 then 0.0 else 1.0 - sumFloats (weights.map fun w => square (w / total))

/-- A way to split a node, with the impurity that is left. -/
structure Cut where
  feature : Nat
  threshold : Float
  impurity : Float
  deriving Inhabited

/-- A node that is to be split: the weights of its classes, their sum, and its impurity. -/
structure Whole where
  weights : List Float
  total : Float
  impurity : Float

/-- A node with these class weights. -/
def Whole.of (weights : List Float) : Whole :=
  let total := sumFloats weights
  ⟨weights, total, gini weights total⟩

/-- A cut is taken if it lowers the impurity of the node and beats the best one so far. -/
def better (node : Whole) (best : Option Cut) (impurity : Float) : Bool :=
  impurity < node.impurity - 1e-12 &&
    match best with
    | none => true
    | some cut => impurity < cut.impurity

/-- The impurity of both sides of a cut, given the class weights of the one below and their sum. -/
def sidesImpurity (node : Whole) (below : List Float) (belowTotal : Float) : Float :=
  let above := List.zipWith (· - ·) node.weights below
  let aboveTotal := node.total - belowTotal
  (belowTotal * gini below belowTotal + aboveTotal * gini above aboveTotal) / node.total

/-- Try a cut between each two neighbours of samples in the order of a feature. -/
def tryCuts (node : Whole) (j : Nat) : (below : List Float) → (belowTotal : Float) →
    (best : Option Cut) → List Sample → Option Cut
  | below, belowTotal, best, s :: next :: rest =>
    let below := addAt below s.label s.weight
    let belowTotal := belowTotal + s.weight
    let here := s.value j
    let there := next.value j
    let best :=
      if here == there then best
      else
        let impurity := sidesImpurity node below belowTotal
        if better node best impurity then some ⟨j, (here + there) / 2.0, impurity⟩ else best
    tryCuts node j below belowTotal best (next :: rest)
  | _, _, best, _ => best

/-- The samples in the order of a feature; equal ones keep their order. -/
def sortBy (j : Nat) (samples : List Sample) : List Sample :=
  samples.mergeSort fun s t => Decimal.rankLe (s.value j) (t.value j)

/-- Try the cuts of each feature in turn; the order of the samples carries over from one to the next. -/
def tryFeatures (node : Whole) (classes : Nat) : List Nat → List Sample → Option Cut → Option Cut
  | [], _, best => best
  | j :: rest, samples, best =>
    let samples := sortBy j samples
    tryFeatures node classes rest samples
      (tryCuts node j (List.replicate classes 0.0) 0.0 best samples)

/-- The features to try at a node. -/
def candidates (params : Params) (features : Nat) (g : Random.Generator) :
    List Nat × Random.Generator :=
  match params.maxFeatures with
  | some m => if m < features then Random.sample features (max m 1) g else (List.range features, g)
  | none => (List.range features, g)

/-- The best cut of a node, if one lowers its impurity. -/
def bestCut (params : Params) (features classes : Nat) (samples : List Sample)
    (weights : List Float) (g : Random.Generator) : Option Cut × Random.Generator :=
  if features = 0 then (none, g)
  else
    let (tried, g) := candidates params features g
    (tryFeatures (.of weights) classes tried samples none, g)

/-- At most one class has any weight. -/
def isPure (weights : List Float) : Bool :=
  weights.countP (fun w => 0.0 < w) ≤ 1

/-- Grow a tree of at most the given depth on samples. -/
def grow (params : Params) (features classes : Nat) : (depth : Nat) → List Sample →
    Random.Generator → Tree × Random.Generator
  | 0, samples, g => (.leaf (argmax (classWeights classes samples)), g)
  | depth + 1, samples, g =>
    let weights := classWeights classes samples
    let label := argmax weights
    if isPure weights || samples.length < params.minSamples then (.leaf label, g)
    else
      match bestCut params features classes samples weights g with
      | (none, g) => (.leaf label, g)
      | (some cut, g) =>
        let (low, high) := samples.partition fun s => s.value cut.feature ≤ cut.threshold
        let (below, g) := grow params features classes depth low g
        let (above, g) := grow params features classes depth high g
        (.split cut.feature cut.threshold below above, g)

/-- The tree of samples. -/
def fit (params : Params) (classes : Nat) (samples : List Sample) (g : Random.Generator) :
    Tree × Random.Generator :=
  grow params (featureCount samples) classes params.maxDepth samples g

end Tree
end Learn
end TableFlow
