import TableFlow.Json.Value
import TableFlow.Text.Blank
import TableFlow.Text.Name

/-!
# Algorithms

The algorithms that scripts can name, their other names, and the parameters that mean something for each.
-/

namespace TableFlow
namespace Learn

/-- A way to fit a classifier. -/
inductive Algorithm where
  | decisionTree
  | randomForest
  | boosting
  | knn
  | logisticRegression
  | naiveBayes
  deriving DecidableEq, Repr, Inhabited

namespace Algorithm

/-- Every algorithm. -/
def all : List Algorithm :=
  [.decisionTree, .randomForest, .boosting, .knn, .logisticRegression, .naiveBayes]

/-- The name of an algorithm. -/
def name : Algorithm → String
  | .decisionTree => "decision_tree"
  | .randomForest => "random_forest"
  | .boosting => "boosting"
  | .knn => "knn"
  | .logisticRegression => "logistic_regression"
  | .naiveBayes => "naive_bayes"

/-- The other names of an algorithm. -/
def aliases : Algorithm → List String
  | .decisionTree => ["tree", "cart"]
  | .randomForest => ["forest", "rf"]
  | .boosting => ["xgboost", "adaboost", "gradient_boosting"]
  | .knn => ["k_nearest_neighbors"]
  | .logisticRegression => ["logistic", "logreg"]
  | .naiveBayes => ["gaussian_nb", "nb"]

/-- A name with hyphens read as underscores, without blanks around it and in lower case. -/
def normalName (name : String) : String :=
  String.ofList ((Text.foldName (Text.trim name)).toList.map fun c => if c = '-' then '_' else c)

/-- The algorithm of a name. -/
def ofName? (name : String) : Option Algorithm :=
  let wanted := normalName name
  all.find? fun a => a.name == wanted || a.aliases.contains wanted

/-- The parameters that mean something for an algorithm. -/
def parameters : Algorithm → List String
  | .decisionTree => ["max_depth", "seed"]
  | .randomForest => ["trees", "max_depth", "seed"]
  | .boosting => ["trees", "max_depth", "learning_rate", "seed"]
  | .knn => ["k"]
  | .logisticRegression => ["iterations", "learning_rate"]
  | .naiveBayes => []

/-- A parameter means something for an algorithm. -/
def accepts (a : Algorithm) (parameter : String) : Bool :=
  a.parameters.contains parameter

end Algorithm

/-- The parameters of a training step; absent ones have defaults that depend on the algorithm. -/
structure Params where
  trees : Option Nat := none
  maxDepth : Option Nat := none
  k : Option Nat := none
  iterations : Option Nat := none
  learningRate : Option Float := none
  seed : Option Nat := none
  deriving Inhabited

/-- A number or null. -/
def natOrNull : Option Nat → Json
  | none => .null
  | some n => .nat n

/-- Parameters as an object; absent ones are null. -/
def Params.toJson (p : Params) : Json :=
  .record [
    ("trees", natOrNull p.trees),
    ("max_depth", natOrNull p.maxDepth),
    ("k", natOrNull p.k),
    ("iterations", natOrNull p.iterations),
    ("learning_rate", match p.learningRate with
      | none => .null
      | some x => .float x),
    ("seed", natOrNull p.seed)]

end Learn
end TableFlow
