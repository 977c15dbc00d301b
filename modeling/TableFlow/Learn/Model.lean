import TableFlow.Decimal.Reading
import TableFlow.Learn.Algorithm
import TableFlow.Learn.Bayes
import TableFlow.Learn.Boosting
import TableFlow.Learn.Forest
import TableFlow.Learn.Logistic
import TableFlow.Learn.Neighbours

/-!
# Models

A model is a classifier together with the columns it reads and the classes it tells apart.  It is trained on
the rows of a table: every column but the target is a feature and has to be numeric and complete, and the keys
of the target's cells are the classes.
-/

namespace TableFlow
namespace Learn

/-- A fitted classifier. -/
inductive Classifier where
  /-- There is one class only. -/
  | constant
  | tree (tree : Tree)
  | forest (forest : Forest)
  | boosted (stages : Boosted)
  | neighbours (samples : Neighbours)
  | logistic (scores : Logistic)
  | bayes (classes : Bayes)
  deriving Inhabited

/-- The class of a row. -/
def Classifier.predict (row : Features) : Classifier → Nat
  | .constant => 0
  | .tree t => t.predict row
  | .forest f => f.predict row
  | .boosted b => b.predict row
  | .neighbours n => n.predict row
  | .logistic m => m.predict row
  | .bayes b => b.predict row

/-- A classifier with the columns and the classes it was trained on. -/
structure Model where
  algorithm : String
  target : String
  features : List String
  /-- The keys of the classes in the target column. -/
  classKeys : List String
  /-- The names under which the classes are shown. -/
  classes : List String
  trainedRows : Nat
  params : Params := {}
  classifier : Classifier
  deriving Inhabited

namespace Model

/-- The class of a key of the target column. -/
def classIndex? (m : Model) (key : String) : Option Nat :=
  m.classKeys.findIdx? (· == key)

/-- The class of a row. -/
def predict (m : Model) (row : Features) : Nat :=
  m.classifier.predict row

/-- The name of the class of a row. -/
def predictLabel (m : Model) (row : Features) : String :=
  m.classes.getD (m.predict row) ""

/-- What is told about a model. -/
def summary (m : Model) : Json :=
  .record [
    ("algorithm", .string m.algorithm),
    ("target", .string m.target),
    ("features", .strings m.features),
    ("classes", .strings m.classes),
    ("trained_rows", .nat m.trainedRows),
    ("params", m.params.toJson)]

end Model

/-- The features for a target: every other column, all of them numeric. -/
def featureColumns (t : Table) (target : String) : Except Error (List String) := do
  let _ ← t.requireColumn target
  let others := t.columns.zipIdx.filter fun (name, _) => name != target
  let features ← others.mapM fun (name, i) =>
    match t.columnKind i with
    | .numeric => .ok name
    | .categorical =>
      .error (.schema ("feature column '" ++ name ++
        "' is not numeric; run `encode` before `train`"))
    | .empty =>
      .error (.schema ("feature column '" ++ name ++ "' has no values; `drop` it before `train`"))
  if features.isEmpty then
    throw (.schema s!"no feature columns besides target '{target}'")
  pure features

/-- The number that a cell of a column contributes to a row with the given number. -/
def featureValue (name : String) (rowNumber : Nat) : Cell → Except Error Float
  | .number n => .ok n.toFloat
  | .bool b => .ok (if b then 1.0 else 0.0)
  | .null =>
    .error (.schema (s!"missing value in column '{name}' (row {rowNumber}); " ++
      "run `clean` before `train`"))
  | other =>
    let shown := other.compact
    .error (.schema (s!"non-numeric value {shown} in column '{name}'; " ++
      "run `encode` before `train`"))

/-- The features of a row: the columns' names and places, and the row with its number. -/
def rowFeatures (columns : List (String × Nat)) (rowNumber : Nat) (row : List Cell) :
    Except Error Features := do
  let values ← columns.mapM fun (name, i) => featureValue name rowNumber (row.getD i .null)
  pure values.toArray

/-- The features of every row for the named columns. -/
def featureMatrix (t : Table) (columns : List String) : Except Error (List Features) := do
  let places ← columns.mapM t.requireColumn
  t.rows.zipIdx.mapM fun (row, i) => rowFeatures (columns.zip places) (i + 1) row

/-- The class keys of the cells of a target column. -/
def labelKeys (target : String) (cells : List Cell) : Except Error (List String) :=
  cells.zipIdx.mapM fun (cell, i) =>
    match Cell.key? cell with
    | some key => .ok key
    | none =>
      let rowNumber := i + 1
      .error (.schema (s!"missing label in target '{target}' (row {rowNumber}); " ++
        "run `clean` before `train`"))

/-- The place in order of a key that is read as a number. -/
def keyRank (key : String) : Int :=
  Decimal.rank ((Decimal.read? key).getD 0.0)

/-- The distinct keys in order: by value if all of them read as numbers, by their letters otherwise. -/
def sortedKeys (keys : List String) : List String :=
  let unique := (sortKeys (keys.map fun key => (key, ()))).map Prod.fst
  if unique.all fun key => (Decimal.read? key).isSome then
    unique.mergeSort fun a b => keyRank a ≤ keyRank b
  else unique

/-- The name at a code, if a key is a code. -/
def nameOfCode? (names : List String) (key : String) : Option String :=
  (Text.word64? key).bind fun code => names[code]?

/-- The name of a class: the recorded one if its key is a code, else the key. -/
def className (names : Option (List String)) (key : String) : String :=
  (nameOfCode? (names.getD []) key).getD key

/-- What a model is to be trained on and how. -/
structure Request where
  table : Table
  target : String
  algorithm : Algorithm
  params : Params
  /-- The seed unless the parameters give one. -/
  seed : Nat
  /-- The names of the classes by their codes, if the target holds codes. -/
  names : Option (List String)

/-- The classifier of samples. -/
def fitClassifier (defaultTrees classes seed : Nat) (algorithm : Algorithm) (p : Params)
    (samples : List Sample) : Classifier :=
  match algorithm with
  | .decisionTree =>
    .tree (Tree.fit (.ofDepth p.maxDepth) classes samples (.ofSeed seed)).1
  | .randomForest =>
    .forest (Forest.fit classes (p.trees.getD defaultTrees) p.maxDepth seed samples)
  | .boosting =>
    .boosted (Boosted.fit classes (p.trees.getD 50) (p.maxDepth.getD 2) (p.learningRate.getD 1.0)
      seed samples)
  | .knn => .neighbours (Neighbours.fit classes (p.k.getD 5) samples)
  | .logisticRegression =>
    .logistic (Logistic.fit classes (p.iterations.getD 300) (p.learningRate.getD 0.1) samples)
  | .naiveBayes => .bayes (Bayes.fit classes samples)

/-- Train a model.  With one class there is nothing to fit. -/
def train (defaultTrees : Nat) (r : Request) : Except Error Model := do
  if r.table.rows.isEmpty then
    throw (.precondition "training rows" "the training split has no rows")
  let features ← featureColumns r.table r.target
  let matrix ← featureMatrix r.table features
  let target ← r.table.requireColumn r.target
  let keys ← labelKeys r.target (r.table.column target)
  let classKeys := sortedKeys keys
  let labels := keys.map fun key => classKeys.idxOf key
  let samples := List.zipWith (fun row label => { features := row, label : Sample }) matrix labels
  let classifier :=
    if classKeys.length = 1 then .constant
    else
      fitClassifier (max defaultTrees 1) classKeys.length (r.params.seed.getD r.seed) r.algorithm
        r.params samples
  pure
    { algorithm := r.algorithm.name
      target := r.target
      features
      classKeys
      classes := classKeys.map (className r.names)
      trainedRows := matrix.length
      params := r.params
      classifier }

end Learn
end TableFlow
