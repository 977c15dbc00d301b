import TableFlow.Counting
import TableFlow.Learn.Model

/-!
# Classification reports

How well predictions meet the true classes: the confusion matrix, precision and recall of each class, and
their means over the classes that occur.  A report becomes the metrics of a run.
-/

namespace TableFlow
namespace Learn

/-- A result of an evaluation. -/
inductive Metric where
  | score (value : Float)
  | report (value : Json)
  deriving Inhabited

/-- The score, unless the metric is a report. -/
def Metric.score? : Metric → Option Float
  | .score x => some x
  | .report _ => none

/-- A metric as a JSON value. -/
def Metric.toJson : Metric → Json
  | .score x => .float x
  | .report j => j

/-- The results of an evaluation by name. -/
abbrev Metrics := KeyMap Metric

/-- Metrics as an object. -/
def metricsToJson (m : Metrics) : Json :=
  .object (m.entries.map fun (name, metric) => (name, metric.toJson))

/-- The quality of the predictions of one class. -/
structure ClassStats where
  precision : Float
  sensitivity : Float
  f1 : Float
  /-- How many rows truly are of the class. -/
  support : Nat
  deriving Inhabited

/-- One class as an object. -/
def ClassStats.toJson (c : ClassStats) : Json :=
  .record [("precision", .float c.precision), ("recall", .float c.sensitivity), ("f1", .float c.f1),
    ("support", .nat c.support)]

/-- The quality of predictions. -/
structure Report where
  samples : Nat
  accuracy : Float := 0.0
  precisionMacro : Float := 0.0
  recallMacro : Float := 0.0
  f1Macro : Float := 0.0
  classes : KeyMap ClassStats := KeyMap.empty
  /-- Rows are true classes, columns predicted ones. -/
  confusion : List (List Nat)
  labels : List String
  /-- How many rows have a class that the model does not know. -/
  unseen : Nat := 0
  deriving Inhabited

namespace Report

/-- A row that was predicted: its true class, if the model knows it, and the predicted one. -/
abbrev Outcome := Option Nat × Nat

/-- How many rows of one class were predicted as another. -/
def confused (outcomes : List Outcome) (truth predicted : Nat) : Nat :=
  outcomes.countP fun o => o.1 == some truth && o.2 == predicted

/-- How many rows were predicted as a class. -/
def predictedCount (outcomes : List Outcome) (predicted : Nat) : Nat :=
  outcomes.countP fun o => o.2 == predicted

/-- The confusion matrix of outcomes with `k` classes. -/
def matrix (outcomes : List Outcome) (k : Nat) : List (List Nat) :=
  (List.range k).map fun i => (List.range k).map fun j => confused outcomes i j

/-- A quotient of counts; nothing of nothing is zero. -/
def ratio (numerator denominator : Nat) : Float :=
  if denominator = 0 then 0.0 else count numerator / count denominator

/-- The harmonic mean of precision and recall. -/
def harmonic (precision sensitivity : Float) : Float :=
  if 0.0 < precision + sensitivity then
    2.0 * precision * sensitivity / (precision + sensitivity)
  else 0.0

/-- How many rows truly are of a class. -/
def supportOf (confusion : List (List Nat)) (i : Nat) : Nat :=
  total (confusion.getD i [])

/-- How many rows of a class were predicted as it. -/
def hits (confusion : List (List Nat)) (i : Nat) : Nat :=
  (confusion.getD i []).getD i 0

/-- The quality of one class. -/
def classStats (outcomes : List Outcome) (confusion : List (List Nat)) (i : Nat) : ClassStats :=
  let support := supportOf confusion i
  let precision := ratio (hits confusion i) (predictedCount outcomes i)
  let sensitivity := ratio (hits confusion i) support
  ⟨precision, sensitivity, harmonic precision sensitivity, support⟩

/-- The mean of some figures of the classes that occur; the sum starts from zero. -/
def macroMean (figures : List Float) : Float :=
  if figures.isEmpty then 0.0 else figures.foldl (· + ·) 0.0 / count figures.length

/-- The report of outcomes of a number of rows.  Without any row all figures are zero and no class is
described. -/
def ofOutcomes (samples : Nat) (outcomes : List Outcome) (labels : List String) : Report :=
  let confusion := matrix outcomes labels.length
  if samples = 0 then { samples, confusion, labels }
  else
    let stats := (List.range labels.length).map fun i => (i, classStats outcomes confusion i)
    let occurring := (stats.filter fun (i, c) =>
      0 < c.support || 0 < predictedCount outcomes i).map Prod.snd
    let correct := outcomes.countP fun o => o.1 == some o.2
    { samples
      accuracy := count correct / count samples
      precisionMacro := macroMean (occurring.map ClassStats.precision)
      recallMacro := macroMean (occurring.map ClassStats.sensitivity)
      f1Macro := macroMean (occurring.map ClassStats.f1)
      classes := KeyMap.ofList (labels.zip (stats.map Prod.snd))
      confusion
      labels
      unseen := outcomes.countP fun o => o.1.isNone }

/-- The report of true and predicted classes. -/
def compute (truth : List (Option Nat)) (predicted : List Nat) (labels : List String) : Report :=
  ofOutcomes truth.length (truth.zip predicted) labels

/-- A report as an object. -/
def toJson (r : Report) : Json :=
  .record [
    ("samples", .nat r.samples),
    ("accuracy", .float r.accuracy),
    ("precision_macro", .float r.precisionMacro),
    ("recall_macro", .float r.recallMacro),
    ("f1_macro", .float r.f1Macro),
    ("classes", .object (r.classes.entries.map fun (name, c) => (name, c.toJson))),
    ("confusion_matrix", .array (r.confusion.map fun row => .array (row.map .nat))),
    ("labels", .strings r.labels),
    ("unseen_labels", .nat r.unseen)]

/-- The metrics of a report: the headline scores, and the whole of it. -/
def toMetrics (r : Report) : Metrics :=
  KeyMap.ofList [
    ("accuracy", .score r.accuracy),
    ("precision", .score r.precisionMacro),
    ("recall", .score r.recallMacro),
    ("f1", .score r.f1Macro),
    ("test_samples", .score (count r.samples)),
    ("report", .report r.toJson)]

end Report

/-- Score a model on rows it was not trained on. -/
def evaluate (m : Model) (test : Table) : Except Error Metrics := do
  if test.rows.isEmpty then
    throw (.precondition "held-out split"
      "the test split has no rows; use a split ratio that leaves rows for evaluation")
  let features ← featureMatrix test m.features
  let target ← test.requireColumn m.target
  let truth := (test.column target).map fun cell => (Cell.key? cell).bind m.classIndex?
  pure (Report.compute truth (features.map m.predict) m.classes).toMetrics

end Learn
end TableFlow
