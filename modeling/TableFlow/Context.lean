import TableFlow.Learn.Report

/-!
# Contexts

What the steps of a run work on.  Each part is there once a step has produced it, and what was derived from a
part goes when the part is replaced:

    load → (clean | encode | scale | drop | select)* → split → train → evaluate
-/

namespace TableFlow

open Learn (Metrics Model)

/-- The two parts of a table, for training and for testing. -/
structure Partition where
  train : Table
  test : Table
  trainFraction : Float
  seed : Nat
  deriving Inhabited

/-- How far a run has come. -/
inductive Readiness where
  | empty
  | loaded
  | prepared
  | split
  | trained
  | evaluated
  deriving DecidableEq, Repr, Inhabited

/-- The name of a stage. -/
def Readiness.name : Readiness → String
  | .empty => "empty"
  | .loaded => "loaded"
  | .prepared => "prepared"
  | .split => "split"
  | .trained => "trained"
  | .evaluated => "evaluated"

/-- The state of a run. -/
structure Context where
  dataset : Option Table := none
  split : Option Partition := none
  target : Option String := none
  model : Option Model := none
  metrics : Metrics := KeyMap.empty
  /-- The messages of the steps that have succeeded, in order. -/
  log : List String := []
  /-- The categories of the columns that hold codes; a code is a place in its list. -/
  encodings : KeyMap (List String) := KeyMap.empty
  /-- What has been done to the table since it was loaded. -/
  transforms : List String := []
  seed : Nat := 0
  deriving Inhabited

namespace Context

/-- The state before the first step. -/
def start (seed : Nat) : Context := { seed }

/-- The table, which has to be loaded. -/
def requireDataset (c : Context) : Except Error Table :=
  match c.dataset with
  | some t => .ok t
  | none => .error (.precondition "dataset" "no dataset is loaded; run `load <path>` first")

/-- The table for a command that changes it, which has to run before the split. -/
def requireUnsplit (c : Context) (command : String) : Except Error Table := do
  let t ← c.requireDataset
  if c.split.isSome then
    throw (.precondition "unsplit dataset"
      ("`" ++ command ++
        "` must run before `split`; the dataset has already been partitioned"))
  pure t

/-- The parts of the table, which has to be split. -/
def requireSplit (c : Context) : Except Error Partition :=
  match c.split with
  | some p => .ok p
  | none =>
    .error (.precondition "split" "the dataset is not split; run `split <ratio>` first")

/-- The model, which has to be trained. -/
def requireModel (c : Context) : Except Error Model :=
  match c.model with
  | some m => .ok m
  | none =>
    .error (.precondition "model" "no model is trained; run `train <algorithm>` first")

/-- Take a newly loaded table; all that came from the one before goes. -/
def replaceDataset (c : Context) (t : Table) : Context :=
  { c with
    dataset := some t
    split := none
    target := none
    model := none
    metrics := KeyMap.empty
    encodings := KeyMap.empty
    transforms := [] }

/-- Note what was done to the table. -/
def noted (c : Context) (change : String) : Context :=
  { c with transforms := c.transforms ++ [change] }

/-- The last part that is there. -/
def readiness (c : Context) : Readiness :=
  if !c.metrics.isEmpty then .evaluated
  else if c.model.isSome then .trained
  else if c.split.isSome then .split
  else if c.dataset.isNone then .empty
  else if c.transforms.isEmpty then .loaded
  else .prepared

/-- The score of a name. -/
def metric? (c : Context) (name : String) : Option Float :=
  (c.metrics.get? name).bind Learn.Metric.score?

/-- A value that may be absent. -/
def orNull {α : Type} (toJson : α → Json) : Option α → Json
  | none => .null
  | some a => toJson a

/-- What is told about a context. -/
def summary (c : Context) : Json :=
  .record [
    ("readiness", .string c.readiness.name),
    ("dataset", orNull (fun t => .record [
      ("rows", .nat t.rowCount), ("columns", .strings t.columns)]) c.dataset),
    ("split", orNull (fun p => .record [
      ("train_rows", .nat p.train.rowCount),
      ("test_rows", .nat p.test.rowCount),
      ("train_fraction", .float p.trainFraction),
      ("seed", .nat p.seed)]) c.split),
    ("target", .stringOrNull c.target),
    ("model", orNull Model.summary c.model),
    ("metrics", Learn.metricsToJson c.metrics),
    ("transforms", .strings c.transforms),
    ("log", .strings c.log)]

end Context
end TableFlow
