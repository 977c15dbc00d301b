import TableFlow.Command.Args

/-!
# Training and evaluating
-/

namespace TableFlow

open Learn (Algorithm Params)

/-- A step that trains a model. -/
structure Training where
  algorithm : Algorithm
  target : Option String
  params : Params

namespace Training

/-- The column to predict: the one that the line names, or else the one that the context knows. -/
def requireTarget (t : Training) (context : Context) : Except Error String :=
  match t.target <|> context.target with
  | some target => .ok target
  | none =>
    .error (.precondition "target"
      ("no target column designated; use `split <ratio> --target <column>` " ++
        "or `train <algorithm> --target <column>`"))

/-- Train a model on the training part of a context. -/
def run (t : Training) (services : Services) (context : Context) : StepM String := do
  let parts ← StepM.ofExcept context.requireSplit
  let target ← StepM.ofExcept (t.requireTarget context)
  let model ← StepM.ofExcept (services.train
    { table := parts.train
      target
      algorithm := t.algorithm
      params := t.params
      seed := context.seed
      names := context.encodings.get? target })
  let features := model.features.length
  let classes := model.classes.length
  StepM.change fun context => { context with target := some target }
  StepM.change fun context => { context with model := some model }
  StepM.change fun context => { context with metrics := KeyMap.empty }
  pure s!"Trained {model.algorithm} on {model.trainedRows} rows ({features} features, {classes} classes)"

/-- The options that are parameters of algorithms. -/
def parameterNames : List String :=
  ["trees", "max_depth", "k", "iterations", "learning_rate", "seed"]

/-- The first option that is a parameter of other algorithms only. -/
def foreignOption? (a : Algorithm) (o : Options) : Option String :=
  (o.pairs.map Prod.fst).find? fun key => parameterNames.contains key && !a.accepts key

/-- The parameters of a script line. -/
def readParams (i : CommandInput) : Except Error Params := do
  let trees ← i.natural "trees"
  let maxDepth ← i.natural "max_depth"
  let k ← i.natural "k"
  let iterations ← i.natural "iterations"
  let learningRate ← i.number "learning_rate"
  let seed ← i.natural "seed"
  pure { trees, maxDepth, k, iterations, learningRate, seed }

/-- The first parameter that may not be zero and is. -/
def zeroParam? (p : Params) : Option String :=
  ([("trees", p.trees), ("max_depth", p.maxDepth), ("k", p.k), ("iterations", p.iterations)].find?
    fun pair => pair.2 == some 0).map Prod.fst

/-- The learning rate is not positive. -/
def badRate (p : Params) : Bool :=
  match p.learningRate with
  | some rate => rate ≤ 0.0
  | none => false

/-- The step that a script line spells. -/
def ofInput (i : CommandInput) : Except Error Training := do
  let algorithm ← match Algorithm.ofName? i.firstArg with
    | some a => pure a
    | none =>
      let known := ", ".intercalate (Algorithm.all.map Algorithm.name)
      throw (i.error s!"unknown algorithm '{i.firstArg}' (known: {known})")
  match foreignOption? algorithm i.options with
  | some key => throw (i.error s!"--{key} does not apply to {algorithm.name}")
  | none => pure ()
  let params ← readParams i
  match zeroParam? params with
  | some key => throw (i.error s!"--{key} must be at least 1")
  | none => pure ()
  if badRate params then throw (i.error "--learning_rate must be positive")
  pure ⟨algorithm, i.option? "target", params⟩

/-- The specification of the command. -/
def spec : CommandSpec where
  name := "train"
  usage := "train <algorithm> [--target column] [hyper-parameters]"
  minArgs := 1
  maxArgs := some 1
  options := [⟨"target", .text⟩, ⟨"seed", .integer⟩, ⟨"trees", .integer⟩, ⟨"max_depth", .integer⟩,
    ⟨"k", .integer⟩, ⟨"iterations", .integer⟩, ⟨"learning_rate", .number⟩]
  build := fun i => do
    let t ← ofInput i
    pure ⟨"train", t.run⟩

end Training

namespace Evaluation

/-- The headline scores of metrics, as a message shows them. -/
def headline (metrics : Learn.Metrics) : String :=
  let scores := ["accuracy", "f1"].filterMap fun name =>
    ((metrics.get? name).bind Learn.Metric.score?).map fun x => name ++ "=" ++ Decimal.fixed 4 x
  if scores.isEmpty then "no scores" else ", ".intercalate scores

/-- Score the model of a context on its test part. -/
def run (services : Services) (context : Context) : StepM String := do
  let model ← StepM.ofExcept context.requireModel
  let parts ← StepM.ofExcept context.requireSplit
  let metrics ← StepM.ofExcept (services.evaluate model parts.test)
  let scores := headline metrics
  StepM.change fun context => { context with metrics }
  pure s!"Evaluated {model.algorithm} on {parts.test.rowCount} rows: {scores}"

/-- The specification of the command. -/
def spec : CommandSpec where
  name := "evaluate"
  usage := "evaluate"
  build := fun _ => .ok ⟨"evaluate", run⟩

end Evaluation
end TableFlow
