import TableFlow.Proofs.Run.Contexts
import TableFlow.Proofs.Table.Columns

/-!
# Nothing in a context is stale

The split, the model and the metrics are each computed from what stands before them.  Whenever a part is replaced,
all that was computed from it goes, so that in every context of a run each part is what it would be if it were
computed again.

Main results:

- Definition `Fresh`: every part of a context describes the parts before it as they are now.
- Theorem `Fresh.effect`: an instruction that succeeds keeps a context fresh.
- Theorem `fresh_after_any_steps`: every context of a run is fresh.
-/

namespace TableFlow

open Learn (Algorithm Model Request)

/-- The request that training a model with an algorithm again would make in a context. -/
def requestAgain (c : Context) (parts : Partition) (m : Model) (a : Algorithm) : Request where
  table := parts.train
  target := m.target
  algorithm := a
  params := m.params
  seed := c.seed
  names := c.encodings.get? m.target

/-- Every part of a context describes the parts before it as they are now. -/
structure Fresh (defaultTrees : Nat) (c : Context) : Prop where
  split_of : ∀ parts, c.split = some parts →
    ∃ t, c.dataset = some t ∧ parts = Splitting.partition t parts.trainFraction parts.seed
  target_of : ∀ target, c.target = some target →
    c.split.isSome = true ∧ ∃ t, c.dataset = some t ∧ target ∈ t.columns
  model_of : ∀ m, c.model = some m → ∃ parts, c.split = some parts ∧ c.target = some m.target ∧
    ∃ a : Algorithm, a.name = m.algorithm ∧
      Learn.train defaultTrees (requestAgain c parts m a) = .ok m
  metrics_of : c.metrics.isEmpty = false → ∃ m parts, c.model = some m ∧ c.split = some parts ∧
    Learn.evaluate m parts.test = .ok c.metrics

/-! ## What the trainer returns -/

/-- A model tells what it was trained for, and its target is a column of the table. -/
theorem train_eq_ok {defaultTrees : Nat} {r : Request} {m : Model}
    (h : Learn.train defaultTrees r = .ok m) :
    m.algorithm = r.algorithm.name ∧ m.target = r.target ∧ m.params = r.params ∧
      r.target ∈ r.table.columns := by
  unfold Learn.train at h
  split at h
  · cases h
  · obtain ⟨features, _, h⟩ := bind_eq_ok.1 h
    obtain ⟨matrix, _, h⟩ := bind_eq_ok.1 h
    obtain ⟨target, htarget, h⟩ := bind_eq_ok.1 h
    obtain ⟨keys, _, h⟩ := bind_eq_ok.1 h
    have hmem := Table.mem_of_columnIndex? (Table.requireColumn_eq_ok_iff.1 htarget)
    cases h
    exact ⟨rfl, rfl, rfl, hmem⟩

/-- A table that passes the check of a splitting step has the target that the step names. -/
theorem mem_of_check {how : Splitting} {t : Table} (h : how.check t = .ok ()) {target : String}
    (htarget : how.target = some target) : target ∈ t.columns := by
  unfold Splitting.check at h
  split at h
  · cases h
  · rw [htarget] at h
    cases hfound : t.requireColumn target with
    | ok i => exact Table.mem_of_columnIndex? (Table.requireColumn_eq_ok_iff.1 hfound)
    | error e =>
        simp only [hfound] at h
        cases h

/-! ## Instructions keep contexts fresh -/

namespace Fresh

variable {n : Nat} {c c' : Context}

/-- A context without a split, a target, a model and metrics is fresh. -/
theorem of_unsplit (hsplit : c.split = none) (htarget : c.target = none) (hmodel : c.model = none)
    (hmetrics : c.metrics.isEmpty = true) : Fresh n c where
  split_of := by
    intro parts h
    rw [hsplit] at h
    cases h
  target_of := by
    intro target h
    rw [htarget] at h
    cases h
  model_of := by
    intro m h
    rw [hmodel] at h
    cases h
  metrics_of := by
    intro h
    rw [hmetrics] at h
    cases h

/-- In a fresh context that has no split, nothing is there that would need one. -/
theorem nothing_of_unsplit (h : Fresh n c) (hsplit : c.split = none) :
    c.target = none ∧ c.model = none ∧ c.metrics.isEmpty = true := by
  refine ⟨?_, ?_, ?_⟩
  · cases htarget : c.target with
    | none => rfl
    | some target =>
        have hsome := (h.target_of target htarget).1
        rw [hsplit] at hsome
        cases hsome
  · cases hmodel : c.model with
    | none => rfl
    | some m =>
        obtain ⟨parts, hparts, _⟩ := h.model_of m hmodel
        rw [hsplit] at hparts
        cases hparts
  · cases hmetrics : c.metrics.isEmpty with
    | true => rfl
    | false =>
        obtain ⟨m, parts, _, hparts, _⟩ := h.metrics_of hmetrics
        rw [hsplit] at hparts
        cases hparts

/-- What changes the table and its notes before the split keeps the context fresh. -/
theorem reshape (h : Fresh n c) (hsplit : c.split = none) (hsplit' : c'.split = c.split)
    (htarget : c'.target = c.target) (hmodel : c'.model = c.model)
    (hmetrics : c'.metrics = c.metrics) : Fresh n c' := by
  obtain ⟨hnoTarget, hnoModel, hnoMetrics⟩ := h.nothing_of_unsplit hsplit
  exact of_unsplit (hsplit'.trans hsplit) (htarget.trans hnoTarget) (hmodel.trans hnoModel)
    (hmetrics ▸ hnoMetrics)

/-- Splitting keeps a context fresh: the model and the metrics of the split before go. -/
theorem split (h : Fresh n c) {how : Splitting} {t : Table} (hdata : c.dataset = some t)
    (hcheck : how.check t = .ok ()) :
    Fresh n { c with
      split := some (Splitting.partition t how.trainFraction (how.seed.getD c.seed))
      model := none
      metrics := KeyMap.empty
      target := how.target <|> c.target } where
  split_of := by
    intro parts hparts
    cases hparts
    exact ⟨t, hdata, rfl⟩
  target_of := by
    intro target htarget
    refine ⟨rfl, t, hdata, ?_⟩
    cases hnamed : how.target with
    | some named =>
        rw [hnamed] at htarget
        cases htarget
        exact mem_of_check hcheck hnamed
    | none =>
        rw [hnamed] at htarget
        obtain ⟨_, t', hdata', hmem⟩ := h.target_of target htarget
        rw [hdata] at hdata'
        cases hdata'
        exact hmem
  model_of := by
    intro m hm
    cases hm
  metrics_of := by
    intro hmetrics
    cases hmetrics

/-- Training keeps a context fresh: the metrics of the model before go. -/
theorem train (h : Fresh n c) {how : Training} {parts : Partition} {target : String} {m : Model}
    (hsplit : c.split = some parts)
    (hmodel : Learn.train n
      { table := parts.train
        target
        algorithm := how.algorithm
        params := how.params
        seed := c.seed
        names := c.encodings.get? target } = .ok m) :
    Fresh n { c with target := some target, model := some m, metrics := KeyMap.empty } := by
  obtain ⟨halgorithm, htarget, hparams, hmem⟩ := train_eq_ok hmodel
  obtain ⟨t, hdata, hparts⟩ := h.split_of parts hsplit
  refine ⟨h.split_of, ?_, ?_, ?_⟩
  · intro target' htarget'
    cases htarget'
    refine ⟨by rw [hsplit]; rfl, t, hdata, ?_⟩
    -- The training part has the columns of the table.
    rw [hparts] at hmem
    exact hmem
  · intro m' hm'
    cases hm'
    refine ⟨parts, hsplit, by rw [htarget], how.algorithm, halgorithm.symm, ?_⟩
    rw [requestAgain, htarget, hparams]
    exact hmodel
  · intro hmetrics
    cases hmetrics

/-- Evaluating keeps a context fresh. -/
theorem evaluate (h : Fresh n c) {parts : Partition} {m : Model} {metrics : Learn.Metrics}
    (hmodel : c.model = some m) (hsplit : c.split = some parts)
    (hmetrics : Learn.evaluate m parts.test = .ok metrics) : Fresh n { c with metrics } where
  split_of := h.split_of
  target_of := h.target_of
  model_of := h.model_of
  metrics_of := by
    intro _
    exact ⟨m, parts, hmodel, hsplit, hmetrics⟩

/-- An instruction that succeeds keeps a context fresh. -/
theorem effect {services : Services} (htrain : services.train = Learn.train n)
    (hevaluate : services.evaluate = Learn.evaluate) {todo : Instruction} (h : Fresh n c)
    (heffect : todo.Effect services c c') : Fresh n c' := by
  cases heffect with
  | load t => exact of_unsplit rfl rfl rfl rfl
  | clean hdata hsplit => exact h.reshape hsplit rfl rfl rfl rfl
  | encode hdata hsplit htargets hdone => exact h.reshape hsplit rfl rfl rfl rfl
  | scale hdata hsplit hscaled => exact h.reshape hsplit rfl rfl rfl rfl
  | drop hdata hsplit hreduced => exact h.reshape hsplit rfl rfl rfl rfl
  | select hdata hsplit hreduced => exact h.reshape hsplit rfl rfl rfl rfl
  | split hdata hcheck => exact h.split hdata hcheck
  | train hsplit htarget hmodel =>
      rw [htrain] at hmodel
      exact h.train hsplit hmodel
  | evaluate hmodel hsplit hmetrics =>
      rw [hevaluate] at hmetrics
      exact h.evaluate hmodel hsplit hmetrics
  | exportTable hdata => exact h
  | save hmodel => exact h

/-- What is in the log makes nothing stale. -/
theorem logged (h : Fresh n c) (log : List String) : Fresh n { c with log } :=
  ⟨h.split_of, h.target_of, h.model_of, h.metrics_of⟩

end Fresh

/-- Every context of a run is fresh: whatever loads and writes the tables, however many steps have run. -/
theorem fresh_after_any_steps (config : Config) (services : Services) (defaultTrees : Nat)
    (files : Files) (p : Script.Program) (steps : List Step)
    (hcompile : ({ config } : Dialect).compile p = .ok steps) (n : Nat) :
    Fresh defaultTrees
      (contextAfter config
        { services with train := Learn.train defaultTrees, evaluate := Learn.evaluate } files
        steps n) := by
  refine context_invariant (instruction_of_compile hcompile) ?_ ?_ files n
  · exact Fresh.of_unsplit rfl rfl rfl rfl
  · intro todo c c' message hfresh heffect
    exact (hfresh.effect rfl rfl heffect).logged _

/-! ## A program that trains twice -/

/-- Services that load four rows from every path, with two columns of classes. -/
def twoTargets : Services :=
  { Services.native {} "" with
    load := fun _ => pure ⟨["x", "y", "z"], [[.nat 1, .nat 0, .nat 1], [.nat 2, .nat 1, .nat 1],
      [.nat 3, .nat 0, .nat 0], [.nat 4, .nat 1, .nat 0]]⟩ }

/-- A program that splits, trains and evaluates twice, each time with another target. -/
def trainTwice : Script.Program :=
  ⟨[⟨"load", ["d.csv"], Options.empty, 1⟩,
    ⟨"split", ["50/50"], Options.ofList [("target", "y")], 2⟩, ⟨"train", ["knn"], Options.empty, 3⟩,
    ⟨"evaluate", [], Options.empty, 4⟩, ⟨"split", ["75/25"], Options.empty, 5⟩,
    ⟨"train", ["tree"], Options.ofList [("target", "z")], 6⟩, ⟨"evaluate", [], Options.empty, 7⟩]⟩

/-- The steps of that program. -/
def trainTwiceSteps : List Step :=
  (({} : Dialect).compile trainTwice).toOption.getD []

/-- The contexts of that program with these services and the learning of the library. -/
def trainTwiceAfter (n : Nat) : Context :=
  contextAfter {} { twoTargets with train := Learn.train 100, evaluate := Learn.evaluate }
    Files.empty trainTwiceSteps n

theorem compile_trainTwice : ({} : Dialect).compile trainTwice = .ok trainTwiceSteps := by
  have hok : (({} : Dialect).compile trainTwice).isOk = true := by decide +kernel
  unfold trainTwiceSteps
  cases hcompile : ({} : Dialect).compile trainTwice with
  | ok steps => rfl
  | error e =>
      rw [hcompile] at hok
      cases hok

/-- All contexts of that program are fresh: those with a model and metrics for the first target, those of the second
split, which have neither, and those with a model and metrics for the second target. -/
theorem fresh_after_training_twice :
    (∀ n, Fresh 100 (trainTwiceAfter n)) ∧
      ((trainTwiceAfter 4).model.map Model.target = some "y" ∧
        (trainTwiceAfter 4).metrics.isEmpty = false) ∧
      ((trainTwiceAfter 5).model.isNone = true ∧ (trainTwiceAfter 5).metrics.isEmpty = true) ∧
      (trainTwiceAfter 7).model.map Model.target = some "z" ∧
        (trainTwiceAfter 7).metrics.isEmpty = false := by
  refine ⟨?_, ⟨?_, ?_⟩, ⟨?_, ?_⟩, ?_, ?_⟩
  · exact fresh_after_any_steps {} twoTargets 100 Files.empty trainTwice trainTwiceSteps
      compile_trainTwice
  all_goals decide +kernel

end TableFlow
