import TableFlow.Learn.Model

/-!
# Training that draws no random numbers

A generator is made from the seed for decision trees and for boosted trees, and it is threaded through every node that
is grown.  It is drawn from only where a node tries some of the features, as in a random forest.  These trees try all
of them at each node, so the generator comes out as it went in, and the seed makes no difference to what is trained.

Main results:

- Definition `DrawsNothing`: a computation gives the same whatever the generator, which it leaves alone.
- Theorem `Tree.drawsNothing_grow`: growing a tree that tries all features at each node draws nothing.
- Theorem `Boosted.fit_seed`: boosted trees are the same for any two seeds.
- Theorem `train_seed`: so is every model but a random forest, and that too if its parameters give a seed.
-/

namespace TableFlow
namespace Learn

open TableFlow.Random (Generator)

/-- The computation gives the same whatever the generator is, and leaves the generator alone. -/
def DrawsNothing {α : Type} (draw : Generator → α × Generator) : Prop :=
  ∃ a, ∀ g, draw g = (a, g)

/-- What comes out of such a computation does not depend on the generator. -/
theorem DrawsNothing.fst_eq {α : Type} {draw : Generator → α × Generator} (h : DrawsNothing draw) (g g' : Generator) :
    (draw g).1 = (draw g').1 := by
  rcases h with ⟨a, ha⟩
  rw [ha g, ha g']

namespace Tree

variable {params : Params}

/-- A node that tries all features need not choose any. -/
theorem drawsNothing_candidates (hall : params.maxFeatures = none) (features : Nat) :
    DrawsNothing (candidates params features) := by
  refine ⟨List.range features, fun g => ?_⟩
  rw [candidates, hall]

theorem drawsNothing_bestCut (hall : params.maxFeatures = none) (features classes : Nat) (samples : List Sample)
    (weights : List Float) : DrawsNothing (bestCut params features classes samples weights) := by
  by_cases hnone : features = 0
  · exact ⟨none, fun g => by rw [bestCut, if_pos hnone]⟩
  · rcases drawsNothing_candidates hall features with ⟨tried, htried⟩
    refine ⟨tryFeatures (.of weights) classes tried samples none, fun g => ?_⟩
    rw [bestCut, if_neg hnone, htried g]

/-- Growing a tree that tries all features at each node draws nothing: neither does the cut of its root, nor, by
induction on the depth, do the trees below it. -/
theorem drawsNothing_grow (hall : params.maxFeatures = none) (features classes depth : Nat) (samples : List Sample) :
    DrawsNothing (grow params features classes depth samples) := by
  induction depth generalizing samples with
  | zero => exact ⟨_, fun g => rfl⟩
  | succ depth ih =>
      let weights := classWeights classes samples
      by_cases hstop : (isPure weights || samples.length < params.minSamples) = true
      · exact ⟨.leaf (argmax weights), fun g => by simp only [grow, weights, if_pos hstop]⟩
      · rcases drawsNothing_bestCut hall features classes samples weights with ⟨cut, hcut⟩
        cases cut with
        | none => exact ⟨.leaf (argmax weights), fun g => by simp only [grow, weights, if_neg hstop, hcut g]⟩
        | some cut =>
            let sides := samples.partition fun s => s.value cut.feature ≤ cut.threshold
            rcases ih sides.1 with ⟨below, hbelow⟩
            rcases ih sides.2 with ⟨above, habove⟩
            refine ⟨.split cut.feature cut.threshold below above, fun g => ?_⟩
            simp only [grow, weights, if_neg hstop, hcut g, hbelow g, habove g, sides]

theorem drawsNothing_fit (hall : params.maxFeatures = none) (classes : Nat) (samples : List Sample) :
    DrawsNothing (fit params classes samples) :=
  drawsNothing_grow hall _ classes _ samples

end Tree

namespace Boosted

/-- The generator is handed from stage to stage, and no stage draws from it. -/
theorem stagesFrom_generator {s : Settings} (hall : s.params.maxFeatures = none) (rounds : Nat) (first : Bool)
    (weights : List Float) (g g' : Generator) :
    stagesFrom s rounds first weights g = stagesFrom s rounds first weights g' := by
  induction rounds generalizing first weights g g' with
  | zero => rfl
  | succ rounds ih =>
      rcases Tree.drawsNothing_fit hall s.classes (weighted s.samples weights) with ⟨tree, htree⟩
      simp only [stagesFrom, htree g, htree g', ih false _ g g']

/-- Boosted trees are the same for any two seeds. -/
theorem fit_seed (classes rounds maxDepth : Nat) (learningRate : Float) (seed seed' : Nat) (samples : List Sample) :
    fit classes rounds maxDepth learningRate seed samples = fit classes rounds maxDepth learningRate seed' samples := by
  unfold fit
  simp only [stagesFrom_generator (s := { params := .ofDepth (some maxDepth), classes, learningRate, samples }) rfl
    _ _ _ (.ofSeed seed) (.ofSeed seed')]

end Boosted

/-- Only a random forest depends on the seed that it is fitted with. -/
theorem fitClassifier_seed {a : Algorithm} (ha : a ≠ .randomForest) (defaultTrees classes seed seed' : Nat)
    (p : Params) (samples : List Sample) :
    fitClassifier defaultTrees classes seed a p samples = fitClassifier defaultTrees classes seed' a p samples := by
  cases a with
  | decisionTree =>
      have hall : (Tree.Params.ofDepth p.maxDepth).maxFeatures = none := rfl
      have htree := (Tree.drawsNothing_fit hall classes samples).fst_eq (.ofSeed seed) (.ofSeed seed')
      exact congrArg Classifier.tree htree
  | randomForest => exact absurd rfl ha
  | boosting => exact congrArg Classifier.boosted (Boosted.fit_seed ..)
  | knn => rfl
  | logisticRegression => rfl
  | naiveBayes => rfl

/-- The seed of the request makes no difference: no random numbers are drawn, or the parameters give a seed. -/
def Request.SeedsItself (r : Request) : Prop :=
  r.algorithm ≠ .randomForest ∨ r.params.seed.isSome = true

/-- Such a request is answered with the same model, or with the same error, whatever its seed is. -/
theorem train_seed {r : Request} (h : r.SeedsItself) (defaultTrees seed : Nat) :
    train defaultTrees { r with seed } = train defaultTrees r := by
  have hclassifier : ∀ classes samples,
      fitClassifier (max defaultTrees 1) classes (r.params.seed.getD seed) r.algorithm r.params samples =
        fitClassifier (max defaultTrees 1) classes (r.params.seed.getD r.seed) r.algorithm r.params samples := by
    intro classes samples
    rcases h with hdraws | hgiven
    · exact fitClassifier_seed hdraws ..
    · rcases Option.isSome_iff_exists.1 hgiven with ⟨given, hgiven⟩
      rw [hgiven]
      rfl
  unfold train
  simp only [hclassifier]

end Learn
end TableFlow
