import TableFlow.Learn.Boosting
import TableFlow.Learn.Forest
import TableFlow.Proofs.Guarded.Trees

/-!
# Guarded forests and boosted trees

Forests and boosted trees are fitted and asked with guarded accesses.  A sample is drawn only where there are samples,
the weights of boosting keep one place for each sample, and every tree votes for one of the classes.

Main results:

- Theorem `castVotes_eq`: trees that fit vote without a breakdown.
- Theorems `fitForest_eq` and `predictForest_eq`: a forest is fitted and asked without a breakdown.
- Theorems `fitBoosted_eq` and `predictBoosted_eq`: so are boosted trees.
-/

namespace TableFlow

namespace Learn

/-- The trees of the forest fit, and it counts votes for all classes. -/
structure Forest.Fits (features classes : Nat) (f : Forest) : Prop where
  trees : ∀ tree ∈ f.trees, tree.Fits features classes
  classes_eq : f.classes = classes

/-- The trees of the stages fit, and their votes for all classes are counted. -/
structure Boosted.Fits (features classes : Nat) (b : Boosted) : Prop where
  stages : ∀ stage ∈ b.stages, stage.1.Fits features classes
  classes_eq : b.classes = classes

end Learn

namespace Guarded

open Learn

variable {features classes : Nat} {samples : List Sample}

/-! ## Votes -/

/-- What the trees of some items vote for a row, each with an amount of its own. -/
def castVotes {α : Type} (tree : α → Tree) (amount : α → Float) (classes : Nat) (row : Features)
    (items : List α) : Guarded (List Float) :=
  items.foldlM (fun votes a => do
    let label ← predictTree row (tree a)
    addAt votes label (amount a)) (List.replicate classes 0.0)

/-- Trees that fit vote without a breakdown. -/
theorem castVotes_eq {α : Type} {tree : α → Tree} {items : List α}
    (hfit : ∀ a ∈ items, (tree a).Fits features classes) (amount : α → Float) {row : Features}
    (hrow : row.size = features) :
    castVotes tree amount classes row items = .ok (items.foldl
        (fun votes a => Learn.addAt votes ((tree a).predict row) (amount a)) (List.replicate classes 0.0)) ∧
      (items.foldl (fun votes a => Learn.addAt votes ((tree a).predict row) (amount a))
        (List.replicate classes 0.0)).length = classes := by
  refine foldlM_eq (P := fun votes : List Float => votes.length = classes) ?_ (List.length_replicate ..)
  intro votes a ha hvotes
  constructor
  · rw [bind_ok (predictTree_eq (hfit a ha) hrow)]
    apply addAt_eq
    rw [hvotes]
    exact (hfit a ha).predict_lt row
  · rw [length_addAt, hvotes]

/-! ## Forests -/

/-- How often each of `n` samples is drawn in some draws; a draw needs a sample. -/
def draw (n : Nat) : (draws : Nat) → Array Float → Random.Generator → Guarded (Array Float × Random.Generator)
  | 0, counts, g => .ok (counts, g)
  | draws + 1, counts, g => do
    require (0 < n)
    require ((g.below64 n).1 < counts.size)
    draw n draws (counts.modify (g.below64 n).1 (· + 1.0)) (g.below64 n).2

/-- A sample with its number of draws, if it was drawn. -/
def drawnSample (counts : Array Float) (place : Sample × Nat) : Guarded (Option Sample) := do
  let weight ← element counts.toList place.2
  pure (if 0.0 < weight then some { place.1 with weight } else none)

/-- The samples that were drawn, weighted by how often. -/
def drawn (samples : List Sample) (counts : Array Float) : Guarded (List Sample) := do
  let found ← samples.zipIdx.mapM (drawnSample counts)
  pure (found.filterMap id)

/-- The tree of one member of the forest. -/
def forestMember (params : Tree.Params) (classes : Nat) (samples : List Sample) (seed : Nat) : Guarded Tree := do
  let n := samples.length
  let counts ← draw n n (Array.replicate n 0.0) (.ofSeed seed)
  let chosen ← drawn samples counts.1
  let grown ← fitTree params classes chosen counts.2
  pure grown.1

/-- The forest of samples. -/
def fitForest (classes trees : Nat) (maxDepth : Option Nat) (seed : Nat) (samples : List Sample) :
    Guarded Forest := do
  let params :=
    { Tree.Params.ofDepth maxDepth with
      maxFeatures := some (Forest.featuresTried (featureCount samples)) }
  let trees ← (List.range (max trees 1)).mapM fun i =>
    forestMember params classes samples ((seed + i) % wordBound)
  pure { trees, classes }

/-- The class of a row. -/
def predictForest (f : Forest) (row : Features) : Guarded Nat := do
  let votes ← castVotes (fun tree => tree) (fun _ => 1.0) f.classes row f.trees
  argmax votes

theorem draw_eq {n draws : Nat} (hdraws : draws ≤ n) {counts : Array Float} (hcounts : counts.size = n)
    (g : Random.Generator) :
    draw n draws counts g = .ok (Forest.draw n draws counts g) ∧ (Forest.draw n draws counts g).1.size = n := by
  induction draws generalizing counts g with
  | zero => exact ⟨rfl, hcounts⟩
  | succ draws ih =>
      have hn : 0 < n := by omega
      have hplace : (g.below64 n).1 < counts.size := by
        rw [hcounts]
        exact Random.Generator.below64_lt hn g
      simp only [draw, bind_ok (require_eq hn), bind_ok (require_eq hplace), Forest.draw]
      exact ih (by omega) (by simpa using hcounts) _

theorem drawn_eq {counts : Array Float} (hcounts : counts.size = samples.length) :
    drawn samples counts = .ok (Forest.drawn samples counts) := by
  have hweights : ∀ i, ∀ hi : i < samples.length, drawnSample counts (samples[i], i) =
      .ok (if 0.0 < counts.getD i 0.0 then some { samples[i] with weight := counts.getD i 0.0 } else none) := by
    intro i hi
    have hplace : i < counts.toList.length := by
      rw [Array.length_toList, hcounts]
      exact hi
    have hweight : counts.toList.getD i 0.0 = counts.getD i 0.0 := by simp [Array.getD_eq_getD_getElem?]
    rw [drawnSample, bind_ok (element_eq_getD hplace 0.0), hweight]
    rfl
  rw [drawn, bind_ok (mapM_zipIdx (g := fun place => if 0.0 < counts.getD place.2 0.0 then
    some { place.1 with weight := counts.getD place.2 0.0 } else none) hweights), Forest.drawn]
  exact congrArg Except.ok List.filterMap_map

/-- Samples that were drawn fit as they did before. -/
theorem fits_of_mem_drawn (hfit : ∀ s ∈ samples, s.Fits features classes) (counts : Array Float) :
    ∀ s ∈ Forest.drawn samples counts, s.Fits features classes := by
  intro s hs
  obtain ⟨⟨old, i⟩, hplace, hdrawn⟩ := List.mem_filterMap.1 hs
  have hold : old.Fits features classes := hfit old (List.fst_mem_of_mem_zipIdx hplace)
  simp only at hdrawn
  split at hdrawn
  · cases hdrawn
    exact ⟨hold.size_eq, hold.label_lt⟩
  · cases hdrawn

theorem forestMember_eq (hclasses : 0 < classes) (hfit : ∀ s ∈ samples, s.Fits features classes)
    (params : Tree.Params) (seed : Nat) :
    forestMember params classes samples seed = .ok (Forest.member params classes samples seed) ∧
      (Forest.member params classes samples seed).Fits features classes := by
  have hsize : (Array.replicate samples.length (0.0 : Float)).size = samples.length := Array.size_replicate
  obtain ⟨hdraw, hcounts⟩ := draw_eq (Nat.le_refl samples.length) hsize (.ofSeed seed)
  obtain ⟨htree, htreeFits⟩ := fitTree_eq hclasses (fits_of_mem_drawn hfit _)
    (Forest.draw samples.length samples.length (Array.replicate samples.length 0.0) (.ofSeed seed)).2
  constructor
  · rw [forestMember, bind_ok hdraw, bind_ok (drawn_eq hcounts), bind_ok htree]
    rfl
  · exact htreeFits

/-- A forest is fitted to samples without a breakdown. -/
theorem fitForest_eq (hclasses : 0 < classes) (hfit : ∀ s ∈ samples, s.Fits features classes) (trees : Nat)
    (maxDepth : Option Nat) (seed : Nat) :
    fitForest classes trees maxDepth seed samples = .ok (Forest.fit classes trees maxDepth seed samples) ∧
      (Forest.fit classes trees maxDepth seed samples).Fits features classes := by
  constructor
  · rw [fitForest, bind_ok (mapM_eq fun i _ => (forestMember_eq hclasses hfit _ _).1)]
    rfl
  · refine ⟨?_, rfl⟩
    intro tree htree
    obtain ⟨i, _, rfl⟩ := List.mem_map.1 htree
    exact (forestMember_eq hclasses hfit _ _).2

theorem predictForest_eq {f : Forest} (hf : f.Fits features classes) (hclasses : 0 < classes) {row : Features}
    (hrow : row.size = features) :
    predictForest f row = .ok (f.predict row) ∧ f.predict row < classes := by
  obtain ⟨hvotes, hlength⟩ := castVotes_eq hf.trees (fun _ => 1.0) hrow
  constructor
  · rw [predictForest, hf.classes_eq, bind_ok hvotes, argmax_eq, Forest.predict, hf.classes_eq]
  · rw [Forest.predict, hf.classes_eq]
    exact argmax_lt_of_length hlength hclasses

/-! ## Boosted trees -/

/-- The samples with the given weights, of which there has to be one for each. -/
def weighted (samples : List Sample) (weights : List Float) : Guarded (List Sample) :=
  zipPlaces samples.length (fun s weight => { s with weight }) samples weights

/-- Whether each of the samples is missed by a tree. -/
def missed (tree : Tree) (samples : List Sample) : Guarded (List Bool) :=
  samples.mapM fun s => do
    let label ← predictTree s.features tree
    pure (label != s.label)

/-- The stages of the remaining rounds. -/
def stagesFrom (s : Boosted.Settings) : (rounds : Nat) → (first : Bool) → (weights : List Float) →
    Random.Generator → Guarded (List (Tree × Float))
  | 0, _, _, _ => .ok []
  | rounds + 1, first, weights, g => do
    let samples ← weighted s.samples weights
    let grown ← fitTree s.params s.classes samples g
    let missed ← missed grown.1 s.samples
    let error := Boosted.errorRate weights missed
    if error ≤ 1e-10 then pure [(grown.1, 1.0)]
    else if 1.0 - 1.0 / count s.classes ≤ error then pure (if first then [(grown.1, 1.0)] else [])
    else do
      -- The vote takes one from the number of classes.
      require (0 < s.classes)
      let vote := Boosted.vote s error
      let rest ← stagesFrom s rounds false (Boosted.reweigh vote weights missed) grown.2
      pure ((grown.1, vote) :: rest)

/-- The boosted trees of samples. -/
def fitBoosted (classes rounds maxDepth : Nat) (learningRate : Float) (seed : Nat) (samples : List Sample) :
    Guarded Boosted := do
  let n := samples.length
  let settings : Boosted.Settings :=
    { params := .ofDepth (some maxDepth), classes, learningRate, samples }
  let stages ← stagesFrom settings (max rounds 1) true (List.replicate n (1.0 / count n)) (.ofSeed seed)
  pure { stages, classes }

/-- The class of a row. -/
def predictBoosted (b : Boosted) (row : Features) : Guarded Nat := do
  let votes ← castVotes Prod.fst Prod.snd b.classes row b.stages
  argmax votes

theorem weighted_eq {weights : List Float} (h : weights.length = samples.length) :
    weighted samples weights = .ok (Boosted.weighted samples weights) :=
  zipPlaces_eq rfl h _

/-- Samples fit whatever their weights are. -/
theorem fits_of_mem_weighted (hfit : ∀ s ∈ samples, s.Fits features classes) (weights : List Float) :
    ∀ s ∈ Boosted.weighted samples weights, s.Fits features classes := by
  intro s hs
  obtain ⟨i, hi, rfl⟩ := List.mem_iff_getElem.1 hs
  have hcount : (Boosted.weighted samples weights).length ≤ samples.length := by
    rw [Boosted.weighted, List.length_zipWith]
    exact Nat.min_le_left ..
  have hlt : i < samples.length := Nat.lt_of_lt_of_le hi hcount
  have hold : samples[i].Fits features classes := hfit _ (List.getElem_mem hlt)
  simp only [Boosted.weighted, List.getElem_zipWith]
  exact ⟨hold.size_eq, hold.label_lt⟩

theorem missed_eq {tree : Tree} (htree : tree.Fits features classes)
    (hfit : ∀ s ∈ samples, s.Fits features classes) :
    missed tree samples = .ok (samples.map fun s => tree.predict s.features != s.label) := by
  apply mapM_eq
  intro s hs
  exact bind_ok (predictTree_eq htree (hfit s hs).size_eq) _

theorem length_reweigh {vote : Float} {weights : List Float} {missed : List Bool}
    (h : weights.length = missed.length) : (Boosted.reweigh vote weights missed).length = weights.length := by
  rw [Boosted.reweigh, List.length_map, List.length_zipWith, h, Nat.min_self]

/-- The remaining stages are fitted without a breakdown as long as every sample has a weight. -/
theorem stagesFrom_eq {s : Boosted.Settings} (hclasses : 0 < s.classes)
    (hfit : ∀ sample ∈ s.samples, sample.Fits features s.classes) (rounds : Nat) (first : Bool)
    {weights : List Float} (hweights : weights.length = s.samples.length) (g : Random.Generator) :
    stagesFrom s rounds first weights g = .ok (Boosted.stagesFrom s rounds first weights g) ∧
      ∀ stage ∈ Boosted.stagesFrom s rounds first weights g, stage.1.Fits features s.classes := by
  induction rounds generalizing first weights g with
  | zero => exact ⟨rfl, by simp [Boosted.stagesFrom]⟩
  | succ rounds ih =>
      obtain ⟨htree, htreeFits⟩ := fitTree_eq hclasses (fits_of_mem_weighted hfit weights) g
      have hlength : weights.length = (s.samples.map fun sample =>
          (Tree.fit s.params s.classes (Boosted.weighted s.samples weights) g).1.predict sample.features !=
            sample.label).length := by
        rw [List.length_map, hweights]
      rw [stagesFrom, bind_ok (weighted_eq hweights), bind_ok htree, bind_ok (missed_eq htreeFits hfit)]
      simp only [Boosted.stagesFrom]
      split
      · refine ⟨rfl, ?_⟩
        intro stage hstage
        rw [List.mem_singleton.1 hstage]
        exact htreeFits
      · split
        · refine ⟨rfl, ?_⟩
          intro stage hstage
          split at hstage
          · rw [List.mem_singleton.1 hstage]
            exact htreeFits
          · cases hstage
        · obtain ⟨hrest, hrestFits⟩ := ih false ((length_reweigh hlength).trans hweights) _
          constructor
          · rw [bind_ok (require_eq hclasses), bind_ok hrest]
            rfl
          · intro stage hstage
            rcases List.mem_cons.1 hstage with rfl | hstage
            · exact htreeFits
            · exact hrestFits stage hstage

/-- Boosted trees are fitted to samples without a breakdown. -/
theorem fitBoosted_eq (hclasses : 0 < classes) (hfit : ∀ s ∈ samples, s.Fits features classes)
    (rounds maxDepth : Nat) (learningRate : Float) (seed : Nat) :
    fitBoosted classes rounds maxDepth learningRate seed samples =
        .ok (Boosted.fit classes rounds maxDepth learningRate seed samples) ∧
      (Boosted.fit classes rounds maxDepth learningRate seed samples).Fits features classes := by
  obtain ⟨hstages, hfits⟩ := stagesFrom_eq
    (s := { params := .ofDepth (some maxDepth), classes, learningRate, samples })
    hclasses hfit (max rounds 1) true (List.length_replicate ..) (.ofSeed seed)
  constructor
  · rw [fitBoosted, bind_ok hstages]
    rfl
  · exact ⟨hfits, rfl⟩

theorem predictBoosted_eq {b : Boosted} (hb : b.Fits features classes) (hclasses : 0 < classes) {row : Features}
    (hrow : row.size = features) :
    predictBoosted b row = .ok (b.predict row) ∧ b.predict row < classes := by
  obtain ⟨hvotes, hlength⟩ := castVotes_eq hb.stages Prod.snd hrow
  constructor
  · rw [predictBoosted, hb.classes_eq, bind_ok hvotes, argmax_eq, Boosted.predict, hb.classes_eq]
  · rw [Boosted.predict, hb.classes_eq]
    exact argmax_lt_of_length hlength hclasses

end Guarded
end TableFlow
