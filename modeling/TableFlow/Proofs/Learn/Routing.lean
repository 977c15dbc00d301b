import TableFlow.Proofs.Decimal.Order
import TableFlow.Proofs.Guarded.Trees

/-!
# Rows on their way to a leaf

A tree is grown by dealing the samples of a node to both sides of a cut, and it is asked by taking one row from the root
to a leaf.  Both compare the same number with the same threshold, so that the samples from which a leaf was made are
those that come to it again, and each of them is given the class that has the largest weight among them.

Main results:

- Theorem `leads_argmax`: the class that is found has the largest weight, and is the first one that does.
- Definitions `Tree.path` and `Tree.companions`: the turns of a row, and the samples that take the same ones.
- Theorem `Tree.predict_grow`: a sample is given the class that leads among its companions.
- Theorem `Tree.explains_fit`: a tree that is fitted to samples is no deeper than it may be, asks for features that
  there are, and tells of each sample the class that leads in its leaf.
- Theorem `Tree.not_explains_without_classes`: without any class its leaf is none.
-/

namespace TableFlow
namespace Learn

open Decimal

/-! ## The largest weight -/

/-- No class has a larger weight, and no class before it has as large a one. -/
structure Leads (weight : Nat → Float) (classes label : Nat) : Prop where
  lt_classes : label < classes
  not_lt : ∀ k < classes, ¬weight label < weight k
  not_le : ∀ k < label, ¬weight label ≤ weight k

variable {weight : Nat → Float} {best next : Nat}

/-- A larger weight than the leading one leads. -/
theorem Leads.of_lt (h : Leads weight next best) (hlt : weight best < weight next) :
    Leads weight (next + 1) next := by
  have hbelow : ∀ k < next, ¬weight next ≤ weight k := fun k hk hle => h.not_lt k hk (lt_of_lt_of_le hlt hle)
  refine ⟨Nat.lt_succ_self next, fun k hk hgt => ?_, hbelow⟩
  rcases Nat.lt_succ_iff_lt_or_eq.1 hk with hk | rfl
  · exact hbelow k hk (le_of_lt hgt)
  · exact not_le_of_lt hgt (le_of_lt hgt)

/-- One that is not larger leaves it where it is. -/
theorem Leads.of_not_lt (h : Leads weight next best) (hnot : ¬weight best < weight next) :
    Leads weight (next + 1) best := by
  refine ⟨Nat.lt_succ_of_lt h.lt_classes, fun k hk => ?_, h.not_le⟩
  rcases Nat.lt_succ_iff_lt_or_eq.1 hk with hk | rfl
  · exact h.not_lt k hk
  · exact hnot

/-- The place that is found leads if the best one so far does among those that have been seen. -/
theorem leads_argmaxFrom (rest : Nat) (h : Leads weight next best) :
    Leads weight (next + rest) (argmaxFrom best (weight best) next ((List.range' next rest).map weight)) := by
  induction rest generalizing best next with
  | zero => exact h
  | succ rest ih =>
      rw [List.range'_succ, List.map_cons, argmaxFrom, ← Nat.succ_add_eq_add_succ]
      by_cases hlt : weight best < weight next
      · rw [if_pos hlt]
        exact ih (h.of_lt hlt)
      · rw [if_neg hlt]
        exact ih (h.of_not_lt hlt)

/-- The place of the largest of some weights leads. -/
theorem leads_argmax (weight : Nat → Float) {classes : Nat} (h : 0 < classes) :
    Leads weight classes (argmax ((List.range classes).map weight)) := by
  obtain ⟨rest, rfl⟩ := Nat.exists_eq_add_of_lt h
  have hfirst : Leads weight 1 0 := by
    refine ⟨Nat.zero_lt_one, fun k hk hlt => ?_, fun k hk => absurd hk (Nat.not_lt_zero k)⟩
    obtain rfl := Nat.lt_one_iff.1 hk
    exact not_le_of_lt hlt (le_of_lt hlt)
  have hrange : List.range (0 + rest + 1) = 0 :: List.range' 1 rest := by
    rw [List.range_eq_range', Nat.zero_add, List.range'_succ]
  rw [hrange, List.map_cons, argmax, Nat.zero_add, Nat.add_comm]
  exact leads_argmaxFrom rest hfirst

/-! ## Weights of classes -/

/-- The weights of the samples of a class, added up in the order of the samples. -/
def weightOf (samples : List Sample) (label : Nat) : Float :=
  ((samples.filter fun s => s.label == label).map Sample.weight).foldl (· + ·) 0.0

/-- Adding up the weights of all classes at once adds up those of each. -/
theorem classWeights_eq_map (classes : Nat) (samples : List Sample) :
    classWeights classes samples = (List.range classes).map (weightOf samples) := by
  have hfold := Guarded.foldl_modify_replicate Sample.label (fun total s => total + s.weight) samples classes
    (0.0 : Float)
  rw [classWeights]
  refine hfold.trans (List.map_congr_left fun k _ => ?_)
  rw [weightOf, List.foldl_map]

namespace Tree

variable {params : Params} {features classes : Nat} {samples : List Sample}

/-! ## Companions -/

/-- The turns of a row on its way to a leaf: at each split, whether it is at most the threshold. -/
def path (row : Features) : Tree → List Bool
  | .leaf _ => []
  | .split j threshold below above =>
    if feature row j ≤ threshold then true :: below.path row else false :: above.path row

/-- The samples that come to the same leaf as a row, in their order. -/
def companions (tree : Tree) (samples : List Sample) (row : Features) : List Sample :=
  samples.filter fun s => tree.path s.features == tree.path row

@[simp] theorem companions_leaf (label : Nat) (samples : List Sample) (row : Features) :
    (leaf label).companions samples row = samples := by
  simp [companions, path]

/-- The companions of a row below a cut are those among the samples below it. -/
theorem companions_below {j : Nat} {threshold : Float} {below above : Tree} {row : Features}
    (h : feature row j ≤ threshold) (samples : List Sample) :
    (split j threshold below above).companions samples row =
      below.companions (samples.filter fun s => s.value j ≤ threshold) row := by
  rw [companions, companions, List.filter_filter]
  apply List.filter_congr
  intro s _
  by_cases hs : feature s.features j ≤ threshold
  · simp [path, h, hs, Sample.value]
  · simp [path, h, hs, Sample.value]

/-- The companions of a row above a cut are those among the samples above it. -/
theorem companions_above {j : Nat} {threshold : Float} {below above : Tree} {row : Features}
    (h : ¬feature row j ≤ threshold) (samples : List Sample) :
    (split j threshold below above).companions samples row =
      above.companions (samples.filter fun s => !decide (s.value j ≤ threshold)) row := by
  rw [companions, companions, List.filter_filter]
  apply List.filter_congr
  intro s _
  by_cases hs : feature s.features j ≤ threshold
  · simp [path, h, hs, Sample.value]
  · simp [path, h, hs, Sample.value]

/-! ## Grown trees -/

/-- A node becomes a leaf with the leading class of its samples, or it is split and the samples are dealt to both
sides. -/
theorem grow_succ_cases (params : Params) (features classes depth : Nat) (samples : List Sample)
    (g : Random.Generator) :
    (grow params features classes (depth + 1) samples g).1 = .leaf (argmax (classWeights classes samples)) ∨
      ∃ cut : Cut, ∃ g₁ g₂, (grow params features classes (depth + 1) samples g).1 =
        .split cut.feature cut.threshold
          (grow params features classes depth (samples.filter fun s => s.value cut.feature ≤ cut.threshold) g₁).1
          (grow params features classes depth
            (samples.filter fun s => !decide (s.value cut.feature ≤ cut.threshold)) g₂).1 := by
  rw [grow]
  split
  · exact Or.inl rfl
  · split
    · exact Or.inl rfl
    · next cut g' hcut =>
        right
        simp only [List.partition_eq_filter_filter]
        exact ⟨cut, _, _, rfl⟩

theorem depth_grow_le (depth : Nat) (samples : List Sample) (g : Random.Generator) :
    (grow params features classes depth samples g).1.depth ≤ depth := by
  induction depth generalizing samples g with
  | zero => exact le_rfl
  | succ depth ih =>
      rcases grow_succ_cases params features classes depth samples g with hleaf | ⟨cut, g₁, g₂, hsplit⟩
      · rw [hleaf]
        exact Nat.zero_le _
      · rw [hsplit, Tree.depth, Nat.add_comm]
        exact Nat.succ_le_succ (max_le (ih _ g₁) (ih _ g₂))

/-- A sample is given the class with the largest weight among its companions, by induction on the depth: the samples on
its side of a cut are those among which the next cut is made. -/
theorem predict_grow (depth : Nat) (g : Random.Generator) {s : Sample} (hs : s ∈ samples) :
    (grow params features classes depth samples g).1.predict s.features = argmax (classWeights classes
      ((grow params features classes depth samples g).1.companions samples s.features)) := by
  induction depth generalizing samples g with
  | zero => rw [grow, companions_leaf, predict]
  | succ depth ih =>
      rcases grow_succ_cases params features classes depth samples g with hleaf | ⟨cut, g₁, g₂, hsplit⟩
      · rw [hleaf, companions_leaf, predict]
      · rw [hsplit, predict]
        by_cases hle : feature s.features cut.feature ≤ cut.threshold
        · rw [if_pos hle, companions_below hle]
          exact ih g₁ (List.mem_filter.2 ⟨hs, decide_eq_true hle⟩)
        · rw [if_neg hle, companions_above hle]
          have hside : (!decide (s.value cut.feature ≤ cut.threshold)) = true :=
            Bool.not_eq_eq_eq_not.2 (decide_eq_false hle)
          exact ih g₂ (List.mem_filter.2 ⟨hs, hside⟩)

/-- What a tree tells of samples: it is no deeper than it may be, it asks for features that there are, its leaves are
classes, and it gives each sample the class that leads among those that come to the same leaf. -/
structure Explains (params : Params) (features classes : Nat) (samples : List Sample) (tree : Tree) : Prop where
  depth_le : tree.depth ≤ params.maxDepth
  fits : tree.Fits features classes
  predict_eq : ∀ s ∈ samples, tree.predict s.features =
    argmax ((List.range classes).map (weightOf (tree.companions samples s.features)))
  leads : ∀ s ∈ samples, Leads (weightOf (tree.companions samples s.features)) classes (tree.predict s.features)

/-- A tree tells this of the samples that it was fitted to, whatever their numbers and weights are. -/
theorem explains_fit (params : Params) {features classes : Nat} {samples : List Sample} (g : Random.Generator)
    (hfit : ∀ s ∈ samples, s.Fits features classes) (hclasses : 0 < classes) :
    (fit params classes samples g).1.Explains params features classes samples := by
  have hpredict : ∀ s ∈ samples, (fit params classes samples g).1.predict s.features =
      argmax ((List.range classes).map
        (weightOf ((fit params classes samples g).1.companions samples s.features))) := by
    intro s hs
    rw [← classWeights_eq_map]
    exact predict_grow params.maxDepth g hs
  refine ⟨depth_grow_le .., (Guarded.fitTree_eq hclasses hfit g).2, hpredict, fun s hs => ?_⟩
  rw [hpredict s hs]
  exact leads_argmax _ hclasses

/-- Samples of which one has what is not a number and one an infinite number, two have the same numbers and different
classes, and one has a negative weight. -/
def unevenSamples : List Sample :=
  [⟨#[1.0, 5.0], 0, 1.0⟩, ⟨#[0.0 / 0.0, 5.0], 1, 2.0⟩, ⟨#[2.0, 5.0], 1, 1.0⟩, ⟨#[2.0, 5.0], 0, 1.0⟩,
    ⟨#[1.0, -1.0 / 0.0], 2, -1.0⟩]

theorem explains_fit_of_unevenSamples :
    (∀ s ∈ unevenSamples, s.Fits 2 3) ∧ 0 < 3 ∧
      (fit { maxDepth := 2 } 3 unevenSamples (.ofSeed 42)).1.Explains { maxDepth := 2 } 2 3 unevenSamples := by
  have hfit : ∀ s ∈ unevenSamples, s.Fits 2 3 := by
    intro s hs
    fin_cases hs <;> exact ⟨rfl, by decide⟩
  exact ⟨hfit, by decide, explains_fit { maxDepth := 2 } (.ofSeed 42) hfit (by decide)⟩

/-- Where there are neither samples nor classes, the leaf still names a class. -/
theorem not_explains_without_classes :
    ¬∀ (params : Params) (features classes : Nat) (samples : List Sample) (g : Random.Generator),
      (∀ s ∈ samples, s.Fits features classes) →
        (fit params classes samples g).1.Explains params features classes samples := by
  intro h
  have hexplains : (fit { maxDepth := 0 } 0 [] (.ofSeed 42)).1.Explains { maxDepth := 0 } 0 0 [] :=
    h { maxDepth := 0 } 0 0 [] (.ofSeed 42) (by simp)
  have hleaf : argmax [] < 0 := hexplains.fits
  exact Nat.not_lt_zero _ hleaf

end Tree
end Learn
end TableFlow
