import TableFlow.Learn.Tree
import TableFlow.Proofs.Guarded.Access
import TableFlow.Proofs.Random.Bounds

/-!
# Guarded decision trees

Trees are grown and asked with guarded accesses: the weights of the classes are kept at the places of the labels, and
a row is asked for its numbers at the places of features.  Where every sample has a number for each feature and one of
the classes, the tree asks only for features that there are, and its leaves are classes.

Main results:

- Theorem `argmax_eq`: the place of the largest score is found without a breakdown.
- Theorem `growTree_eq`: growing a tree on samples that fit breaks down nowhere, and the tree fits.
- Theorem `predictTree_eq`: a tree that fits tells the class of a row that fits without a breakdown.
-/

namespace TableFlow

namespace Learn

/-- The sample has a number for each feature and one of the classes. -/
structure Sample.Fits (features classes : Nat) (s : Sample) : Prop where
  size_eq : s.features.size = features
  label_lt : s.label < classes

/-- The tree asks for features that there are, and its leaves are classes. -/
def Tree.Fits (features classes : Nat) : Tree → Prop
  | .leaf label => label < classes
  | .split j _ below above => j < features ∧ below.Fits features classes ∧ above.Fits features classes

/-- A tree that asks for some features asks for no others when there are more. -/
theorem Tree.Fits.mono {features more classes : Nat} {tree : Tree} (h : tree.Fits features classes)
    (hmore : features ≤ more) : tree.Fits more classes := by
  induction tree with
  | leaf label => exact h
  | split j threshold below above ihBelow ihAbove =>
      obtain ⟨hj, hbelow, habove⟩ := h
      exact ⟨Nat.lt_of_lt_of_le hj hmore, ihBelow hbelow, ihAbove habove⟩

/-- A tree that fits tells one of the classes. -/
theorem Tree.Fits.predict_lt {features classes : Nat} {tree : Tree} (h : tree.Fits features classes)
    (row : Features) : tree.predict row < classes := by
  induction tree with
  | leaf label => exact h
  | split j threshold below above ihBelow ihAbove =>
      obtain ⟨_, hbelow, habove⟩ := h
      rw [Tree.predict]
      split
      · exact ihBelow hbelow
      · exact ihAbove habove

theorem length_addAt (totals : List Float) (place : Nat) (amount : Float) :
    (addAt totals place amount).length = totals.length :=
  List.length_modify ..

theorem length_classWeights (classes : Nat) (samples : List Sample) :
    (classWeights classes samples).length = classes := by
  have hfold : ∀ totals : List Float, (samples.foldl (fun totals s => addAt totals s.label s.weight) totals).length =
      totals.length := by
    induction samples with
    | nil => exact fun _ => rfl
    | cons s samples ih =>
        intro totals
        rw [List.foldl_cons, ih, length_addAt]
  rw [classWeights, hfold, List.length_replicate]

/-- A node where several classes have a weight is one that samples come to. -/
theorem Tree.samples_pos_of_not_isPure {classes : Nat} {samples : List Sample}
    (h : ¬Tree.isPure (classWeights classes samples) = true) : 0 < samples.length := by
  cases samples with
  | nil =>
      have hnone : ¬((0.0 : Float) < 0.0) := by decide +kernel
      refine absurd ?_ h
      simp [Tree.isPure, classWeights, List.countP_replicate, hnone]
  | cons s samples => exact Nat.succ_pos _

/-- The largest of the scores of some classes is that of a class. -/
theorem argmax_lt_of_length {scores : List Float} {classes : Nat} (h : scores.length = classes)
    (hclasses : 0 < classes) : argmax scores < classes := by
  rw [← h]
  apply argmax_lt
  rintro rfl
  rw [← h] at hclasses
  exact Nat.lt_irrefl _ hclasses

end Learn

namespace Guarded

open Learn

variable {features classes : Nat} {samples : List Sample}

/-! ## Accesses -/

/-- The number of a row for a feature. -/
def feature (row : Features) (j : Nat) : Guarded Float :=
  element row.toList j

/-- Add an amount at a place. -/
def addAt (totals : List Float) (place : Nat) (amount : Float) : Guarded (List Float) :=
  update totals place (· + amount)

/-- The weights of each class, summed in the order of the samples. -/
def classWeights (classes : Nat) (samples : List Sample) : Guarded (List Float) :=
  samples.foldlM (fun totals s => addAt totals s.label s.weight) (List.replicate classes 0.0)

/-- The place of the largest score, given the best one so far and the place of the next; the score there is looked
up each time. -/
def argmaxFrom (scores : List Float) (best next : Nat) : List Float → Guarded Nat
  | [] => .ok best
  | s :: rest => do
    let score ← element scores best
    if score < s then argmaxFrom scores next (next + 1) rest else argmaxFrom scores best (next + 1) rest

/-- The place of the largest score. -/
def argmax (scores : List Float) : Guarded Nat :=
  match scores with
  | [] => .ok 0
  | _ :: rest => argmaxFrom scores 0 1 rest

theorem feature_eq {row : Features} {j : Nat} (h : j < row.size) : feature row j = .ok (Learn.feature row j) := by
  rw [feature, element_eq_getD (by simpa using h) 0.0, Learn.feature]
  simp [Array.getD_eq_getD_getElem?]

/-- A sample that fits has a number for each feature. -/
theorem value_eq {s : Sample} (h : s.Fits features classes) {j : Nat} (hj : j < features) :
    feature s.features j = .ok (s.value j) :=
  feature_eq (by rwa [h.size_eq])

/-- Samples that fit can each be asked for a number. -/
theorem values_eq (hfit : ∀ s ∈ samples, s.Fits features classes) {j : Nat} (hj : j < features) :
    samples.mapM (fun s => feature s.features j) = .ok (samples.map fun s => s.value j) := by
  apply mapM_eq
  intro s hs
  exact value_eq (hfit s hs) hj

theorem addAt_eq {totals : List Float} {place : Nat} (h : place < totals.length) (amount : Float) :
    addAt totals place amount = .ok (Learn.addAt totals place amount) :=
  update_eq h _

theorem classWeights_eq (hfit : ∀ s ∈ samples, s.Fits features classes) :
    classWeights classes samples = .ok (Learn.classWeights classes samples) := by
  refine (foldlM_eq (P := fun totals => totals.length = classes) ?_ (List.length_replicate ..)).1
  intro totals s hs htotals
  constructor
  · apply addAt_eq
    rw [htotals]
    exact (hfit s hs).label_lt
  · rw [length_addAt, htotals]

/-- Looking the best score up again finds the one that was seen. -/
theorem argmaxFrom_eq {scores : List Float} {best next : Nat} {score : Float} {rest : List Float}
    (hbest : scores[best]? = some score) (hrest : scores.drop next = rest) :
    argmaxFrom scores best next rest = .ok (Learn.argmaxFrom best score next rest) := by
  induction rest generalizing best next score with
  | nil => rfl
  | cons s rest ih =>
      have hnext : scores[next]? = some s := by
        rw [← List.head?_drop, hrest]
        rfl
      have hdrop : scores.drop (next + 1) = rest := by
        rw [← List.tail_drop, hrest]
        rfl
      rw [argmaxFrom, bind_ok (element_of_getElem? hbest), Learn.argmaxFrom]
      by_cases hlt : score < s
      · rw [if_pos hlt, if_pos hlt]
        exact ih hnext hdrop
      · rw [if_neg hlt, if_neg hlt]
        exact ih hbest hdrop

theorem argmax_eq (scores : List Float) : argmax scores = .ok (Learn.argmax scores) := by
  cases scores with
  | nil => rfl
  | cons s rest => exact argmaxFrom_eq rfl rfl

/-! ## Cuts -/

/-- Try a cut between each two neighbours of samples in the order of a feature. -/
def tryCuts (node : Tree.Whole) (j : Nat) : (below : List Float) → (belowTotal : Float) →
    (best : Option Tree.Cut) → List Sample → Guarded (Option Tree.Cut)
  | below, belowTotal, best, s :: next :: rest => do
    let below ← addAt below s.label s.weight
    let belowTotal := belowTotal + s.weight
    let here ← feature s.features j
    let there ← feature next.features j
    let best :=
      if here == there then best
      else
        let impurity := Tree.sidesImpurity node below belowTotal
        if Tree.better node best impurity then some ⟨j, (here + there) / 2.0, impurity⟩ else best
    tryCuts node j below belowTotal best (next :: rest)
  | _, _, best, _ => .ok best

/-- The samples in the order of a feature; comparing them asks each for its number. -/
def sortBy (j : Nat) (samples : List Sample) : Guarded (List Sample) := do
  let _ ← samples.mapM fun s => feature s.features j
  pure (Tree.sortBy j samples)

/-- Try the cuts of each feature in turn; there has to be a first sample. -/
def tryFeatures (node : Tree.Whole) (classes : Nat) :
    List Nat → List Sample → Option Tree.Cut → Guarded (Option Tree.Cut)
  | [], _, best => .ok best
  | j :: rest, samples, best => do
    let samples ← sortBy j samples
    require (0 < samples.length)
    let best ← tryCuts node j (List.replicate classes 0.0) 0.0 best samples
    tryFeatures node classes rest samples best

/-- The features to try at a node; no more are chosen than there are. -/
def candidates (params : Tree.Params) (features : Nat) (g : Random.Generator) :
    Guarded (List Nat × Random.Generator) :=
  match params.maxFeatures with
  | some m =>
    if m < features then do
      require (max m 1 ≤ features)
      pure (Random.sample features (max m 1) g)
    else .ok (List.range features, g)
  | none => .ok (List.range features, g)

/-- The best cut of a node, if one lowers its impurity. -/
def bestCut (params : Tree.Params) (features classes : Nat) (samples : List Sample)
    (weights : List Float) (g : Random.Generator) : Guarded (Option Tree.Cut × Random.Generator) :=
  if features = 0 then .ok (none, g)
  else do
    let tried ← candidates params features g
    let best ← tryFeatures (.of weights) classes tried.1 samples none
    pure (best, tried.2)

theorem tryCuts_eq {node : Tree.Whole} {j : Nat} (hj : j < features)
    (hfit : ∀ s ∈ samples, s.Fits features classes) {below : List Float} (hbelow : below.length = classes)
    (belowTotal : Float) (best : Option Tree.Cut) :
    tryCuts node j below belowTotal best samples = .ok (Tree.tryCuts node j below belowTotal best samples) := by
  induction samples generalizing below belowTotal best with
  | nil => rfl
  | cons s samples ih =>
      cases samples with
      | nil => rfl
      | cons next rest =>
          have hs : s.Fits features classes := hfit s List.mem_cons_self
          have hnext : next.Fits features classes := hfit next (List.mem_cons_of_mem _ List.mem_cons_self)
          have hlabel : s.label < below.length := by
            rw [hbelow]
            exact hs.label_lt
          rw [tryCuts, bind_ok (addAt_eq hlabel _), bind_ok (value_eq hs hj), bind_ok (value_eq hnext hj),
            Tree.tryCuts]
          exact ih (fun u hu => hfit u (List.mem_cons_of_mem _ hu)) ((length_addAt ..).trans hbelow) _ _

theorem mem_sortBy {j : Nat} {s : Sample} : s ∈ Tree.sortBy j samples ↔ s ∈ samples :=
  (List.mergeSort_perm _ _).mem_iff

theorem length_sortBy (j : Nat) (samples : List Sample) : (Tree.sortBy j samples).length = samples.length :=
  (List.mergeSort_perm _ _).length_eq

theorem sortBy_eq {j : Nat} (hj : j < features) (hfit : ∀ s ∈ samples, s.Fits features classes) :
    sortBy j samples = .ok (Tree.sortBy j samples) :=
  bind_ok (values_eq hfit hj) _

theorem tryFeatures_eq {node : Tree.Whole} {tried : List Nat} (htried : ∀ j ∈ tried, j < features)
    (hfit : ∀ s ∈ samples, s.Fits features classes) (hsome : 0 < samples.length) (best : Option Tree.Cut) :
    tryFeatures node classes tried samples best = .ok (Tree.tryFeatures node classes tried samples best) := by
  induction tried generalizing samples best with
  | nil => rfl
  | cons j tried ih =>
      have hj : j < features := htried j List.mem_cons_self
      have hsorted : ∀ s ∈ Tree.sortBy j samples, s.Fits features classes := fun s hs => hfit s (mem_sortBy.1 hs)
      have hlength : 0 < (Tree.sortBy j samples).length := by
        rw [length_sortBy]
        exact hsome
      rw [tryFeatures, bind_ok (sortBy_eq hj hfit), bind_ok (require_eq hlength),
        bind_ok (tryCuts_eq hj hsorted (List.length_replicate ..) _ _), Tree.tryFeatures]
      exact ih (fun k hk => htried k (List.mem_cons_of_mem _ hk)) hsorted hlength _

theorem candidates_eq (params : Tree.Params) (features : Nat) (g : Random.Generator) :
    candidates params features g = .ok (Tree.candidates params features g) := by
  unfold candidates Tree.candidates
  cases params.maxFeatures with
  | none => rfl
  | some m =>
      by_cases hm : m < features
      · have hmax : max m 1 ≤ features := by omega
        simp only [if_pos hm]
        exact bind_ok (require_eq hmax) _
      · simp only [if_neg hm]

/-- Only features that there are are tried. -/
theorem lt_of_mem_candidates (params : Tree.Params) (features : Nat) (g : Random.Generator) :
    ∀ j ∈ (Tree.candidates params features g).1, j < features := by
  intro j hj
  unfold Tree.candidates at hj
  cases hmax : params.maxFeatures with
  | none =>
      rw [hmax] at hj
      exact List.mem_range.1 hj
  | some m =>
      rw [hmax] at hj
      by_cases hm : m < features
      · simp only [if_pos hm] at hj
        exact Random.lt_of_mem_sample (by omega) j hj
      · simp only [if_neg hm] at hj
        exact List.mem_range.1 hj

theorem bestCut_eq (hfit : ∀ s ∈ samples, s.Fits features classes) (hsome : 0 < samples.length)
    (params : Tree.Params) (weights : List Float) (g : Random.Generator) :
    bestCut params features classes samples weights g =
      .ok (Tree.bestCut params features classes samples weights g) := by
  unfold bestCut Tree.bestCut
  by_cases hzero : features = 0
  · rw [if_pos hzero, if_pos hzero]
  · rw [if_neg hzero, if_neg hzero, bind_ok (candidates_eq params features g),
      bind_ok (tryFeatures_eq (lt_of_mem_candidates params features g) hfit hsome _)]
    rfl

/-- The best of some cuts of a feature is a cut of that feature, or the best one so far. -/
theorem feature_of_tryCuts {node : Tree.Whole} {j : Nat} {below : List Float} {belowTotal : Float}
    {best : Option Tree.Cut} {cut : Tree.Cut} (h : Tree.tryCuts node j below belowTotal best samples = some cut) :
    cut.feature = j ∨ best = some cut := by
  induction samples generalizing below belowTotal best with
  | nil => exact Or.inr h
  | cons s samples ih =>
      cases samples with
      | nil => exact Or.inr h
      | cons next rest =>
          rw [Tree.tryCuts] at h
          rcases ih h with hfeature | hbest
          · exact Or.inl hfeature
          · by_cases hsame : (s.value j == next.value j) = true
            · rw [if_pos hsame] at hbest
              exact Or.inr hbest
            · simp only [if_neg hsame] at hbest
              split at hbest
              · cases hbest
                exact Or.inl rfl
              · exact Or.inr hbest

/-- The best of the cuts of some features is a cut of one of them, or the best one so far. -/
theorem feature_of_tryFeatures {node : Tree.Whole} {tried : List Nat} {best : Option Tree.Cut} {cut : Tree.Cut}
    (h : Tree.tryFeatures node classes tried samples best = some cut) :
    cut.feature ∈ tried ∨ best = some cut := by
  induction tried generalizing samples best with
  | nil => exact Or.inr h
  | cons j tried ih =>
      rw [Tree.tryFeatures] at h
      rcases ih h with hfeature | hbest
      · exact Or.inl (List.mem_cons_of_mem _ hfeature)
      · rcases feature_of_tryCuts hbest with rfl | hbest
        · exact Or.inl List.mem_cons_self
        · exact Or.inr hbest

/-- The best cut of a node is one of a feature that there is. -/
theorem feature_lt_of_bestCut {params : Tree.Params} {weights : List Float} {g g' : Random.Generator}
    {cut : Tree.Cut} (h : Tree.bestCut params features classes samples weights g = (some cut, g')) :
    cut.feature < features := by
  unfold Tree.bestCut at h
  by_cases hzero : features = 0
  · rw [if_pos hzero] at h
    cases h
  · rw [if_neg hzero] at h
    rcases feature_of_tryFeatures (congrArg Prod.fst h) with hmem | hnone
    · exact lt_of_mem_candidates params features g _ hmem
    · cases hnone

/-! ## Trees -/

/-- The class of a row. -/
def predictTree (row : Features) : Tree → Guarded Nat
  | .leaf label => .ok label
  | .split j threshold below above => do
    let value ← feature row j
    if value ≤ threshold then predictTree row below else predictTree row above

/-- The samples on both sides of a cut. -/
def sides (cut : Tree.Cut) (samples : List Sample) : Guarded (List Sample × List Sample) := do
  let _ ← samples.mapM fun s => feature s.features cut.feature
  pure (samples.partition fun s => s.value cut.feature ≤ cut.threshold)

/-- Grow a tree of at most the given depth on samples. -/
def growTree (params : Tree.Params) (features classes : Nat) : (depth : Nat) → List Sample →
    Random.Generator → Guarded (Tree × Random.Generator)
  | 0, samples, g => do
    let weights ← classWeights classes samples
    let label ← argmax weights
    pure (.leaf label, g)
  | depth + 1, samples, g => do
    let weights ← classWeights classes samples
    let label ← argmax weights
    if Tree.isPure weights || samples.length < params.minSamples then pure (.leaf label, g)
    else do
      let found ← bestCut params features classes samples weights g
      match found with
      | (none, g) => pure (.leaf label, g)
      | (some cut, g) => do
        let parts ← sides cut samples
        let below ← growTree params features classes depth parts.1 g
        let above ← growTree params features classes depth parts.2 below.2
        pure (.split cut.feature cut.threshold below.1 above.1, above.2)

/-- The tree of samples. -/
def fitTree (params : Tree.Params) (classes : Nat) (samples : List Sample) (g : Random.Generator) :
    Guarded (Tree × Random.Generator) :=
  growTree params (featureCount samples) classes params.maxDepth samples g

/-- A tree that fits tells the class of a row that fits. -/
theorem predictTree_eq {tree : Tree} (htree : tree.Fits features classes) {row : Features}
    (hrow : row.size = features) : predictTree row tree = .ok (tree.predict row) := by
  induction tree with
  | leaf label => rfl
  | split j threshold below above ihBelow ihAbove =>
      obtain ⟨hj, hbelow, habove⟩ := htree
      rw [predictTree, bind_ok (feature_eq (hrow ▸ hj)), Tree.predict]
      by_cases hle : Learn.feature row j ≤ threshold
      · rw [if_pos hle, if_pos hle]
        exact ihBelow hbelow
      · rw [if_neg hle, if_neg hle]
        exact ihAbove habove

theorem sides_eq {cut : Tree.Cut} (hcut : cut.feature < features)
    (hfit : ∀ s ∈ samples, s.Fits features classes) :
    sides cut samples = .ok (samples.partition fun s => s.value cut.feature ≤ cut.threshold) :=
  bind_ok (values_eq hfit hcut) _

/-- The samples on both sides of a cut fit as all of them do. -/
theorem fits_partition (hfit : ∀ s ∈ samples, s.Fits features classes) (p : Sample → Bool) :
    (∀ s ∈ (samples.partition p).1, s.Fits features classes) ∧
      ∀ s ∈ (samples.partition p).2, s.Fits features classes := by
  rw [List.partition_eq_filter_filter]
  exact ⟨fun s hs => hfit s (List.mem_filter.1 hs).1, fun s hs => hfit s (List.mem_filter.1 hs).1⟩

/-- Growing a tree on samples that fit breaks down nowhere, and the tree fits. -/
theorem growTree_eq {params : Tree.Params} (hclasses : 0 < classes) (depth : Nat)
    (hfit : ∀ s ∈ samples, s.Fits features classes) (g : Random.Generator) :
    growTree params features classes depth samples g =
        .ok (Tree.grow params features classes depth samples g) ∧
      (Tree.grow params features classes depth samples g).1.Fits features classes := by
  have hlabel : ∀ samples : List Sample, Learn.argmax (Learn.classWeights classes samples) < classes :=
    fun samples => argmax_lt_of_length (length_classWeights classes samples) hclasses
  induction depth generalizing samples g with
  | zero =>
      constructor
      · rw [growTree, bind_ok (classWeights_eq hfit), bind_ok (argmax_eq _)]
        rfl
      · exact hlabel samples
  | succ depth ih =>
      rw [growTree, bind_ok (classWeights_eq hfit), bind_ok (argmax_eq _), Tree.grow]
      by_cases hstop : (Tree.isPure (Learn.classWeights classes samples) ||
          samples.length < params.minSamples) = true
      · rw [if_pos hstop]
        simp only [if_pos hstop]
        exact ⟨rfl, hlabel samples⟩
      · have hsome : 0 < samples.length := by
          rw [Bool.or_eq_true, not_or] at hstop
          exact Tree.samples_pos_of_not_isPure hstop.1
        rw [if_neg hstop, bind_ok (bestCut_eq hfit hsome params _ g)]
        simp only [if_neg hstop]
        rcases hbest : Tree.bestCut params features classes samples (Learn.classWeights classes samples) g with
          ⟨_ | cut, g'⟩
        · exact ⟨rfl, hlabel samples⟩
        · have hcut : cut.feature < features := feature_lt_of_bestCut hbest
          obtain ⟨hlow, hhigh⟩ := fits_partition hfit fun s => s.value cut.feature ≤ cut.threshold
          obtain ⟨hbelow, hbelowFits⟩ := ih hlow g'
          obtain ⟨habove, haboveFits⟩ := ih hhigh
            (Tree.grow params features classes depth
              (samples.partition fun s => s.value cut.feature ≤ cut.threshold).1 g').2
          constructor
          · simp only [bind_ok (sides_eq hcut hfit), bind_ok hbelow, bind_ok habove]
            rfl
          · exact ⟨hcut, hbelowFits, haboveFits⟩

/-- So does fitting a tree to samples of one number of features. -/
theorem fitTree_eq {params : Tree.Params} (hclasses : 0 < classes)
    (hfit : ∀ s ∈ samples, s.Fits features classes) (g : Random.Generator) :
    fitTree params classes samples g = .ok (Tree.fit params classes samples g) ∧
      (Tree.fit params classes samples g).1.Fits features classes := by
  cases samples with
  | nil =>
      -- without samples no feature is known, and the tree is a leaf
      have hnone : ∀ s ∈ ([] : List Sample), s.Fits 0 classes := by simp
      obtain ⟨hgrow, htree⟩ := growTree_eq hclasses params.maxDepth hnone g
      exact ⟨hgrow, htree.mono (Nat.zero_le _)⟩
  | cons s samples =>
      have hcount : featureCount (s :: samples) = features := (hfit s List.mem_cons_self).size_eq
      rw [fitTree, Tree.fit, hcount]
      exact growTree_eq hclasses params.maxDepth hfit g

end Guarded
end TableFlow
