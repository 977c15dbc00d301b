import TableFlow.Learn.Tree
import TableFlow.Proofs.Decimal.Arithmetic
import TableFlow.Proofs.Decimal.Whole

/-!
# Splits that separate

A node is split at the middle of two different values of a feature, so that one of the two samples should go to either
side, and a tree on some samples should have fewer splits than samples, however deep it may grow.  This is so as long as
the middle comes out below the greater value.  It does not where the sum of the values is too large for a double, or
where the values are neighbours and their middle is rounded to the greater one: then all the samples go to one side, and
the same node is split again until the tree is as deep as it may be.

Main results:

- Definition `Tree.Progresses`: each split of a tree separates the samples that come to it.
- Theorem `Tree.halves_of_bestCut`: a node is split at the middle of two values of a feature.
- Definition `Tree.Splittable`: the middle of two values of a feature separates them.
- Theorem `Tree.progresses_fit`: trees on such samples progress, and have fewer splits than samples.
- Theorem `Tree.Apart.splittable`: values that are not very large and stand apart are separated by their middle.
- Theorem `Tree.splits_fit_veryLarge`: a tree on two samples with very large values is split as often as it may be.
-/

namespace TableFlow
namespace Learn
namespace Tree

open Decimal

variable {params : Params} {features classes : Nat} {samples : List Sample}

/-! ## Progress -/

/-- How many nodes of a tree are split. -/
def splits : Tree → Nat
  | .leaf _ => 0
  | .split _ _ below above => below.splits + above.splits + 1

/-- One of the samples is at most the threshold in a feature, and one is not. -/
def Separates (j : Nat) (threshold : Float) (samples : List Sample) : Prop :=
  (∃ s ∈ samples, s.value j ≤ threshold) ∧ ∃ s ∈ samples, ¬s.value j ≤ threshold

/-- Each split separates those of the samples that come to it. -/
def Progresses : Tree → List Sample → Prop
  | .leaf _, _ => True
  | .split j threshold below above, samples =>
    Separates j threshold samples ∧ below.Progresses (samples.filter fun s => s.value j ≤ threshold) ∧
      above.Progresses (samples.filter fun s => !decide (s.value j ≤ threshold))

/-- A tree that progresses has fewer splits than samples, since some come to each leaf. -/
theorem Progresses.splits_lt {tree : Tree} (h : tree.Progresses samples) (hsome : samples ≠ []) :
    tree.splits < samples.length := by
  induction tree generalizing samples with
  | leaf label => exact List.length_pos_iff.2 hsome
  | split j threshold below above ihBelow ihAbove =>
      obtain ⟨⟨⟨s, hs, hle⟩, t, ht, hgt⟩, hbelow, habove⟩ := h
      have hlow := ihBelow hbelow (List.ne_nil_of_mem (List.mem_filter.2 ⟨hs, decide_eq_true hle⟩))
      have hhigh := ihAbove habove (List.ne_nil_of_mem (List.mem_filter.2 ⟨ht, by simpa using hgt⟩))
      have hlength := samples.length_eq_length_filter_add fun s => decide (s.value j ≤ threshold)
      rw [splits]
      omega

/-! ## The middle of two values -/

/-- The threshold is computed as the middle of two values of the feature, one below the other. -/
def Cut.Halves (cut : Cut) (samples : List Sample) : Prop :=
  ∃ s ∈ samples, ∃ t ∈ samples, s.value cut.feature < t.value cut.feature ∧
    cut.threshold = (s.value cut.feature + t.value cut.feature) / 2.0

/-- All values of the samples are finite. -/
def AllFinite (samples : List Sample) : Prop :=
  ∀ s ∈ samples, ∀ j, isFinite (s.value j) = true

/-- The samples stand in the order of a feature. -/
theorem pairwise_sortBy (j : Nat) (samples : List Sample) :
    (sortBy j samples).Pairwise fun s t => rank (s.value j) ≤ rank (t.value j) := by
  have htrans : ∀ s t u : Sample, rankLe (s.value j) (t.value j) = true → rankLe (t.value j) (u.value j) = true →
      rankLe (s.value j) (u.value j) = true := fun s t u hst htu =>
    decide_eq_true ((of_decide_eq_true hst).trans (of_decide_eq_true htu))
  have htotal : ∀ s t : Sample, (rankLe (s.value j) (t.value j) || rankLe (t.value j) (s.value j)) = true := by
    intro s t
    simp only [rankLe, Bool.or_eq_true, decide_eq_true_eq]
    exact le_total _ _
  have hsorted := List.pairwise_mergeSort htrans htotal samples
  exact hsorted.imp of_decide_eq_true

/-- Of the cuts of a feature in whose order the samples stand, the best one is at a middle. -/
theorem halves_of_tryCuts {node : Whole} {j : Nat} {below : List Float} {belowTotal : Float} {best : Option Cut}
    {sorted : List Sample} (hsorted : sorted.Pairwise fun s t => rank (s.value j) ≤ rank (t.value j))
    (hfinite : AllFinite samples) (hsub : ∀ s ∈ sorted, s ∈ samples) (hbest : ∀ cut ∈ best, cut.Halves samples) :
    ∀ cut ∈ tryCuts node j below belowTotal best sorted, cut.Halves samples := by
  induction sorted generalizing below belowTotal best with
  | nil => exact hbest
  | cons s sorted ih =>
      cases sorted with
      | nil => exact hbest
      | cons next rest =>
          obtain ⟨hfirst, hrest⟩ := List.pairwise_cons.1 hsorted
          have hs : s ∈ samples := hsub s List.mem_cons_self
          have hnext : next ∈ samples := hsub next (List.mem_cons_of_mem _ List.mem_cons_self)
          rw [tryCuts]
          refine ih hrest (fun t ht => hsub t (List.mem_cons_of_mem _ ht)) fun cut hcut => ?_
          by_cases hsame : (s.value j == next.value j) = true
          · rw [if_pos hsame] at hcut
            exact hbest cut hcut
          · simp only [if_neg hsame] at hcut
            split at hcut
            · -- a new best cut is at the middle of the two neighbours
              cases hcut
              exact ⟨s, hs, next, hnext, lt_of_rank_le (hfinite s hs j) (hfinite next hnext j)
                (hfirst next List.mem_cons_self) hsame, rfl⟩
            · exact hbest cut hcut

theorem halves_of_tryFeatures {node : Whole} {tried : List Nat} {ordered : List Sample} {best : Option Cut}
    (hfinite : AllFinite samples) (hsub : ∀ s ∈ ordered, s ∈ samples) (hbest : ∀ cut ∈ best, cut.Halves samples) :
    ∀ cut ∈ tryFeatures node classes tried ordered best, cut.Halves samples := by
  induction tried generalizing ordered best with
  | nil => exact hbest
  | cons j tried ih =>
      have hsub' : ∀ s ∈ sortBy j ordered, s ∈ samples := fun s hs => hsub s ((List.mergeSort_perm _ _).mem_iff.1 hs)
      exact ih hsub' (halves_of_tryCuts (pairwise_sortBy j ordered) hfinite hsub' hbest)

/-- A node is split at the middle of two values of a feature. -/
theorem halves_of_bestCut {weights : List Float} {g g' : Random.Generator} {cut : Cut} (hfinite : AllFinite samples)
    (h : bestCut params features classes samples weights g = (some cut, g')) : cut.Halves samples := by
  unfold bestCut at h
  by_cases hzero : features = 0
  · rw [if_pos hzero] at h
    cases h
  · rw [if_neg hzero] at h
    exact halves_of_tryFeatures hfinite (fun _ hs => hs) (by simp) cut (congrArg Prod.fst h)

/-! ## Trees that progress -/

/-- The middle of any two values of a feature, one below the other, is computed to lie between them, and below the
greater one. -/
def Splittable (samples : List Sample) : Prop :=
  ∀ s ∈ samples, ∀ t ∈ samples, ∀ j, s.value j < t.value j →
    s.value j ≤ (s.value j + t.value j) / 2.0 ∧ ¬t.value j ≤ (s.value j + t.value j) / 2.0

theorem AllFinite.filter (h : AllFinite samples) (p : Sample → Bool) : AllFinite (samples.filter p) :=
  fun s hs => h s (List.mem_of_mem_filter hs)

theorem Splittable.filter (h : Splittable samples) (p : Sample → Bool) : Splittable (samples.filter p) :=
  fun s hs t ht => h s (List.mem_of_mem_filter hs) t (List.mem_of_mem_filter ht)

/-- A cut at such a middle separates the samples. -/
theorem Cut.Halves.separates {cut : Cut} (h : cut.Halves samples) (hsplit : Splittable samples) :
    Separates cut.feature cut.threshold samples := by
  obtain ⟨s, hs, t, ht, hlt, hthreshold⟩ := h
  obtain ⟨hle, hgt⟩ := hsplit s hs t ht cut.feature hlt
  rw [hthreshold]
  exact ⟨⟨s, hs, hle⟩, t, ht, hgt⟩

/-- So a tree progresses that is grown on samples with all middles between the values, by induction on its depth: the
samples on either side of a cut are some of those that come to the node. -/
theorem progresses_grow {depth : Nat} {g : Random.Generator} (hfinite : AllFinite samples)
    (hsplit : Splittable samples) : (grow params features classes depth samples g).1.Progresses samples := by
  induction depth generalizing samples g with
  | zero => trivial
  | succ depth ih =>
      rw [grow]
      split
      · trivial
      · split
        · trivial
        · next cut g' hcut =>
            simp only [List.partition_eq_filter_filter]
            exact ⟨(halves_of_bestCut hfinite hcut).separates hsplit, ih (hfinite.filter _) (hsplit.filter _),
              ih (hfinite.filter _) (hsplit.filter _)⟩

/-- Each split of a tree that is fitted to samples with all middles between the values separates those that come to it,
and the tree has fewer splits than there are samples, however deep it may grow. -/
theorem progresses_fit (params : Params) (classes : Nat) {samples : List Sample} (g : Random.Generator)
    (hfinite : AllFinite samples) (hsplit : Splittable samples) :
    (fit params classes samples g).1.Progresses samples ∧
      (samples ≠ [] → (fit params classes samples g).1.splits < samples.length) := by
  have hprogress : (fit params classes samples g).1.Progresses samples := progresses_grow hfinite hsplit
  exact ⟨hprogress, hprogress.splits_lt⟩

/-! ## Values that stand apart -/

/-- The values of the samples are not very large, and those of a feature stand apart: between the middle of two of them
and the greater one there is a double, which may be the middle. -/
structure Apart (samples : List Sample) : Prop where
  finite : AllFinite samples
  small : ∀ s ∈ samples, ∀ j, |value (s.value j)| ≤ 2 ^ (1022 : Int)
  apart : ∀ s ∈ samples, ∀ t ∈ samples, ∀ j, value (s.value j) < value (t.value j) →
    ∃ z, isFinite z = true ∧ (value (s.value j) + value (t.value j)) / 2 ≤ value z ∧ value z < value (t.value j)

/-- Such values are separated by their middle, since it is not rounded past the double that stands between. -/
theorem Apart.splittable (h : Apart samples) : Splittable samples := by
  intro s hs t ht j hlt
  have hsfin := h.finite s hs j
  have htfin := h.finite t ht j
  rw [lt_iff_value_lt hsfin htfin] at hlt
  obtain ⟨z, hz, hmiddle, hbelow⟩ := h.apart s hs t ht j hlt
  obtain ⟨hfinite, hle, hgt⟩ :=
    midpoint_between hsfin htfin hz (h.small s hs j) (h.small t ht j) hlt hmiddle hbelow
  exact ⟨(le_iff_value_le hsfin hfinite).2 hle, fun hge => not_lt.2 ((le_iff_value_le htfin hfinite).1 hge) hgt⟩

theorem value_singleton (x : Float) (label : Nat) (weight : Float) (j : Nat) :
    (Sample.mk #[x] label weight).value j = if j = 0 then x else 0.0 := by
  cases j <;> rfl

/-- Two samples of different classes, with the numbers one and two. -/
def oneAndTwo : List Sample :=
  [⟨#[1.0], 0, 1.0⟩, ⟨#[2.0], 1, 1.0⟩]

theorem allFinite_oneAndTwo : AllFinite oneAndTwo := by
  intro s hs j
  rcases List.mem_pair.1 hs with rfl | rfl <;> rw [value_singleton] <;> split <;> decide +kernel

/-- There is a double in the middle between the two numbers. -/
theorem apart_oneAndTwo : Apart oneAndTwo := by
  have hzero : value 0.0 = 0 := value_ofInt_of_le (n := 0) (by decide)
  have hone : value 1.0 = 1 := value_ofInt_of_le (n := 1) (by decide)
  have htwo : value 2.0 = 2 := value_ofInt_of_le (n := 2) (by decide)
  have hmiddle : value 1.5 = 3 / 2 := by
    have hfloat : Binary.ofFloat 1.5 = .finite false (3 * 2 ^ 51) (-52) := by decide +kernel
    rw [value_of_ofFloat hfloat, Binary.value]
    norm_num
  have hbound : (2 : ℚ) ≤ 2 ^ (1022 : Int) := by
    calc (2 : ℚ) = 2 ^ (1 : Int) := (zpow_one 2).symm
      _ ≤ 2 ^ (1022 : Int) := zpow_le_zpow_right₀ one_le_two (by decide)
  refine ⟨allFinite_oneAndTwo, ?_, ?_⟩
  · intro s hs j
    refine le_trans ?_ hbound
    rcases List.mem_pair.1 hs with rfl | rfl <;> rw [value_singleton] <;> split <;> norm_num [hzero, hone, htwo]
  · intro s hs t ht j hlt
    refine ⟨1.5, by decide +kernel, ?_⟩
    by_cases hj : j = 0
    · rcases List.mem_pair.1 hs with rfl | rfl <;> rcases List.mem_pair.1 ht with rfl | rfl <;>
        simp only [value_singleton, if_pos hj, hone, htwo, hmiddle] at hlt ⊢
      · exact absurd hlt (lt_irrefl _)
      · norm_num
      · exact absurd hlt (by norm_num)
      · exact absurd hlt (lt_irrefl _)
    · rcases List.mem_pair.1 hs with rfl | rfl <;> rcases List.mem_pair.1 ht with rfl | rfl <;>
        exact absurd hlt (by simp [value_singleton, hj])

/-- So a tree that is fitted to them separates them. -/
theorem progresses_fit_of_oneAndTwo :
    Splittable oneAndTwo ∧ (fit {} 2 oneAndTwo (.ofSeed 42)).1.Progresses oneAndTwo ∧
      (oneAndTwo ≠ [] → (fit {} 2 oneAndTwo (.ofSeed 42)).1.splits < oneAndTwo.length) :=
  ⟨apart_oneAndTwo.splittable,
    progresses_fit {} 2 (.ofSeed 42) allFinite_oneAndTwo apart_oneAndTwo.splittable⟩

/-! ## Very large values -/

/-- Two samples of different classes, whose numbers add up to more than the largest double. -/
def veryLarge : List Sample :=
  [⟨#[1.7e308], 0, 1.0⟩, ⟨#[1.79e308], 1, 1.0⟩]

/-- They are split where both are at most the threshold, which is infinite. -/
theorem bestCut_veryLarge {params : Params} (hall : params.maxFeatures = none) (g : Random.Generator) :
    ∃ cut, bestCut params 1 2 veryLarge (classWeights 2 veryLarge) g = (some cut, g) ∧
      ∀ s ∈ veryLarge, s.value cut.feature ≤ cut.threshold := by
  have hsorted : sortBy 0 veryLarge = veryLarge := by
    apply List.mergeSort_of_pairwise
    decide +kernel
  have hcandidates : candidates params 1 g = ([0], g) := by
    rw [candidates, hall]
    rfl
  have hfound : (tryCuts (.of (classWeights 2 veryLarge)) 0 (List.replicate 2 0.0) 0.0 none veryLarge).any
      (fun cut => veryLarge.all fun s => s.value cut.feature ≤ cut.threshold) = true := by
    decide +kernel
  obtain ⟨cut, hcut, hbelow⟩ := Option.any_eq_true .. |>.1 hfound
  refine ⟨cut, ?_, fun s hs => of_decide_eq_true (List.all_eq_true.1 hbelow s hs)⟩
  rw [bestCut, if_neg one_ne_zero, hcandidates]
  simp only [tryFeatures, hsorted, hcut]

/-- So all of them go to one side at each split, as often as they may be split. -/
theorem splits_grow_veryLarge {params : Params} (hall : params.maxFeatures = none) (hmin : params.minSamples ≤ 2)
    (depth : Nat) (g : Random.Generator) : (grow params 1 2 depth veryLarge g).1.splits = depth := by
  induction depth generalizing g with
  | zero => rfl
  | succ depth ih =>
      have hstop : (isPure (classWeights 2 veryLarge) || veryLarge.length < params.minSamples) = false := by
        rw [Bool.or_eq_false_iff]
        exact ⟨by decide +kernel, decide_eq_false (Nat.not_lt.2 hmin)⟩
      obtain ⟨cut, hcut, hbelow⟩ := bestCut_veryLarge hall g
      have hlow : veryLarge.filter (fun s => s.value cut.feature ≤ cut.threshold) = veryLarge :=
        List.filter_eq_self.2 fun s hs => decide_eq_true (hbelow s hs)
      have hhigh : veryLarge.filter (not ∘ fun s => decide (s.value cut.feature ≤ cut.threshold)) = [] := by
        rw [List.filter_eq_nil_iff]
        intro s hs
        simp [hbelow s hs]
      have hempty : ∀ g, (grow params 1 2 depth [] g).1.splits = 0 := by
        intro g
        cases depth <;> rfl
      rw [grow, hstop]
      simp only [Bool.false_eq_true, if_false, hcut, List.partition_eq_filter_filter, hlow, hhigh, splits, ih, hempty]

/-- A tree that is fitted to them is as deep as it may be, and its splits do not separate them. -/
theorem splits_fit_veryLarge (depth : Nat) (g : Random.Generator) :
    (fit { maxDepth := depth } 2 veryLarge g).1.splits = depth :=
  splits_grow_veryLarge rfl le_rfl depth g

theorem not_progresses_fit_veryLarge :
    AllFinite veryLarge ∧ ¬(fit {} 2 veryLarge (.ofSeed 42)).1.Progresses veryLarge ∧
      ¬(fit {} 2 veryLarge (.ofSeed 42)).1.splits < veryLarge.length := by
  have hmany : ¬(fit {} 2 veryLarge (.ofSeed 42)).1.splits < veryLarge.length := by
    rw [splits_fit_veryLarge]
    decide
  refine ⟨?_, fun h => hmany (h.splits_lt (List.cons_ne_nil _ _)), hmany⟩
  intro s hs j
  rcases List.mem_pair.1 hs with rfl | rfl <;> rw [value_singleton] <;> split <;> decide +kernel

end Tree
end Learn
end TableFlow
