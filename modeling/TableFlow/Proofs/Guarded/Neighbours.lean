import TableFlow.Learn.Neighbours
import TableFlow.Proofs.Guarded.Trees

/-!
# Guarded nearest neighbours

The nearest samples vote at the places of their labels, and a label wins by looking its votes up again.  The labels are
classes, so their places are there.

Main results:

- Theorem `tally_eq`: labels of classes are counted without a breakdown.
- Theorems `fitNeighbours_eq` and `predictNeighbours_eq`: the samples are kept and asked without a breakdown.
-/

namespace TableFlow

namespace Learn

/-- The labels of the samples are classes, and votes for all of them are counted. -/
structure Neighbours.Fits (classes : Nat) (n : Neighbours) : Prop where
  label_lt : ∀ s ∈ n.samples, s.label < classes
  classes_eq : n.classes = classes

/-- Counting labels keeps one count for each class. -/
theorem length_tally (classes : Nat) (labels : List Nat) : (Neighbours.tally classes labels).length = classes := by
  have hfold : ∀ votes : List Nat, (labels.foldl (fun votes label => votes.modify label (· + 1)) votes).length =
      votes.length := by
    induction labels with
    | nil => exact fun _ => rfl
    | cons label labels ih =>
        intro votes
        rw [List.foldl_cons, ih, List.length_modify]
  rw [Neighbours.tally, hfold, List.length_replicate]

/-- The label that wins is one of the labels, or the first class. -/
theorem winner_lt {classes : Nat} (hclasses : 0 < classes) {labels : List Nat}
    (h : ∀ label ∈ labels, label < classes) : Neighbours.winner classes labels < classes := by
  unfold Neighbours.winner
  cases hfound : labels.find? fun label =>
      (Neighbours.tally classes labels).getD label 0 == (Neighbours.tally classes labels).foldl max 0 with
  | none =>
      simp only [hfound]
      exact hclasses
  | some label =>
      simp only [hfound]
      exact h label (List.mem_of_find?_eq_some hfound)

end Learn

namespace Guarded

open Learn

variable {classes : Nat} {samples : List Sample}

/-- How many of the labels are each class. -/
def tally (classes : Nat) (labels : List Nat) : Guarded (List Nat) :=
  labels.foldlM (fun votes label => update votes label (· + 1)) (List.replicate classes 0)

/-- The label that comes first of those that are most frequent. -/
def winner (classes : Nat) (labels : List Nat) : Guarded Nat := do
  let votes ← tally classes labels
  let top := votes.foldl max 0
  let found ← find (fun label => do
    let n ← element votes label
    pure (n == top)) labels
  pure (found.getD 0)

/-- The samples are kept; the bounds between which `k` is brought have to be in order. -/
def fitNeighbours (classes k : Nat) (samples : List Sample) : Guarded Neighbours := do
  require (1 ≤ max samples.length 1)
  pure ⟨samples, classes, min (max k 1) (max samples.length 1)⟩

/-- The class of a row. -/
def predictNeighbours (n : Neighbours) (row : Features) : Guarded Nat := do
  let ranked := Neighbours.ranked n.samples row
  let nearest ← front ranked (min n.k ranked.length)
  winner n.classes (nearest.map Prod.snd)

theorem tally_eq {labels : List Nat} (h : ∀ label ∈ labels, label < classes) :
    tally classes labels = .ok (Neighbours.tally classes labels) := by
  refine (foldlM_eq (P := fun votes : List Nat => votes.length = classes) ?_ (List.length_replicate ..)).1
  intro votes label hlabel hvotes
  constructor
  · apply update_eq
    rw [hvotes]
    exact h label hlabel
  · rw [List.length_modify, hvotes]

theorem winner_eq {labels : List Nat} (h : ∀ label ∈ labels, label < classes) :
    winner classes labels = .ok (Neighbours.winner classes labels) := by
  have hvotes : ∀ label ∈ labels, (do
      let n ← element (Neighbours.tally classes labels) label
      pure (n == (Neighbours.tally classes labels).foldl max 0) : Guarded Bool) =
        .ok ((Neighbours.tally classes labels).getD label 0 == (Neighbours.tally classes labels).foldl max 0) := by
    intro label hlabel
    have hlt : label < (Neighbours.tally classes labels).length := by
      rw [length_tally]
      exact h label hlabel
    exact bind_ok (element_eq_getD hlt 0) _
  rw [winner, bind_ok (tally_eq h)]
  exact bind_ok (find_eq hvotes) _

theorem fitNeighbours_eq (hlabel : ∀ s ∈ samples, s.label < classes) (k : Nat) :
    fitNeighbours classes k samples = .ok (Neighbours.fit classes k samples) ∧
      (Neighbours.fit classes k samples).Fits classes := by
  constructor
  · exact bind_ok (require_eq (Nat.le_max_right _ _)) _
  · exact ⟨hlabel, rfl⟩

/-- The labels of the nearest samples are classes. -/
theorem lt_of_mem_ranked (hlabel : ∀ s ∈ samples, s.label < classes) {row : Features} {k : Nat} :
    ∀ label ∈ ((Neighbours.ranked samples row).take k).map Prod.snd, label < classes := by
  intro label hmem
  obtain ⟨pair, hpair, rfl⟩ := List.mem_map.1 hmem
  have hranked := (List.mergeSort_perm _ _).mem_iff.1 (List.mem_of_mem_take hpair)
  obtain ⟨s, hs, rfl⟩ := List.mem_map.1 hranked
  exact hlabel s hs

theorem predictNeighbours_eq {n : Neighbours} (hn : n.Fits classes) (hclasses : 0 < classes) (row : Features) :
    predictNeighbours n row = .ok (n.predict row) ∧ n.predict row < classes := by
  have hlabels : ∀ label ∈ ((Neighbours.ranked n.samples row).take n.k).map Prod.snd, label < classes :=
    lt_of_mem_ranked hn.label_lt
  have htake : (Neighbours.ranked n.samples row).take (min n.k (Neighbours.ranked n.samples row).length) =
      (Neighbours.ranked n.samples row).take n.k := (List.take_eq_take_min ..).symm
  constructor
  · rw [predictNeighbours, bind_ok (front_eq (Nat.min_le_right _ _)), htake, hn.classes_eq, winner_eq hlabels,
      Neighbours.predict, hn.classes_eq]
  · rw [Neighbours.predict, hn.classes_eq]
    exact winner_lt hclasses hlabels

end Guarded
end TableFlow
