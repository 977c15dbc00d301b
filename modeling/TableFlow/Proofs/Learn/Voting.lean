import Mathlib.Data.List.Nodup
import TableFlow.Proofs.Guarded.Neighbours

/-!
# How the nearest samples vote

The samples are put in the order of their distances to a row, and samples at the same distance stay in the order in
which they were learned, so that there is one ranking of them.  Its first samples vote, as many as were asked for, but at
least one and at most all.  The most frequent label wins, and of labels that are as frequent the one that comes first in
the ranking.  Where no two distances are the same, the ranking does not depend on the order of the samples, and neither
does the winner.

Main results:

- Definition `Neighbours.Ranks`: the samples with their places, the nearest first.
- Definition `Neighbours.Elects`: the label that wins a vote.
- Theorem `Neighbours.ranks_ranking`: sorting by distance gives the one ranking of the samples.
- Theorem `Neighbours.elects_winner`: what is counted and looked up finds the winner of the vote.
- Theorem `Neighbours.ranked_perm`: samples at different distances are ranked alike in any order.
- Theorem `nearest_samples_vote`: the class of a row.
-/

namespace TableFlow
namespace Learn
namespace Neighbours

variable {samples others : List Sample} {row : Features} {labels : List Nat} {classes k : Nat}

/-! ## Rankings -/

/-- The place of a sample in the order of distances to a row. -/
def farness (row : Features) (s : Sample) : Int :=
  Decimal.rank (distance s.features row)

/-- One sample with its place comes before another one: it is nearer, or as near and learned earlier. -/
def ComesBefore (row : Features) (a b : Sample × Nat) : Prop :=
  farness row a.1 < farness row b.1 ∨ (farness row a.1 = farness row b.1 ∧ a.2 < b.2)

instance (row : Features) (a b : Sample × Nat) : Decidable (ComesBefore row a b) :=
  inferInstanceAs (Decidable (_ ∨ _))

/-- The samples with their places, in the order of their distances to a row. -/
structure Ranks (samples : List Sample) (row : Features) (ranking : List (Sample × Nat)) : Prop where
  perm : ranking.Perm samples.zipIdx
  ordered : ranking.Pairwise (ComesBefore row)

/-- There is one ranking at most. -/
theorem Ranks.eq {ranking other : List (Sample × Nat)} (h : Ranks samples row ranking)
    (hother : Ranks samples row other) : ranking = other := by
  apply (h.perm.trans hother.perm.symm).eq_of_pairwise _ h.ordered hother.ordered
  intro a b _ _ hab hba
  unfold ComesBefore at hab hba
  omega

theorem Ranks.length_eq {ranking : List (Sample × Nat)} (h : Ranks samples row ranking) :
    ranking.length = samples.length := by
  rw [h.perm.length_eq, List.length_zipIdx]

/-- The samples of a ranking are the samples. -/
theorem Ranks.mem {ranking : List (Sample × Nat)} (h : Ranks samples row ranking) {s : Sample × Nat}
    (hs : s ∈ ranking) : s.1 ∈ samples :=
  List.mem_of_getElem? (List.mem_zipIdx_iff_getElem?.1 (h.perm.mem_iff.1 hs))

/-- One sample is no farther from a row than another. -/
def noFarther (row : Features) (a b : Sample) : Bool :=
  Decimal.rankLe (distance a.features row) (distance b.features row)

theorem noFarther_eq_true_iff {a b : Sample} : noFarther row a b = true ↔ farness row a ≤ farness row b :=
  decide_eq_true_iff

theorem noFarther_trans (a b c : Sample) (hab : noFarther row a b = true) (hbc : noFarther row b c = true) :
    noFarther row a c = true := by
  rw [noFarther_eq_true_iff] at hab hbc ⊢
  exact Int.le_trans hab hbc

theorem noFarther_total (a b : Sample) : (noFarther row a b || noFarther row b a) = true := by
  rw [Bool.or_eq_true, noFarther_eq_true_iff, noFarther_eq_true_iff]
  exact Int.le_total _ _

/-- The samples with their places, sorted by distance and then by place. -/
def ranking (samples : List Sample) (row : Features) : List (Sample × Nat) :=
  samples.zipIdx.mergeSort (List.zipIdxLE (noFarther row))

/-- Samples with different places that are in order come strictly one before the other. -/
theorem comesBefore_of_zipIdxLE {a b : Sample × Nat} (h : List.zipIdxLE (noFarther row) a b = true)
    (hne : a.2 ≠ b.2) : ComesBefore row a b := by
  simp only [List.zipIdxLE, noFarther_eq_true_iff] at h
  unfold ComesBefore
  split at h
  · split at h
    · rw [decide_eq_true_eq] at h
      omega
    · omega
  · cases h

/-- Sorting by distance and then by place ranks the samples. -/
theorem ranks_ranking (samples : List Sample) (row : Features) : Ranks samples row (ranking samples row) := by
  have hperm : (ranking samples row).Perm samples.zipIdx := List.mergeSort_perm _ _
  refine ⟨hperm, ?_⟩
  have hsorted : (ranking samples row).Pairwise fun a b => List.zipIdxLE (noFarther row) a b = true :=
    List.pairwise_mergeSort (List.zipIdxLE_trans noFarther_trans) (List.zipIdxLE_total noFarther_total) _
  have hplaces : ((ranking samples row).map Prod.snd).Nodup := by
    apply (hperm.map Prod.snd).nodup_iff.2
    rw [List.zipIdx_map_snd]
    exact List.nodup_range'
  apply (hsorted.and (List.pairwise_map.1 hplaces)).imp
  rintro a b ⟨hle, hne⟩
  exact comesBefore_of_zipIdxLE hle hne

/-- The distances and classes are those of the samples in the order of their distances. -/
theorem ranked_eq_map (samples : List Sample) (row : Features) :
    ranked samples row =
      (samples.mergeSort (noFarther row)).map fun s => (distance s.features row, s.label) := by
  symm
  apply List.map_mergeSort
  intro a _ b _
  rfl

/-- The distances and classes of the samples are in the order of the ranking. -/
theorem ranked_eq (samples : List Sample) (row : Features) :
    ranked samples row = (ranking samples row).map fun s => (distance s.1.features row, s.1.label) := by
  have hsorted : (ranking samples row).map Prod.fst = samples.mergeSort (noFarther row) := List.mergeSort_zipIdx
  rw [ranked_eq_map, ← hsorted, List.map_map]
  rfl

/-- Samples at different distances are ranked alike in any order. -/
theorem ranked_perm (hperm : others.Perm samples) (hdistinct : (samples.map (farness row)).Nodup) :
    ranked others row = ranked samples row := by
  have hsame : others.mergeSort (noFarther row) = samples.mergeSort (noFarther row) := by
    have hothers := List.mergeSort_perm others (noFarther row)
    have hsamples := List.mergeSort_perm samples (noFarther row)
    apply (hothers.trans (hperm.trans hsamples.symm)).eq_of_pairwise _
      (List.pairwise_mergeSort noFarther_trans noFarther_total _)
      (List.pairwise_mergeSort noFarther_trans noFarther_total _)
    intro a b ha hb hab hba
    rw [noFarther_eq_true_iff] at hab hba
    exact List.inj_on_of_nodup_map hdistinct (hperm.mem_iff.1 (hothers.mem_iff.1 ha)) (hsamples.mem_iff.1 hb)
      (Int.le_antisymm hab hba)
  rw [ranked_eq_map, ranked_eq_map, hsame]

/-! ## Votes -/

/-- The label gets the most votes, and of the labels that get as many its first vote comes earliest. -/
structure Elects (votes : List Nat) (label : Nat) : Prop where
  mem : label ∈ votes
  most : ∀ other, votes.count other ≤ votes.count label
  earliest : ∀ other ∈ votes, votes.count other = votes.count label → votes.idxOf label ≤ votes.idxOf other

/-- A label that no label outnumbers wins if none before its first vote gets as many. -/
theorem elects_of_split {before after : List Nat} {label : Nat} (hsplit : labels = before ++ label :: after)
    (hmost : ∀ other, labels.count other ≤ labels.count label)
    (hbefore : ∀ other ∈ before, labels.count other ≠ labels.count label) : Elects labels label := by
  have hplace : ∀ other, labels.count other = labels.count label →
      labels.idxOf other = (label :: after).idxOf other + before.length := by
    intro other hsame
    have hnot : other ∉ before := fun hmem => hbefore other hmem hsame
    rw [hsplit, List.idxOf_append, if_neg hnot]
  refine ⟨by simp [hsplit], hmost, ?_⟩
  intro other _ hsame
  rw [hplace label rfl, hplace other hsame, List.idxOf_cons_self]
  omega

/-- The tally holds the number of votes of each class. -/
theorem tally_eq_map (classes : Nat) (labels : List Nat) :
    tally classes labels = (List.range classes).map fun label => labels.count label := by
  rw [tally, Guarded.foldl_modify_replicate (fun label => label) (fun votes _ => votes + 1)]
  apply List.map_congr_left
  intro label _
  rw [Guarded.foldl_succ, Nat.zero_add, List.count_eq_length_filter]

theorem getD_tally {label : Nat} (h : label < classes) : (tally classes labels).getD label 0 = labels.count label := by
  simp [tally_eq_map, List.getD_eq_getElem?_getD, h]

/-- The highest of some counts is not below any of them, and is one of them. -/
theorem foldl_max_spec {counts : List Nat} (hne : counts ≠ []) :
    counts.foldl max 0 ∈ counts ∧ ∀ n ∈ counts, n ≤ counts.foldl max 0 := by
  obtain ⟨top, htop⟩ := Option.ne_none_iff_exists'.1 (mt List.max?_eq_none_iff.1 hne)
  obtain ⟨hmem, hle⟩ := List.max?_eq_some_iff.1 htop
  rw [List.foldl_max, htop, Option.getD_some, Nat.zero_max]
  exact ⟨hmem, hle⟩

/-- The votes of the label with the most votes. -/
def highest (classes : Nat) (labels : List Nat) : Nat :=
  (tally classes labels).foldl max 0

/-- No label gets more votes than the highest count says, and some label gets as many. -/
theorem highest_spec (hlabels : ∀ label ∈ labels, label < classes) (hne : labels ≠ []) :
    (∀ label, labels.count label ≤ highest classes labels) ∧
      ∃ label ∈ labels, labels.count label = highest classes labels := by
  obtain ⟨label, hlabel⟩ := List.exists_mem_of_ne_nil labels hne
  have hcounts : tally classes labels ≠ [] := by
    rw [← List.length_pos_iff, length_tally]
    exact Nat.lt_of_le_of_lt (Nat.zero_le label) (hlabels label hlabel)
  obtain ⟨htop, hle⟩ := foldl_max_spec hcounts
  have hmost : ∀ label, labels.count label ≤ highest classes labels := by
    intro label
    by_cases hlabel : label ∈ labels
    · apply hle
      rw [tally_eq_map]
      exact List.mem_map_of_mem (List.mem_range.2 (hlabels label hlabel))
    · rw [List.count_eq_zero_of_not_mem hlabel]
      exact Nat.zero_le _
  refine ⟨hmost, ?_⟩
  rw [tally_eq_map] at htop
  obtain ⟨place, -, hplace⟩ := List.mem_map.1 htop
  rw [← tally_eq_map] at hplace
  have hvoted : 0 < labels.count place := by
    rw [hplace]
    exact Nat.lt_of_lt_of_le (List.count_pos_iff.2 hlabel) (hmost label)
  exact ⟨place, List.count_pos_iff.1 hvoted, hplace⟩

/-- The winner is the first label that gets the most votes. -/
theorem exists_split_winner (hlabels : ∀ label ∈ labels, label < classes) (hne : labels ≠ []) :
    ∃ before after, labels = before ++ winner classes labels :: after ∧
      labels.count (winner classes labels) = highest classes labels ∧
      ∀ other ∈ before, labels.count other ≠ highest classes labels := by
  have htest : ∀ label ∈ labels, ((tally classes labels).getD label 0 == highest classes labels) = true ↔
      labels.count label = highest classes labels := by
    intro label hlabel
    rw [getD_tally (hlabels label hlabel), beq_iff_eq]
  have hfound : ∃ label, (labels.find? fun label =>
      (tally classes labels).getD label 0 == highest classes labels) = some label := by
    obtain ⟨place, hplace, hcount⟩ := (highest_spec hlabels hne).2
    apply Option.isSome_iff_exists.1
    exact List.find?_isSome.2 ⟨place, hplace, (htest place hplace).2 hcount⟩
  obtain ⟨label, hfound⟩ := hfound
  have hwinner : winner classes labels = label := by
    rw [winner]
    exact congrArg (·.getD 0) hfound
  obtain ⟨hpasses, before, after, hsplit, hbefore⟩ := List.find?_eq_some_iff_append.1 hfound
  rw [hwinner]
  refine ⟨before, after, hsplit, (htest label (List.mem_of_find?_eq_some hfound)).1 hpasses, ?_⟩
  intro other hother hcount
  have hmem : other ∈ labels := by simp [hsplit, hother]
  have hfails := hbefore other hother
  rw [(htest other hmem).2 hcount] at hfails
  cases hfails

/-- The first label with the highest count wins the vote. -/
theorem elects_winner (hlabels : ∀ label ∈ labels, label < classes) (hne : labels ≠ []) :
    Elects labels (winner classes labels) := by
  obtain ⟨before, after, hsplit, hcount, hbefore⟩ := exists_split_winner hlabels hne
  apply elects_of_split hsplit
  · intro other
    rw [hcount]
    exact (highest_spec hlabels hne).1 other
  · intro other hother
    rw [hcount]
    exact hbefore other hother

/-- The labels of the first samples of the ranking vote for the class of a row. -/
theorem predict_fit (k : Nat) (row : Features) (hsome : samples ≠ []) :
    (fit classes k samples).predict row =
      winner classes (((ranking samples row).take (min (max k 1) samples.length)).map fun s => s.1.label) := by
  have hlength : 0 < samples.length := List.length_pos_iff.2 hsome
  have hvoters : min (max k 1) (max samples.length 1) = min (max k 1) samples.length := by omega
  rw [predict, fit, hvoters, ranked_eq, ← List.map_take, List.map_map]
  rfl

end Neighbours

/-- A row that is asked for gets an answer: the label that wins the vote of the nearest samples, as many as were asked
for, but at least one and at most all.  Where no two samples are equally far from the row, the samples may be learned in
any order. -/
theorem nearest_samples_vote {classes : Nat} {samples : List Sample} (k : Nat) (row : Features) (hsome : samples ≠ [])
    (hlabels : ∀ s ∈ samples, s.label < classes) :
    (do
      let n ← Guarded.fitNeighbours classes k samples
      Guarded.predictNeighbours n row) = .ok ((Neighbours.fit classes k samples).predict row) ∧
      (∃ ranking, Neighbours.Ranks samples row ranking ∧
        (∀ other, Neighbours.Ranks samples row other → other = ranking) ∧
        Neighbours.Elects ((ranking.take (min (max k 1) samples.length)).map fun s => s.1.label)
          ((Neighbours.fit classes k samples).predict row)) ∧
      ((samples.map (Neighbours.farness row)).Nodup → ∀ others : List Sample, others.Perm samples →
        (Neighbours.fit classes k others).predict row = (Neighbours.fit classes k samples).predict row) := by
  have hclasses : 0 < classes := by
    obtain ⟨s, hs⟩ := List.exists_mem_of_ne_nil samples hsome
    exact Nat.lt_of_le_of_lt (Nat.zero_le s.label) (hlabels s hs)
  obtain ⟨hfit, hfits⟩ := Guarded.fitNeighbours_eq hlabels k
  refine ⟨?_, ⟨_, Neighbours.ranks_ranking samples row, ?_, ?_⟩, ?_⟩
  · rw [Guarded.bind_ok hfit]
    exact (Guarded.predictNeighbours_eq hfits hclasses row).1
  · intro other hother
    exact hother.eq (Neighbours.ranks_ranking samples row)
  · rw [Neighbours.predict_fit k row hsome]
    apply Neighbours.elects_winner
    · intro label hlabel
      obtain ⟨s, hs, rfl⟩ := List.mem_map.1 hlabel
      exact hlabels s.1 ((Neighbours.ranks_ranking samples row).mem (List.mem_of_mem_take hs))
    · have hlength : 0 < samples.length := List.length_pos_iff.2 hsome
      have hranked := (Neighbours.ranks_ranking samples row).length_eq
      rw [ne_eq, ← List.length_eq_zero_iff, List.length_map, List.length_take, hranked]
      omega
  · intro hdistinct others hperm
    rw [Neighbours.predict, Neighbours.predict, Neighbours.fit, Neighbours.fit, Neighbours.ranked_perm hperm hdistinct,
      hperm.length_eq]

/-- Samples of two classes on a line, two of each. -/
def lineSamples : List Sample :=
  [⟨#[1], 1, 1⟩, ⟨#[2], 0, 1⟩, ⟨#[3], 0, 1⟩, ⟨#[4], 1, 1⟩]

/-- All of them vote when more are asked for, and the nearest one decides, in whatever order they are learned. -/
theorem nearest_samples_vote_of_lineSamples :
    (do
      let n ← Guarded.fitNeighbours 2 9 lineSamples
      Guarded.predictNeighbours n #[0]) = .ok 1 ∧
      ∀ others : List Sample, others.Perm lineSamples → (Neighbours.fit 2 9 others).predict #[0] = 1 := by
  have hdistinct : (lineSamples.map (Neighbours.farness #[0])).Nodup := by decide +kernel
  have hranks : Neighbours.Ranks lineSamples #[0] lineSamples.zipIdx := ⟨List.Perm.refl _, by decide +kernel⟩
  obtain ⟨hanswer, ⟨ranking, _, hunique, helects⟩, hperm⟩ :=
    @nearest_samples_vote 2 lineSamples 9 #[0] (by simp [lineSamples]) (by simp [lineSamples])
  rw [← hunique _ hranks] at helects
  have hvotes : Neighbours.Elects [1, 0, 0, 1] ((Neighbours.fit 2 9 lineSamples).predict #[0]) := helects
  have hpredict : (Neighbours.fit 2 9 lineSamples).predict #[0] = 1 := by
    generalize (Neighbours.fit 2 9 lineSamples).predict #[0] = label at hvotes
    have hcases : label = 1 ∨ label = 0 := by
      have hmem := hvotes.mem
      simp only [List.mem_cons, List.not_mem_nil, or_false] at hmem
      omega
    rcases hcases with rfl | rfl
    · rfl
    · exact absurd (hvotes.earliest 1 (by decide) (by decide)) (by decide)
  rw [hpredict] at hanswer hperm
  exact ⟨hanswer, hperm hdistinct⟩

end Learn
end TableFlow
