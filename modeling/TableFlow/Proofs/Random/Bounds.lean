import Mathlib.Data.List.Perm.Basic
import TableFlow.Random.Choice

/-!
# Random numbers stay in their bounds

A number that is drawn below a bound is below it.  So a random order of the first numbers has each of them once, and a
random choice among them has none beyond them.

Main results:

- Theorems `below32_lt` and `below64_lt`: a number that is drawn below a bound is below it.
- Theorem `permutation_perm`: a random order of the first numbers has each of them once.
- Theorem `lt_of_mem_sample`: what is chosen of the first numbers is one of them.
-/

namespace TableFlow
namespace Random

/-! ## Numbers below a bound -/

namespace Generator

variable {n : Nat}

/-- Scaling a word down to a bound brings it below the bound. -/
theorem scaled_lt {v size : Nat} (hn : 0 < n) (hv : v < size) : v * n / size < n := by
  rw [Nat.div_lt_iff_lt_mul (Nat.zero_lt_of_lt hv), Nat.mul_comm n size]
  exact Nat.mul_lt_mul_of_pos_right hv hn

/-- A number that is drawn below a bound from words of a width is below it, however often a word is rejected. -/
theorem drawBelow_lt {width : Nat} {draw : Generator → Nat × Generator}
    (hdraw : ∀ g, (draw g).1 < Nat.pow 2 width) (hn : 0 < n) (tries : Nat) (g : Generator) :
    (drawBelow width draw n tries g).1 < n := by
  induction tries generalizing g with
  | zero => exact scaled_lt hn (hdraw g)
  | succ tries ih =>
      simp only [drawBelow]
      split
      · exact scaled_lt hn (hdraw g)
      · exact ih _

theorem below32_lt (hn : 0 < n) (g : Generator) : (g.below32 n).1 < n :=
  drawBelow_lt (fun g => g.word32.1.toNat_lt) hn maxDraws g

theorem below64_lt (hn : 0 < n) (g : Generator) : (g.below64 n).1 < n :=
  drawBelow_lt (fun g => g.word64.1.toNat_lt) hn maxDraws g

end Generator

/-! ## Random orders -/

variable {α : Type}

theorem swapIfInBounds_perm (a : Array α) (i j : Nat) :
    (a.swapIfInBounds i j).toList.Perm a.toList := by
  unfold Array.swapIfInBounds
  split
  · split
    · exact (Array.swap_perm _ _).toList
    · exact List.Perm.refl _
  · exact List.Perm.refl _

theorem shufflePlaces_perm (last : Nat) (a : Array α) (g : Generator) :
    (shufflePlaces last a g).1.toList.Perm a.toList := by
  induction last generalizing a g with
  | zero => exact List.Perm.refl _
  | succ last ih =>
      simp only [shufflePlaces]
      exact (ih _ _).trans (swapIfInBounds_perm a _ _)

/-- A random order has the elements that it orders. -/
theorem shuffle_perm (a : Array α) (g : Generator) : (shuffle a g).1.toList.Perm a.toList :=
  shufflePlaces_perm _ a g

/-- A random order of the first numbers has each of them once. -/
theorem permutation_perm (n seed : Nat) : (permutation n seed).Perm (List.range n) := by
  have h := shuffle_perm (Array.range n) (.ofSeed seed)
  rwa [Array.toList_range] at h

theorem length_permutation (n seed : Nat) : (permutation n seed).length = n := by
  rw [(permutation_perm n seed).length_eq, List.length_range]

theorem lt_of_mem_permutation {n seed i : Nat} (h : i ∈ permutation n seed) : i < n :=
  List.mem_range.1 ((permutation_perm n seed).mem_iff.1 h)

/-! ## Random choices -/

/-- One draw for each place chooses numbers up to the place. -/
theorem lt_of_mem_drawPlaces {n : Nat} {inFront : Bool} {places chosen : List Nat} {g : Generator}
    (hplaces : ∀ place ∈ places, place < n) (hchosen : ∀ i ∈ chosen, i < n) :
    ∀ i ∈ (drawPlaces inFront places chosen g).1, i < n := by
  induction places generalizing chosen g with
  | nil => exact hchosen
  | cons place places ih =>
      have hplace : place < n := hplaces place List.mem_cons_self
      have hdrawn : (g.below32 (place + 1)).1 < n :=
        Nat.lt_of_lt_of_le (Generator.below32_lt (Nat.succ_pos place) g) hplace
      simp only [drawPlaces]
      apply ih
      · intro other hother
        exact hplaces other (List.mem_cons_of_mem _ hother)
      · split
        · next i hfound =>
            have hi : i ≤ chosen.length := by
              obtain ⟨hlt, _⟩ := List.findIdx?_eq_some_iff_getElem.1 hfound
              exact Nat.le_of_lt hlt
            split
            · intro k hk
              rcases (List.mem_insertIdx hi).1 hk with rfl | hk
              · exact hplace
              · exact hchosen k hk
            · intro k hk
              rcases List.mem_append.1 hk with hk | hk
              · exact hchosen k hk
              · rw [List.mem_singleton.1 hk]
                exact hplace
        · intro k hk
          rcases List.mem_append.1 hk with hk | hk
          · exact hchosen k hk
          · rw [List.mem_singleton.1 hk]
            exact hdrawn

theorem drawFront_perm (n : Nat) (places : List Nat) (a : Array Nat) (g : Generator) :
    (drawFront n places a g).1.toList.Perm a.toList := by
  induction places generalizing a g with
  | nil => exact List.Perm.refl _
  | cons i places ih =>
      simp only [drawFront]
      exact (ih _ _).trans (swapIfInBounds_perm a _ _)

/-- What is chosen of the first numbers is one of them. -/
theorem lt_of_mem_sample {n m : Nat} (hm : m ≤ n) {g : Generator} :
    ∀ i ∈ (sample n m g).1, i < n := by
  have hplaces : ∀ place ∈ (List.range m).map (n - m + ·), place < n := by
    intro place hplace
    obtain ⟨i, hi, rfl⟩ := List.mem_map.1 hplace
    have hlt : i < m := List.mem_range.1 hi
    omega
  have hdrawn : ∀ i ∈ (drawPlaces (decide (m < 50)) ((List.range m).map (n - m + ·)) [] g).1, i < n :=
    lt_of_mem_drawPlaces hplaces (by simp)
  simp only [sample]
  split
  · split
    · exact hdrawn
    · intro i hi
      have horder := shuffle_perm (drawPlaces (decide (m < 50)) ((List.range m).map (n - m + ·)) [] g).1.toArray
        (drawPlaces (decide (m < 50)) ((List.range m).map (n - m + ·)) [] g).2
      exact hdrawn i (by simpa using horder.mem_iff.1 hi)
  · intro i hi
    have hmem := (drawFront_perm n (List.range m) (Array.range n) g).mem_iff.1 (List.mem_of_mem_take hi)
    rw [Array.toList_range] at hmem
    exact List.mem_range.1 hmem

end Random
end TableFlow
