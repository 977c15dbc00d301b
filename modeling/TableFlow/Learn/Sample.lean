import TableFlow.Table.Stats

/-!
# Samples

What classifiers are fitted to: rows of numbers with a class and a weight.  Classes are the first natural
numbers.
-/

namespace TableFlow
namespace Learn

/-- The numbers of one row, one for each feature. -/
abbrev Features := Array Float

/-- A row to learn from. -/
structure Sample where
  features : Features
  /-- Its class. -/
  label : Nat
  /-- How much it counts. -/
  weight : Float := 1.0
  deriving Inhabited

/-- The number of a row for a feature. -/
def feature (row : Features) (j : Nat) : Float :=
  row.getD j 0.0

/-- The number of a sample for a feature. -/
def Sample.value (s : Sample) (j : Nat) : Float :=
  feature s.features j

/-- How many features the samples have. -/
def featureCount (samples : List Sample) : Nat :=
  match samples with
  | [] => 0
  | s :: _ => s.features.size

/-- Add an amount at a place. -/
def addAt (totals : List Float) (place : Nat) (amount : Float) : List Float :=
  totals.modify place (· + amount)

/-- The weights of each class, summed in the order of the samples. -/
def classWeights (classes : Nat) (samples : List Sample) : List Float :=
  samples.foldl (fun totals s => addAt totals s.label s.weight) (List.replicate classes 0.0)

/-- The place of the largest score, given the best one so far and the place of the next. -/
def argmaxFrom (best : Nat) (score : Float) (next : Nat) : List Float → Nat
  | [] => best
  | s :: rest =>
    if score < s then argmaxFrom next s (next + 1) rest else argmaxFrom best score (next + 1) rest

/-- The place of the largest score; of equal ones the first. -/
def argmax : List Float → Nat
  | [] => 0
  | s :: rest => argmaxFrom 0 s 1 rest

/-- A natural number as a double. -/
def count (n : Nat) : Float :=
  Decimal.ofInt n

/-- The square of a double. -/
def square (x : Float) : Float :=
  x * x

/-- The larger of two doubles; what is not a number gives way to the other. -/
def larger (x y : Float) : Float :=
  if x.isNaN then y else if x < y then y else x

/-- The place of the largest score is before the end of the scores, or the best place so far. -/
theorem argmaxFrom_lt {best : Nat} {score : Float} {next : Nat} {scores : List Float} {n : Nat}
    (hb : best < n) (hn : next + scores.length ≤ n) : argmaxFrom best score next scores < n := by
  induction scores generalizing best score next with
  | nil => exact hb
  | cons s rest ih =>
    simp only [List.length_cons] at hn
    simp only [argmaxFrom]
    split
    · exact ih (by omega) (by omega)
    · exact ih hb (by omega)

/-- The largest of some scores stands at one of their places. -/
theorem argmax_lt {scores : List Float} (h : scores ≠ []) : argmax scores < scores.length := by
  cases scores with
  | nil => exact absurd rfl h
  | cons s rest => exact argmaxFrom_lt (by simp) (by simp; omega)

end Learn
end TableFlow
