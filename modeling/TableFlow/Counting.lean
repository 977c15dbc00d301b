/-!
# Counting

Bounds of 64 bit numbers, and sums of counts.
-/

namespace TableFlow

/-- The first number that does not fit into 64 bits. -/
def wordBound : Nat := 0x10000000000000000

/-- The first number that does not fit into 63 bits. -/
def signBound : Nat := 0x8000000000000000

/-- The sum of counts. -/
def total (counts : List Nat) : Nat :=
  counts.foldr (· + ·) 0

@[simp] theorem total_nil : total [] = 0 := rfl

@[simp] theorem total_cons (n : Nat) (counts : List Nat) : total (n :: counts) = n + total counts :=
  rfl

/-- The sum of two lists of counts is the sum of their sums. -/
@[simp] theorem total_append (a b : List Nat) : total (a ++ b) = total a + total b := by
  induction a with
  | nil => simp
  | cons n rest ih => simp [ih, Nat.add_assoc]

/-- Counts that add up for each item add up in total. -/
theorem total_map_add {α : Type} {f g h : α → Nat} {items : List α} (hitems : ∀ a ∈ items, f a + g a = h a) :
    total (items.map f) + total (items.map g) = total (items.map h) := by
  induction items with
  | nil => rfl
  | cons a items ih =>
      have hfirst := hitems a (by simp)
      have hrest := ih fun b hb => hitems b (by simp [hb])
      simp only [List.map_cons, total_cons]
      omega

end TableFlow
