import Mathlib.Order.WithBot
import TableFlow.Proofs.Decimal.Value

/-!
# The order of doubles

Doubles are compared by their places on the line of rational numbers with both ends.  What is not a number has no place
there, and is neither before nor after anything, so that not all laws of a linear order hold of doubles.

Main results:

- Definition `place?`: the place of a double on the line.
- Theorems `lt_iff_place` and `le_iff_place`: doubles are compared by their places.
- Theorems `lt_of_lt_of_le`, `le_of_lt` and `not_le_of_lt`: laws that hold of all doubles.
-/

namespace TableFlow
namespace Decimal

open Float.Model

/-- The rational numbers with both ends. -/
abbrev Line := WithBot (WithTop ℚ)

/-- The place on the line; what is not a number has none. -/
def Binary.place? : Binary → Option Line
  | .nan => none
  | .infinite negative => some (if negative then ⊥ else ⊤)
  | .finite b m q => some (((Binary.finite b m q).value : WithTop ℚ) : Line)

/-- The place of a double on the line. -/
def place? (x : Float) : Option Line :=
  (Binary.ofFloat x).place?

section

variable (a : ℚ)

theorem compare_coe (b : ℚ) : compare ((a : WithTop ℚ) : Line) ((b : WithTop ℚ) : Line) = compare a b := by
  rcases lt_trichotomy a b with hlt | rfl | hgt
  · rw [compare_lt_iff_lt.2 hlt, compare_lt_iff_lt]
    simpa using hlt
  · simp
  · rw [compare_gt_iff_gt.2 hgt, compare_gt_iff_gt]
    simpa using hgt

@[simp] theorem compare_coe_top : compare ((a : WithTop ℚ) : Line) ⊤ = .lt :=
  compare_lt_iff_lt.2 (WithBot.coe_lt_coe.2 (WithTop.coe_lt_top a))

@[simp] theorem compare_top_coe : compare ⊤ ((a : WithTop ℚ) : Line) = .gt :=
  compare_gt_iff_gt.2 (WithBot.coe_lt_coe.2 (WithTop.coe_lt_top a))

@[simp] theorem compare_coe_bot : compare ((a : WithTop ℚ) : Line) ⊥ = .gt :=
  compare_gt_iff_gt.2 (WithBot.bot_lt_coe _)

@[simp] theorem compare_bot_coe : compare ⊥ ((a : WithTop ℚ) : Line) = .lt :=
  compare_lt_iff_lt.2 (WithBot.bot_lt_coe _)

end

@[simp] theorem compare_bot_top : compare (⊥ : Line) ⊤ = .lt :=
  compare_lt_iff_lt.2 bot_lt_top

@[simp] theorem compare_top_bot : compare (⊤ : Line) ⊥ = .gt :=
  compare_gt_iff_gt.2 bot_lt_top

/-- An end is compared with any other place. -/
theorem compare_infinite (negative : Bool) (b : Binary) :
    (Binary.infinite negative).unpacked.compare b.unpacked =
        (b.place?.map fun p => compare (if negative then ⊥ else ⊤) p) ∧
      b.unpacked.compare (Binary.infinite negative).unpacked =
        (b.place?.map fun p => compare p (if negative then ⊥ else ⊤)) := by
  cases b with
  | nan => cases negative <;> exact ⟨rfl, rfl⟩
  | infinite other =>
      cases negative <;> cases other <;>
        simp [Binary.unpacked, Binary.place?, UnpackedFloat.compare, signOf] <;> decide
  | finite s m q =>
      simp only [Binary.unpacked]
      split <;> cases negative <;> simp [Binary.place?, UnpackedFloat.compare, signOf]

/-- Doubles are compared by their places. -/
theorem compare_eq_place (x y : Float) :
    x.toModel.unpack.compare y.toModel.unpack = (place? x).bind fun p => (place? y).map (compare p) := by
  rw [unpack_eq, unpack_eq, place?, place?]
  cases hx : Binary.ofFloat x with
  | nan => rfl
  | infinite negative => exact (compare_infinite negative _).1
  | finite b m q =>
      cases hy : Binary.ofFloat y with
      | nan =>
          simp only [Binary.unpacked]
          split <;> rfl
      | infinite negative => exact (compare_infinite negative _).2
      | finite c n r =>
          rw [compare_unpacked (isDouble_of_ofFloat hx).1 (isDouble_of_ofFloat hy).1]
          simp [Binary.place?, compare_coe]

variable {x y z : Float}

theorem lt_iff_place : x < y ↔ ∃ p ∈ place? x, ∃ q ∈ place? y, p < q := by
  have hlt : x < y ↔ x.toModel.unpack.lt y.toModel.unpack = true := by
    show Float.lt x y = true ↔ _
    exact decide_eq_true_iff
  rw [hlt, UnpackedFloat.lt, compare_eq_place]
  cases place? x <;> cases place? y <;> simp [compare_lt_iff_lt]

theorem le_iff_place : x ≤ y ↔ ∃ p ∈ place? x, ∃ q ∈ place? y, p ≤ q := by
  have hle : x ≤ y ↔ x.toModel.unpack.le y.toModel.unpack = true := by
    show Float.le x y = true ↔ _
    exact decide_eq_true_iff
  rw [hle, UnpackedFloat.le, compare_eq_place]
  cases place? x <;> cases place? y <;> simp [compare_le_iff_le, Ordering.isLE_iff_ne_gt]

theorem lt_of_lt_of_le (hxy : x < y) (hyz : y ≤ z) : x < z := by
  obtain ⟨p, hp, q, hq, hpq⟩ := lt_iff_place.1 hxy
  obtain ⟨q', hq', r, hr, hqr⟩ := le_iff_place.1 hyz
  cases Option.mem_unique hq hq'
  exact lt_iff_place.2 ⟨p, hp, r, hr, hpq.trans_le hqr⟩

theorem le_of_lt (h : x < y) : x ≤ y := by
  obtain ⟨p, hp, q, hq, hpq⟩ := lt_iff_place.1 h
  exact le_iff_place.2 ⟨p, hp, q, hq, hpq.le⟩

theorem not_le_of_lt (h : x < y) : ¬y ≤ x := by
  intro hle
  obtain ⟨p, hp, q, hq, hpq⟩ := lt_iff_place.1 (lt_of_lt_of_le h hle)
  cases Option.mem_unique hp hq
  exact lt_irrefl p hpq

end Decimal
end TableFlow
