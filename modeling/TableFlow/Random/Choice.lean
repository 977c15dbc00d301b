import TableFlow.Random.Generator

/-!
# Random orders and choices

A random order of the first natural numbers, and a random choice of some of them.
-/

namespace TableFlow
namespace Random

/-- Swap each place from `last` down to the second with a random one up to it. -/
def shufflePlaces {α : Type} : (last : Nat) → Array α → Generator → Array α × Generator
  | 0, a, g => (a, g)
  | last + 1, a, g =>
    let (j, g) := g.placeBelow (last + 2)
    shufflePlaces last (a.swapIfInBounds (last + 1) j) g

/-- The elements in random order. -/
def shuffle {α : Type} (a : Array α) (g : Generator) : Array α × Generator :=
  shufflePlaces (a.size - 1) a g

/-- The numbers below `n` in random order. -/
def permutation (n seed : Nat) : List Nat :=
  (shuffle (Array.range n) (.ofSeed seed)).1.toList

/-- Choose by one draw for each place: a number that was drawn before gives way to the place itself, put in
front of it if `inFront`, at the end otherwise. -/
def drawPlaces (inFront : Bool) : List Nat → List Nat → Generator → List Nat × Generator
  | [], chosen, g => (chosen, g)
  | place :: rest, chosen, g =>
    let (t, g) := g.below32 (place + 1)
    let chosen :=
      match chosen.findIdx? (· == t) with
      | some i => if inFront then chosen.insertIdx i place else chosen ++ [place]
      | none => chosen ++ [t]
    drawPlaces inFront rest chosen g

/-- Bring a random choice of the places from each one on to the front. -/
def drawFront (n : Nat) : List Nat → Array Nat → Generator → Array Nat × Generator
  | [], a, g => (a, g)
  | i :: rest, a, g =>
    let (j, g) := g.below32 (n - i)
    drawFront n rest (a.swapIfInBounds i (i + j)) g

/-- Whether few enough numbers are chosen for drawing them one by one. -/
def drawsPlaces (n m : Nat) : Bool :=
  m < 163 && !(11 < m && 10 * n < (100 + 16 * m) * m)

/-- A random choice of `m` of the numbers below `n`, in the order in which they are to be tried. -/
def sample (n m : Nat) (g : Generator) : List Nat × Generator :=
  if drawsPlaces n m then
    let places := (List.range m).map (n - m + ·)
    let (chosen, g) := drawPlaces (decide (m < 50)) places [] g
    if m < 50 then (chosen, g)
    else
      let (a, g) := shuffle chosen.toArray g
      (a.toList, g)
  else
    let (a, g) := drawFront n (List.range m) (Array.range n) g
    (a.toList.take m, g)

end Random
end TableFlow
