import TableFlow.Text.Utf8

/-!
# Bits of packed data

Packed data is read bit by bit, either from the lowest bit of its first byte on, or backwards from a mark in
its last byte.  Both readings are lists of bits here, the next bit first.
-/

namespace TableFlow

/-- The first items and the others, if there are as many. -/
def front? {α : Type} : (n : Nat) → List α → Option (List α × List α)
  | 0, rest => some ([], rest)
  | _ + 1, [] => none
  | n + 1, a :: rest => (front? n rest).map fun (front, rest) => (a :: front, rest)

/-- Bits that are still to be read, the next one first. -/
abbrev Bits := List Bool

/-- An action that reads bits, or finds that they make no sense. -/
abbrev BitReader := StateT Bits Option

namespace Bits

/-- The lowest bits of a number, the lowest first. -/
def ofNat : (width : Nat) → Nat → Bits
  | 0, _ => []
  | width + 1, n => (n % 2 == 1) :: ofNat width (n / 2)

/-- The bits of bytes, from the lowest of the first byte on. -/
def ofBytes (bytes : Bytes) : Bits :=
  bytes.flatMap fun b => ofNat 8 b.toNat

/-- The bits of bytes, backwards from the highest set bit of the last byte, which is itself only a mark. -/
def backward? (bytes : Bytes) : Option Bits :=
  match bytes.reverse with
  | [] => none
  | b :: rest =>
    if b = 0 then none
    else
      let first := ((ofNat 8 b.toNat).reverse.dropWhile (!·)).drop 1
      some (first ++ rest.flatMap fun b => (ofNat 8 b.toNat).reverse)

/-- The number that bits spell, the lowest first. -/
def lowFirst : Bits → Nat
  | [] => 0
  | b :: rest => b.toNat + 2 * lowFirst rest

/-- The number that bits spell, the highest first. -/
def highFirst (bits : Bits) : Nat :=
  bits.foldl (fun n b => 2 * n + b.toNat) 0

/-- Read a number of a width whose lowest bit comes first. -/
def low (width : Nat) : BitReader Nat := fun bits =>
  (front? width bits).map fun (front, rest) => (lowFirst front, rest)

/-- Read a number of a width whose highest bit comes first. -/
def high (width : Nat) : BitReader Nat := fun bits =>
  (front? width bits).map fun (front, rest) => (highFirst front, rest)

end Bits
end TableFlow
