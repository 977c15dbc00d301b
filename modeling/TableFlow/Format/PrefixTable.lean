import TableFlow.Format.StateTable

/-!
# Prefix tables

A prefix code for bytes, given by a weight of each byte: a byte of weight `w > 0` is coded by all words of the
longest length that begin with its own word, and those are `2 ^ (w - 1)`.  The last weight is not transmitted,
since it has to fill the table.
-/

namespace TableFlow

/-- The length of the longest word, and the byte that each word of that length begins with, along with the
length of the byte's own word. -/
structure PrefixTable where
  width : Nat
  words : Array (UInt8 × Nat)
  deriving Repr, Inhabited

namespace PrefixTable

/-- How many words of the longest length a weight takes. -/
def span : (weight : Nat) → Nat
  | 0 => 0
  | n + 1 => Nat.pow 2 n

/-- The longest word that a table may have. -/
def widest : Nat := 12

/-- The table of the given weights and the one that fills it. -/
def ofWeights? (weights : List Nat) : Option PrefixTable :=
  let taken := total (weights.map span)
  let width := Nat.log2 taken + 1
  let last := Nat.log2 (Nat.pow 2 width - taken)
  let all := weights ++ [last + 1]
  if taken = 0 || widest < width || taken + Nat.pow 2 last != Nat.pow 2 width ||
      256 < all.length || !all.contains 1 then none
  else
    let words := (List.range width).flatMap fun n =>
      all.zipIdx.flatMap fun (weight, symbol) =>
        if weight = n + 1 then List.replicate (Nat.pow 2 n) (UInt8.ofNat symbol, width - n) else []
    some ⟨width, words.toArray⟩

/-- Read a byte.  After the last bit the bits count as unset, but may not be used. -/
def next (t : PrefixTable) : BitReader UInt8 := fun bits =>
  let word := (bits.take t.width ++ List.replicate t.width false).take t.width
  match t.words[Bits.highFirst word]? with
  | none => none
  | some (b, used) => (front? used bits).map fun (_, rest) => (b, rest)

/-- Read a number of bytes. -/
def bytes (t : PrefixTable) : (n : Nat) → BitReader Bytes
  | 0 => pure []
  | n + 1 => do
    let b ← t.next
    pure (b :: (← bytes t n))

/-- The bytes that a whole stream codes, read backwards. -/
def stream? (t : PrefixTable) (n : Nat) (packed : Bytes) : Option Bytes := do
  let (content, rest) ← t.bytes n (← Bits.backward? packed)
  if rest.isEmpty then some content else none

/-- The symbols of two states that take turns, until there are no bits for the next one.  The fuel bounds the
number of symbols. -/
def alternate (t : StateTable) : (fuel : Nat) → (this other : CodingState) → Bits →
    Option (List Nat)
  | 0, _, _, _ => none
  | fuel + 1, this, other, bits =>
    match t.next this bits with
    | none => some [this.symbol, other.symbol]
    | some (following, rest) =>
      (alternate t fuel other following rest).map (this.symbol :: ·)

/-- The most weights that are transmitted. -/
def maxWeights : Nat := 255

/-- Weights that a state table codes. -/
def codedWeights? (packed : Bytes) : Option (List Nat) := do
  let (t, stream) ← StateTable.read? 6 maxWeights packed
  let (one, bits) ← t.start (← Bits.backward? stream)
  let (two, bits) ← t.start bits
  alternate t maxWeights one two bits

/-- Read a table, and the bytes after it.  The first byte tells how the weights are transmitted: four bits each,
or coded. -/
def read? : Bytes → Option (PrefixTable × Bytes)
  | [] => none
  | head :: rest => do
    let n := head.toNat
    if n < 128 then
      let (packed, rest) ← front? n rest
      pure (← ofWeights? (← codedWeights? packed), rest)
    else
      let (packed, rest) ← front? ((n - 126) / 2) rest
      let weights := packed.flatMap fun b => [b.toNat / 16, b.toNat % 16]
      pure (← ofWeights? (weights.take (n - 127)), rest)

end PrefixTable
end TableFlow
