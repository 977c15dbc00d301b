import TableFlow.Counting
import TableFlow.Format.Bits

/-!
# State tables

A coding in which each symbol owns some of `2 ^ width` states, and each state tells its symbol and how many
bits choose the next state.  A table is given by how many states each symbol owns, or transmitted so.
-/

namespace TableFlow

/-- The states that a symbol owns. -/
inductive Share where
  /-- One state, near the end of the table. -/
  | rare
  /-- So many states, spread over the table. -/
  | states (n : Nat)
  deriving DecidableEq, Repr, Inhabited

/-- The number of states that a symbol owns. -/
def Share.size : Share → Nat
  | .rare => 1
  | .states n => n

/-- A state: its symbol, and that the next state is `base` plus a number of `width` bits. -/
structure CodingState where
  symbol : Nat
  width : Nat
  base : Nat
  deriving DecidableEq, Repr, Inhabited

/-- The states, and the number of bits that choose the first one. -/
structure StateTable where
  width : Nat
  states : Array CodingState
  deriving Repr, Inhabited

namespace StateTable

/-- The table of one state, which shows the same symbol for ever. -/
def single (symbol : Nat) : StateTable := ⟨0, #[⟨symbol, 0, 0⟩]⟩

/-- The symbols of the states.  Rare symbols stand at the end, the first of them last; the states of the others
are handed out in the order of the places `0, step, 2 * step, …`, where `step` is odd, so that every place
comes up. -/
def layout (width : Nat) (shares : List Share) : Array Nat :=
  let size := Nat.pow 2 width
  let step := size / 2 + size / 8 + 3
  let indexed := shares.zipIdx
  let rare := (indexed.filter (·.1 == .rare)).map Prod.snd
  let common := indexed.flatMap fun (share, symbol) =>
    match share with
    | .rare => []
    | .states n => List.replicate n symbol
  let places := ((List.range size).map (· * step % size)).filter (· < size - rare.length)
  let placed := places.zip common ++ ((List.range rare.length).map (size - 1 - ·)).zip rare
  placed.foldl (fun symbols (place, symbol) => symbols.setIfInBounds place symbol)
    (Array.replicate size 0)

/-- The states with the given symbols.  The states of a symbol are numbered on from its share, and the `n`th of
them reads as many bits as `n` lacks to the size of the table. -/
def numbered (width : Nat) (numbers : Array Nat) : (symbols : List Nat) → List CodingState
  | [] => []
  | symbol :: rest =>
    let n := numbers.getD symbol 1
    let missing := width - Nat.log2 n
    ⟨symbol, missing, n * Nat.pow 2 missing - Nat.pow 2 width⟩ ::
      numbered width (numbers.setIfInBounds symbol (n + 1)) rest

/-- The table in which the symbols own the given shares. -/
def ofShares (width : Nat) (shares : List Share) : StateTable :=
  ⟨width, (numbered width (shares.map Share.size).toArray (layout width shares).toList).toArray⟩

/-- Read how many further symbols own nothing.  The fuel bounds the numbers read. -/
def absent : (fuel : Nat) → BitReader Nat
  | 0 => failure
  | fuel + 1 => do
    let n ← Bits.low 2
    if n = 3 then pure (3 + (← absent fuel)) else pure n

/-- Read a number that is at most `left + 1`.  Low numbers take a bit less. -/
def upTo (left : Nat) : BitReader Nat := do
  let width := Nat.log2 (left + 1)
  let n ← Bits.low width
  let short := 2 * Nat.pow 2 width - 2 - left
  if n < short then pure n
  else if (← Bits.low 1) = 0 then pure n
  else pure (n + Nat.pow 2 width - short)

/-- Read the shares of symbols until all states are owned.  The fuel bounds the number of symbols. -/
def shares : (fuel left : Nat) → BitReader (List Share)
  | _, 0 => pure []
  | 0, _ + 1 => failure
  | fuel + 1, left + 1 => do
    match ← upTo (left + 1) with
    | 0 => pure (.rare :: (← shares fuel left))
    | 1 =>
      let n ← absent fuel
      pure (List.replicate (n + 1) (.states 0) ++ (← shares fuel (left + 1)))
    | n + 2 =>
      if left < n then failure
      else pure (.states (n + 1) :: (← shares fuel (left - n)))

/-- Read a table whose states have at most `widest` bits and whose symbols are at most `last`, and the bytes
after it. -/
def read? (widest last : Nat) (bytes : Bytes) : Option (StateTable × Bytes) := do
  let (width, bits) ← Bits.low 4 (Bits.ofBytes bytes)
  if widest < width + 5 then failure
  let (shares, bits) ← shares (last + 1) (Nat.pow 2 (width + 5)) bits
  if last + 1 < shares.length then failure
  pure (ofShares (width + 5) shares, bytes.drop (bytes.length - bits.length / 8))

/-- Read the first state. -/
def start (t : StateTable) : BitReader CodingState := do
  let n ← Bits.high t.width
  t.states[n]?

/-- Read the state after another one. -/
def next (t : StateTable) (s : CodingState) : BitReader CodingState := do
  let n ← Bits.high s.width
  t.states[s.base + n]?

end StateTable
end TableFlow
