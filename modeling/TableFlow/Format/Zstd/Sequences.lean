import TableFlow.Format.StateTable

/-!
# Sequences of a compressed block

After its literals a compressed block tells, in sequences, how many literals come next and what is copied from
the bytes so far after them.  The three numbers of a sequence are coded by a state table each.
-/

namespace TableFlow
namespace Zstd

/-- Some literals, and a copy of earlier bytes after them. -/
structure Sequence where
  literals : Nat
  /-- The distance of the copy, or which of the recent distances it is. -/
  offset : Nat
  length : Nat
  deriving DecidableEq, Repr, Inhabited

/-- The distances of the latest copies, the latest first. -/
structure Recent where
  first : Nat
  second : Nat
  third : Nat
  deriving DecidableEq, Repr, Inhabited

/-- The recent distances at the start of a frame. -/
def Recent.start : Recent := ⟨1, 4, 8⟩

/-- The distance that a sequence means, and the recent distances after it.  Up to three a number names a recent
distance; without literals it names the one after, and the one after the third is one less than the first. -/
def Recent.resolve (r : Recent) (s : Sequence) : Nat × Recent :=
  let use (distance : Nat) : Nat × Recent := (distance, ⟨distance, r.first, r.second⟩)
  if 3 < s.offset then use (s.offset - 3)
  else
    match if s.literals = 0 then s.offset + 1 else s.offset with
    | 1 => (r.first, r)
    | 2 => (r.second, ⟨r.second, r.first, r.third⟩)
    | 3 => use r.third
    | _ => use (r.first - 1)

/-- The tables of the three numbers of sequences. -/
structure SequenceTables where
  literals : StateTable
  offsets : StateTable
  lengths : StateTable
  deriving Inhabited

/-- Numbers of literals by symbol: the least one, and how many bits are added to it. -/
def literalsTable : Array (Nat × Nat) := #[
  (0, 0), (1, 0), (2, 0), (3, 0), (4, 0), (5, 0), (6, 0), (7, 0), (8, 0), (9, 0), (10, 0),
  (11, 0), (12, 0), (13, 0), (14, 0), (15, 0), (16, 1), (18, 1), (20, 1), (22, 1), (24, 2),
  (28, 2), (32, 3), (40, 3), (48, 4), (64, 6), (128, 7), (256, 8), (512, 9), (1024, 10),
  (2048, 11), (4096, 12), (8192, 13), (16384, 14), (32768, 15), (65536, 16)]

/-- Lengths of copies by symbol: the least one, and how many bits are added to it. -/
def copiesTable : Array (Nat × Nat) := #[
  (3, 0), (4, 0), (5, 0), (6, 0), (7, 0), (8, 0), (9, 0), (10, 0), (11, 0), (12, 0), (13, 0),
  (14, 0), (15, 0), (16, 0), (17, 0), (18, 0), (19, 0), (20, 0), (21, 0), (22, 0), (23, 0),
  (24, 0), (25, 0), (26, 0), (27, 0), (28, 0), (29, 0), (30, 0), (31, 0), (32, 0), (33, 0),
  (34, 0), (35, 1), (37, 1), (39, 1), (41, 1), (43, 2), (47, 2), (51, 3), (59, 3), (67, 4),
  (83, 4), (99, 5), (131, 7), (259, 8), (515, 9), (1027, 10), (2051, 11), (4099, 12),
  (8195, 13), (16387, 14), (32771, 15), (65539, 16)]

/-- Shares given by numbers, where `-1` stands for a rare symbol. -/
def sharesOf (counts : List Int) : List Share :=
  counts.map fun n => if n < 0 then .rare else .states n.toNat

/-- The table of literals where none is transmitted. -/
def usualLiterals : StateTable :=
  .ofShares 6 (sharesOf [4, 3, 2, 2, 2, 2, 2, 2, 2, 2, 2, 2, 2, 1, 1, 1, 2, 2, 2, 2, 2, 2, 2, 2, 2,
    3, 2, 1, 1, 1, 1, 1, -1, -1, -1, -1])

/-- The table of offsets where none is transmitted. -/
def usualOffsets : StateTable :=
  .ofShares 5 (sharesOf [1, 1, 1, 1, 1, 1, 2, 2, 2, 1, 1, 1, 1, 1, 1, 1, 1, 1, 1, 1, 1, 1, 1, 1,
    -1, -1, -1, -1, -1])

/-- The table of lengths where none is transmitted. -/
def usualLengths : StateTable :=
  .ofShares 6 (sharesOf ([1, 4, 3, 2, 2, 2, 2, 2, 2] ++ List.replicate 37 1 ++
    List.replicate 7 (-1)))

/-- The table that a block uses for one of the numbers, and the bytes after it: the usual one, one of a single
symbol, a transmitted one, or that of the block before. -/
def table? (mode : Nat) (usual : StateTable) (former : Option StateTable) (widest last : Nat)
    (bytes : Bytes) : Option (StateTable × Bytes) :=
  match mode with
  | 0 => some (usual, bytes)
  | 1 =>
    match bytes with
    | b :: rest => if b.toNat ≤ last then some (.single b.toNat, rest) else none
    | [] => none
  | 2 => StateTable.read? widest last bytes
  | _ => former.map (·, bytes)

/-- The three tables that a block uses, and the bytes after them. -/
def SequenceTables.read? (former : Option SequenceTables) (modes : Nat) (bytes : Bytes) :
    Option (SequenceTables × Bytes) := do
  if modes % 4 != 0 then failure
  let (literals, bytes) ←
    table? (modes / 64) usualLiterals (former.map (·.literals)) 9 35 bytes
  let (offsets, bytes) ←
    table? (modes / 16 % 4) usualOffsets (former.map (·.offsets)) 8 31 bytes
  let (lengths, bytes) ←
    table? (modes / 4 % 4) usualLengths (former.map (·.lengths)) 9 52 bytes
  pure (⟨literals, offsets, lengths⟩, bytes)

/-- Read a number that a symbol of a table begins. -/
def extended (table : Array (Nat × Nat)) (symbol : Nat) : BitReader Nat := do
  let (least, width) ← table[symbol]?
  pure (least + (← Bits.high width))

/-- Read sequences, given the states of the first one.  There are no states after the last one. -/
def SequenceTables.sequences (t : SequenceTables) :
    (n : Nat) → (literals offset length : CodingState) → BitReader (List Sequence)
  | 0, _, _, _ => pure []
  | n + 1, l, o, m => do
    let offset := Nat.pow 2 o.symbol + (← Bits.high o.symbol)
    let length ← extended copiesTable m.symbol
    let literals ← extended literalsTable l.symbol
    let s : Sequence := ⟨literals, offset, length⟩
    if n = 0 then pure [s]
    else
      let l ← t.literals.next l
      let m ← t.lengths.next m
      let o ← t.offsets.next o
      pure (s :: (← sequences t n l o m))

/-- The number of sequences, and the bytes after it. -/
def count? : Bytes → Option (Nat × Bytes)
  | [] => none
  | b :: rest =>
    let n := b.toNat
    if n < 128 then some (n, rest)
    else
      match rest with
      | [] => none
      | c :: rest =>
        if n < 255 then some ((n - 128) * 256 + c.toNat, rest)
        else
          match rest with
          | [] => none
          | d :: rest => some (c.toNat + 256 * d.toNat + 0x7F00, rest)

/-- The sequences of a block, and the tables to go on with. -/
def sequences? (former : Option SequenceTables) (bytes : Bytes) :
    Option (List Sequence × Option SequenceTables) := do
  let (n, bytes) ← count? bytes
  if n = 0 then if bytes.isEmpty then pure ([], former) else failure
  else
    let (modes, bytes) ← front? 1 bytes
    let (t, stream) ← SequenceTables.read? former (total (modes.map UInt8.toNat)) bytes
    let (l, bits) ← t.literals.start (← Bits.backward? stream)
    let (o, bits) ← t.offsets.start bits
    let (m, bits) ← t.lengths.start bits
    let (sequences, bits) ← t.sequences n l o m bits
    if bits.isEmpty then pure (sequences, some t) else failure

end Zstd
end TableFlow
