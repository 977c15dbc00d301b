import TableFlow.Text.Utf8

/-!
# Deflate streams

Unpacking of the deflate format: blocks that are stored, or coded with fixed or transmitted prefix codes, with
copies out of what has been unpacked.  What was unpacked before a failure stays available.
-/

namespace TableFlow
namespace Inflate

/-- Why unpacking stopped before the end. -/
inductive Stop where
  /-- The packed bytes ended. -/
  | truncated
  /-- The packed bytes make no sense. -/
  | corrupt
  deriving DecidableEq, Repr, Inhabited

/-- The state of unpacking. -/
structure State where
  /-- The packed bytes. -/
  source : Array UInt8
  /-- The next bit, counted from the first byte's lowest. -/
  position : Nat
  /-- What has been unpacked. -/
  output : Array UInt8
  deriving Inhabited

/-- An action of unpacking. -/
abbrev Unpack := ExceptT Stop (StateM State)

/-- The next bit. -/
def bit : Unpack Nat := do
  let s ← get
  match s.source[s.position / 8]? with
  | none => throw .truncated
  | some b =>
    set { s with position := s.position + 1 }
    pure (b.toNat / Nat.pow 2 (s.position % 8) % 2)

/-- The next bits as a number, lowest bit first. -/
def bits : Nat → Unpack Nat
  | 0 => pure 0
  | n + 1 => do
    let low ← bit
    let high ← bits n
    pure (low + 2 * high)

/-- Go on at the next whole byte. -/
def align : Unpack Unit :=
  modify fun s => { s with position := (s.position + 7) / 8 * 8 }

/-- Add a byte to the output. -/
def emit (b : UInt8) : Unpack Unit :=
  modify fun s => { s with output := s.output.push b }

/-- Repeat bytes that stand `distance` back in the output. -/
def copy (distance : Nat) : Nat → Unpack Unit
  | 0 => pure ()
  | n + 1 => do
    let s ← get
    if distance = 0 || s.output.size < distance then throw .corrupt
    match s.output[s.output.size - distance]? with
    | none => throw .corrupt
    | some b =>
      emit b
      copy distance n

/-- A prefix code: how many words of each length from one on there are, and the symbols in order of words. -/
structure Code where
  counts : List Nat
  symbols : Array Nat
  deriving Inhabited

/-- The longest word of a code. -/
def maxLength : Nat := 15

/-- The code in which each symbol has a word of the given length; symbols of length zero have none. -/
def Code.ofLengths (lengths : List Nat) : Code :=
  let indexed := lengths.zipIdx
  let ofLength (n : Nat) : List Nat := (indexed.filter fun pair => pair.1 == n).map Prod.snd
  let all := (List.range maxLength).map fun n => ofLength (n + 1)
  ⟨all.map List.length, all.flatten.toArray⟩

/-- Read on in a word whose bits so far are `word`, given the least word of this length and its place. -/
def Code.walk (symbols : Array Nat) : (counts : List Nat) → (word least place : Nat) → Unpack Nat
  | [], _, _, _ => throw .corrupt
  | count :: rest, word, least, place => do
    let word := word + (← bit)
    if word < least + count then
      match symbols[place + (word - least)]? with
      | some symbol => pure symbol
      | none => throw .corrupt
    else Code.walk symbols rest (2 * word) (2 * (least + count)) (place + count)

/-- The next symbol of a code. -/
def Code.next (code : Code) : Unpack Nat :=
  Code.walk code.symbols code.counts 0 0 0

/-- The least copy length of each length symbol, and how many bits are added to it. -/
def lengthTable : Array (Nat × Nat) := #[
  (3, 0), (4, 0), (5, 0), (6, 0), (7, 0), (8, 0), (9, 0), (10, 0), (11, 1), (13, 1), (15, 1),
  (17, 1), (19, 2), (23, 2), (27, 2), (31, 2), (35, 3), (43, 3), (51, 3), (59, 3), (67, 4),
  (83, 4), (99, 4), (115, 4), (131, 5), (163, 5), (195, 5), (227, 5), (258, 0)]

/-- The least distance of each distance symbol, and how many bits are added to it. -/
def distanceTable : Array (Nat × Nat) := #[
  (1, 0), (2, 0), (3, 0), (4, 0), (5, 1), (7, 1), (9, 2), (13, 2), (17, 3), (25, 3), (33, 4),
  (49, 4), (65, 5), (97, 5), (129, 6), (193, 6), (257, 7), (385, 7), (513, 8), (769, 8),
  (1025, 9), (1537, 9), (2049, 10), (3073, 10), (4097, 11), (6145, 11), (8193, 12), (12289, 12),
  (16385, 13), (24577, 13)]

/-- A number that a symbol of a table begins. -/
def extended (table : Array (Nat × Nat)) (symbol : Nat) : Unpack Nat := do
  match table[symbol]? with
  | none => throw .corrupt
  | some (least, extra) => pure (least + (← bits extra))

/-- The symbols of a block up to its end.  The fuel bounds their number. -/
def block (literals distances : Code) : (fuel : Nat) → Unpack Unit
  | 0 => throw .corrupt
  | fuel + 1 => do
    let symbol ← literals.next
    if symbol < 256 then
      emit (UInt8.ofNat symbol)
      block literals distances fuel
    else if symbol = 256 then pure ()
    else
      let length ← extended lengthTable (symbol - 257)
      let distance ← extended distanceTable (← distances.next)
      copy distance length
      block literals distances fuel

/-- Copy whole bytes into the output. -/
def store : Nat → Unpack Unit
  | 0 => pure ()
  | n + 1 => do
    emit (UInt8.ofNat (← bits 8))
    store n

/-- The code of the literals of a block with fixed codes. -/
def fixedLiterals : Code :=
  .ofLengths (List.replicate 144 8 ++ List.replicate 112 9 ++ List.replicate 24 7 ++
    List.replicate 8 8)

/-- The code of the distances of a block with fixed codes. -/
def fixedDistances : Code :=
  .ofLengths (List.replicate 30 5)

/-- The order in which the lengths of the code for code lengths are transmitted. -/
def lengthOrder : List Nat :=
  [16, 17, 18, 0, 8, 7, 9, 6, 10, 5, 11, 4, 12, 3, 13, 2, 14, 1, 15]

/-- Numbers of three bits. -/
def triples : Nat → Unpack (List Nat)
  | 0 => pure []
  | n + 1 => do
    let first ← bits 3
    pure (first :: (← triples n))

/-- Code lengths, the last one first, until there are `wanted` of them.  The fuel bounds the symbols read. -/
def codeLengths (code : Code) (wanted : Nat) : (fuel : Nat) → (reversed : List Nat) →
    Unpack (List Nat)
  | 0, _ => throw .corrupt
  | fuel + 1, reversed => do
    if reversed.length = wanted then pure reversed.reverse
    else if wanted < reversed.length then throw .corrupt
    else
      let symbol ← code.next
      if symbol < 16 then codeLengths code wanted fuel (symbol :: reversed)
      else if symbol = 16 then
        match reversed with
        | [] => throw .corrupt
        | last :: _ =>
          let n ← bits 2
          codeLengths code wanted fuel (List.replicate (3 + n) last ++ reversed)
      else if symbol = 17 then
        let n ← bits 3
        codeLengths code wanted fuel (List.replicate (3 + n) 0 ++ reversed)
      else
        let n ← bits 7
        codeLengths code wanted fuel (List.replicate (11 + n) 0 ++ reversed)

/-- The two codes that a block transmits. -/
def transmitted : Unpack (Code × Code) := do
  let literals := 257 + (← bits 5)
  let distances := 1 + (← bits 5)
  let given ← triples (4 + (← bits 4))
  let pairs := lengthOrder.zip given
  let lengths := (List.range 19).map fun symbol => (pairs.lookup symbol).getD 0
  let all ← codeLengths (.ofLengths lengths) (literals + distances) (literals + distances + 1) []
  pure (.ofLengths (all.take literals), .ofLengths (all.drop literals))

/-- The blocks up to the last one.  The fuel bounds their number. -/
def blocks : (fuel : Nat) → Unpack Unit
  | 0 => throw .corrupt
  | fuel + 1 => do
    let last ← bit
    match ← bits 2 with
    | 0 =>
      align
      let length ← bits 16
      let complement ← bits 16
      if length + complement != 65535 then throw .corrupt
      store length
    | 1 => block fixedLiterals fixedDistances (8 * (← get).source.size + 1)
    | 2 =>
      let (literals, distances) ← transmitted
      block literals distances (8 * (← get).source.size + 1)
    | _ => throw .corrupt
    if last = 1 then align else blocks fuel

/-- Unpack the stream that starts at a byte: why it stopped early, if it did, and the state there. -/
def unpack (source : Array UInt8) (start : Nat) : Option Stop × State :=
  match StateT.run (ExceptT.run (blocks (8 * source.size + 1))) ⟨source, 8 * start, #[]⟩ with
  | (.ok (), s) => (none, s)
  | (.error stop, s) => (some stop, s)

end Inflate
end TableFlow
