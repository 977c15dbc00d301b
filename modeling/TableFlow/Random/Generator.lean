/-!
# Random numbers

A generator of 32-bit words, reproducible from a seed.  The words are the blocks of the ChaCha stream cipher
with twelve rounds, in order; the key is derived from the seed by a congruential generator with permuted
output.  Numbers below a bound are drawn without bias by rejection.
-/

namespace TableFlow
namespace Random

/-- Turn the bits of a word to the left. -/
def turnLeft (w n : UInt32) : UInt32 :=
  (w <<< n) ||| (w >>> (32 - n))

/-- Turn the bits of a word to the right. -/
def turnRight (w n : UInt32) : UInt32 :=
  if n = 0 then w else (w >>> n) ||| (w <<< (32 - n))

/-- One row of the cipher state. -/
structure Row where
  a : UInt32
  b : UInt32
  c : UInt32
  d : UInt32
  deriving DecidableEq, Repr, Inhabited

namespace Row

/-- Combine two rows word by word. -/
def zipWith (f : UInt32 → UInt32 → UInt32) (x y : Row) : Row :=
  ⟨f x.a y.a, f x.b y.b, f x.c y.c, f x.d y.d⟩

/-- Change every word. -/
def map (f : UInt32 → UInt32) (x : Row) : Row :=
  ⟨f x.a, f x.b, f x.c, f x.d⟩

/-- Turn the row by one place. -/
def turn (x : Row) : Row :=
  ⟨x.b, x.c, x.d, x.a⟩

/-- The words in order. -/
def words (x : Row) : List UInt32 :=
  [x.a, x.b, x.c, x.d]

end Row

/-- The cipher state: four rows of four words. -/
structure Grid where
  r0 : Row
  r1 : Row
  r2 : Row
  r3 : Row
  deriving DecidableEq, Repr, Inhabited

namespace Grid

/-- Mix the four columns, each by one quarter round. -/
def mixColumns (g : Grid) : Grid :=
  let a := Row.zipWith (· + ·) g.r0 g.r1
  let d := (Row.zipWith (· ^^^ ·) g.r3 a).map fun w => turnLeft w 16
  let c := Row.zipWith (· + ·) g.r2 d
  let b := (Row.zipWith (· ^^^ ·) g.r1 c).map fun w => turnLeft w 12
  let a := Row.zipWith (· + ·) a b
  let d := (Row.zipWith (· ^^^ ·) d a).map fun w => turnLeft w 8
  let c := Row.zipWith (· + ·) c d
  let b := (Row.zipWith (· ^^^ ·) b c).map fun w => turnLeft w 7
  ⟨a, b, c, d⟩

/-- Two rounds: the columns, then the diagonals. -/
def doubleRound (g : Grid) : Grid :=
  let g := g.mixColumns
  let g := mixColumns ⟨g.r0, g.r1.turn, g.r2.turn.turn, g.r3.turn.turn.turn⟩
  ⟨g.r0, g.r1.turn.turn.turn, g.r2.turn.turn, g.r3.turn⟩

/-- A number of double rounds. -/
def rounds : Nat → Grid → Grid
  | 0, g => g
  | n + 1, g => rounds n g.doubleRound

/-- The words of a block: the state after twelve rounds added to the state before them. -/
def block (g : Grid) : List UInt32 :=
  let mixed := rounds 6 g
  (Row.zipWith (· + ·) g.r0 mixed.r0).words ++ (Row.zipWith (· + ·) g.r1 mixed.r1).words ++
    (Row.zipWith (· + ·) g.r2 mixed.r2).words ++ (Row.zipWith (· + ·) g.r3 mixed.r3).words

end Grid

/-- A generator: its key, the number of the next block, and the words left of the one before. -/
structure Generator where
  key : Row × Row
  counter : UInt64
  pending : List UInt32
  deriving DecidableEq, Repr, Inhabited

namespace Generator

/-- One step of the generator of keys: the next state and the word it gives. -/
def keyStep (state : UInt64) : UInt64 × UInt32 :=
  let state := state * 6364136223846793005 + 11634580027462260723
  let mixed := (((state >>> 18) ^^^ state) >>> 27).toUInt32
  (state, turnRight mixed (state >>> 59).toUInt32)

/-- The first words of a key. -/
def keyWords : Nat → UInt64 → List UInt32
  | 0, _ => []
  | n + 1, state =>
    let (state, word) := keyStep state
    word :: keyWords n state

/-- A row of the words from a place on. -/
def rowAt (words : List UInt32) (place : Nat) : Row :=
  ⟨words.getD place 0, words.getD (place + 1) 0, words.getD (place + 2) 0, words.getD (place + 3) 0⟩

/-- The generator of a seed. -/
def ofSeed (seed : Nat) : Generator :=
  let words := keyWords 8 (UInt64.ofNat seed)
  ⟨(rowAt words 0, rowAt words 4), 0, []⟩

/-- The constant row of the cipher. -/
def constantRow : Row :=
  ⟨0x61707865, 0x3320646e, 0x79622d32, 0x6b206574⟩

/-- The words of the next block. -/
def nextBlock (g : Generator) : List UInt32 :=
  Grid.block ⟨constantRow, g.key.1, g.key.2,
    ⟨g.counter.toUInt32, (g.counter >>> 32).toUInt32, 0, 0⟩⟩

/-- The next word. -/
def word32 (g : Generator) : UInt32 × Generator :=
  match g.pending with
  | w :: rest => (w, { g with pending := rest })
  | [] =>
    match g.nextBlock with
    | w :: rest => (w, { g with counter := g.counter + 1, pending := rest })
    | [] => (0, g)

/-- The next two words as one, the first the lower half. -/
def word64 (g : Generator) : UInt64 × Generator :=
  let (low, g) := g.word32
  let (high, g) := g.word32
  (low.toUInt64 ||| (high.toUInt64 <<< 32), g)

/-- How often a draw may be rejected before it is taken as it is.  A draw is rejected with a chance below one
half, so this never happens. -/
def maxDraws : Nat := 4096

/-- Draw a number below `n` from words of the given width. -/
def drawBelow (width : Nat) (draw : Generator → Nat × Generator) (n : Nat) :
    (tries : Nat) → Generator → Nat × Generator
  | 0, g =>
    let (v, g) := draw g
    (v * n / Nat.pow 2 width, g)
  | tries + 1, g =>
    let (v, g) := draw g
    let zone := n * Nat.pow 2 (width - 1 - n.log2) - 1
    if v * n % Nat.pow 2 width ≤ zone then (v * n / Nat.pow 2 width, g)
    else drawBelow width draw n tries g

/-- A number below `n` from single words. -/
def below32 (n : Nat) (g : Generator) : Nat × Generator :=
  drawBelow 32 (fun g => let (w, g) := g.word32; (w.toNat, g)) n maxDraws g

/-- A number below `n` from pairs of words. -/
def below64 (n : Nat) (g : Generator) : Nat × Generator :=
  drawBelow 64 (fun g => let (w, g) := g.word64; (w.toNat, g)) n maxDraws g

/-- A place below `n`: from single words as long as its number fits into one. -/
def placeBelow (n : Nat) (g : Generator) : Nat × Generator :=
  if n < 0x100000000 then g.below32 n else g.below64 n

end Generator
end Random
end TableFlow
