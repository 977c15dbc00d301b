import TableFlow.Format.Zstd.Literals
import TableFlow.Format.Zstd.Sequences

/-!
# Blocks of a frame

A block is raw, one byte repeated, or compressed.  A compressed block continues what the blocks before it left:
the content so far, the distances of the latest copies, and the tables.
-/

namespace TableFlow
namespace Zstd

/-- What a block leaves to the next one. -/
structure Memory where
  /-- The content so far. -/
  output : Array UInt8
  recent : Recent
  prefixes : Option PrefixTable
  tables : Option SequenceTables
  deriving Inhabited

/-- The memory at the start of a frame. -/
def Memory.start : Memory := ⟨#[], .start, none, none⟩

/-- Add bytes to the content. -/
def Memory.add (m : Memory) (bytes : Bytes) : Memory :=
  { m with output := m.output ++ bytes }

/-- Repeat bytes that stand `distance` back. -/
def copyBack (distance : Nat) : (n : Nat) → Array UInt8 → Option (Array UInt8)
  | 0, output => some output
  | n + 1, output =>
    match output[output.size - distance]? with
    | some b => copyBack distance n (output.push b)
    | none => none

/-- Add literals and copies to the content, which may not grow past a bound. -/
def execute (bound : Nat) : List Sequence → Bytes → Recent → Array UInt8 →
    Option (Recent × Array UInt8)
  | [], literals, recent, output =>
    if bound < output.size + literals.length then none else some (recent, output ++ literals)
  | s :: rest, literals, recent, output => do
    let (front, literals) ← front? s.literals literals
    let output := output ++ front
    let (distance, recent) := recent.resolve s
    if output.size < distance || bound < output.size + s.length then none
    else execute bound rest literals recent (← copyBack distance s.length output)

/-- The memory after a compressed block of at most `limit` bytes of content. -/
def Memory.compressed? (m : Memory) (limit : Nat) (packed : Bytes) : Option Memory := do
  let literals ← Literals.read? m.prefixes packed
  let (sequences, tables) ← sequences? m.tables literals.rest
  let (recent, output) ←
    execute (m.output.size + limit) sequences literals.content m.recent m.output
  pure ⟨output, recent, literals.table, tables⟩

end Zstd
end TableFlow
