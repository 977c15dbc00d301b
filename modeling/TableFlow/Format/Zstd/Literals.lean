import TableFlow.Format.PrefixTable

/-!
# Literals of a compressed block

A compressed block begins with the bytes that are not copied from earlier ones: as they are, one byte repeated,
or coded by a prefix table of this or of an earlier block, in one stream or in four.
-/

namespace TableFlow
namespace Zstd

/-- A number spelled by bytes, lowest first. -/
def number (bytes : Bytes) : Nat :=
  bytes.foldr (fun b n => b.toNat + 256 * n) 0

/-- The literals of a block, the prefix table to go on with, and the bytes after the literals. -/
structure Literals where
  content : Bytes
  table : Option PrefixTable
  rest : Bytes

namespace Literals

/-- Literals that are not coded.  The width of their number tells the size of the header. -/
def plain? (same : Bool) (table : Option PrefixTable) (bytes : Bytes) : Option Literals := do
  let (head, _) ← front? 1 bytes
  let (size, shift) := match number head / 4 % 4 with
    | 1 => (2, 16)
    | 3 => (3, 16)
    | _ => (1, 8)
  let (head, rest) ← front? size bytes
  let n := number head / shift
  if same then
    let (b, rest) ← front? 1 rest
    pure ⟨b.flatMap (List.replicate n), table, rest⟩
  else
    let (content, rest) ← front? n rest
    pure ⟨content, table, rest⟩

/-- The content of four streams, which have three sizes in front of them. -/
def fourStreams? (t : PrefixTable) (n : Nat) (packed : Bytes) : Option Bytes := do
  let (first, rest) ← front? 2 packed
  let (second, rest) ← front? 2 rest
  let (third, rest) ← front? 2 rest
  let (first, rest) ← front? (number first) rest
  let (second, rest) ← front? (number second) rest
  let (third, fourth) ← front? (number third) rest
  let quarter := (n + 3) / 4
  if n < 3 * quarter then failure
  else
    pure ((← t.stream? quarter first) ++ (← t.stream? quarter second) ++
      (← t.stream? quarter third) ++ (← t.stream? (n - 3 * quarter) fourth))

/-- Literals that are coded, by a new table unless there is one to go on with. -/
def coded? (table : Option PrefixTable) (bytes : Bytes) : Option Literals := do
  let (head, _) ← front? 1 bytes
  let form := number head / 4 % 4
  let (size, width) := match form with
    | 0 => (3, 10)
    | 1 => (3, 10)
    | 2 => (4, 14)
    | _ => (5, 18)
  let (head, rest) ← front? size bytes
  let counts := number head / 16
  let n := counts % Nat.pow 2 width
  let (packed, rest) ← front? (counts / Nat.pow 2 width) rest
  let (t, streams) ← match table with
    | some t => some (t, packed)
    | none => PrefixTable.read? packed
  let content ← if form = 0 then t.stream? n streams else fourStreams? t n streams
  pure ⟨content, some t, rest⟩

/-- Read the literals of a block, given the prefix table of an earlier one. -/
def read? (table : Option PrefixTable) : Bytes → Option Literals
  | [] => none
  | bytes@(b :: _) =>
    match b.toNat % 4 with
    | 0 => plain? false table bytes
    | 1 => plain? true table bytes
    | 2 => coded? none bytes
    | _ => if table.isNone then none else coded? table bytes

end Literals
end Zstd
end TableFlow
