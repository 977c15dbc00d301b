import TableFlow.Format.Gzip
import TableFlow.Format.Zstd.Block
import TableFlow.Format.Zstd.Checksum

/-!
# Zstandard files

A file is a sequence of frames, each a header, blocks and perhaps a checksum, and of frames that are skipped.
Reading gives the content up to the first failure; writing makes one frame of raw blocks.
-/

namespace TableFlow
namespace Zstd

/-- The fault of a file that does not start with a frame. -/
def unknownFrame : FileFault := .damaged "Unknown frame descriptor"

/-- The fault of a file that ends within a frame. -/
def incomplete : FileFault := .damaged "incomplete frame"

/-- The fault of a frame that makes no sense. -/
def corrupt : FileFault := .damaged "Data corruption detected"

/-- The fault of a header that sets the reserved bit. -/
def unsupported : FileFault := .damaged "Unsupported frame parameter"

/-- The fault of a frame that needs a dictionary. -/
def dictionaryMissing : FileFault := .damaged "Dictionary mismatch"

/-- The fault of a frame that needs too large a window. -/
def tooLarge : FileFault := .damaged "Frame requires too much memory for decoding"

/-- The fault of a frame whose content does not match its checksum. -/
def mismatch : FileFault := .damaged "Restored data doesn't match checksum"

/-- The bytes that start a frame. -/
def magic : Bytes := [0x28, 0xB5, 0x2F, 0xFD]

/-- The bytes that start a frame to be skipped, after a first one that is between `0x50` and `0x5F`. -/
def skippedMagic : Bytes := [0x2A, 0x4D, 0x18]

/-- The largest block. -/
def maxBlock : Nat := 0x20000

/-- The largest window. -/
def maxWindow : Nat := 0x8000001

/-- What the header of a frame tells. -/
structure Header where
  /-- The largest block of this frame. -/
  limit : Nat
  /-- The size of the content, where it is told. -/
  size : Option Nat
  /-- Whether a checksum follows the blocks. -/
  checked : Bool
  deriving DecidableEq, Repr

/-- The window that a byte describes. -/
def window (b : Nat) : Nat :=
  let base := Nat.pow 2 (10 + b / 8)
  base + base / 8 * (b % 8)

/-- The header of a frame, and the bytes after it. -/
def header? (bytes : Bytes) : Except FileFault (Header × Bytes) :=
  match bytes with
  | [] => .error incomplete
  | descriptor :: rest =>
    let flags := descriptor.toNat
    let single := flags / 32 % 2 == 1
    let dictionarySize := match flags % 4 with
      | 3 => 4
      | n => n
    let contentSize := match flags / 64 with
      | 0 => if single then 1 else 0
      | 1 => 2
      | 2 => 4
      | _ => 8
    let parts := do
      let (windowByte, rest) ← front? (if single then 0 else 1) rest
      let (dictionary, rest) ← front? dictionarySize rest
      let (content, rest) ← front? contentSize rest
      some (number windowByte, number dictionary, number content, rest)
    match parts with
    | none => .error incomplete
    | some (windowByte, dictionary, content, rest) =>
      let size := if contentSize = 2 then content + 256 else content
      let window := if single then size else window windowByte
      if flags / 8 % 2 = 1 then .error unsupported
      else if dictionary != 0 then .error dictionaryMissing
      else if maxWindow < window then .error tooLarge
      else
        .ok (⟨min window maxBlock, if contentSize = 0 then none else some size,
          flags / 4 % 2 == 1⟩, rest)

/-- The memory after the blocks up to the last one, and the bytes after it.  The fuel bounds the number of
blocks. -/
def blocks (limit : Nat) : (fuel : Nat) → Memory → Bytes → Memory × Except FileFault Bytes
  | 0, m, _ => (m, .error incomplete)
  | fuel + 1, m, bytes =>
    match front? 3 bytes with
    | none => (m, .error incomplete)
    | some (head, rest) =>
      let n := number head
      let size := n / 8
      let goOn (m : Memory) (rest : Bytes) : Memory × Except FileFault Bytes :=
        if n % 2 = 1 then (m, .ok rest) else blocks limit fuel m rest
      if limit < size then (m, .error corrupt)
      else
        match n / 2 % 4 with
        | 0 =>
          match front? size rest with
          | some (content, rest) => goOn (m.add content) rest
          | none => (m.add rest, .error incomplete)
        | 1 =>
          match rest with
          | b :: rest => goOn (m.add (List.replicate size b)) rest
          | [] => (m, .error incomplete)
        | 2 =>
          match front? size rest with
          | none => (m, .error incomplete)
          | some (packed, rest) =>
            match m.compressed? limit packed with
            | some m => goOn m rest
            | none => (m, .error corrupt)
        | _ => (m, .error corrupt)

/-- The bytes after the end of a frame with the given content. -/
def afterContent (h : Header) (content : Bytes) (bytes : Bytes) : Except FileFault Bytes :=
  if h.size.any (· != content.length) then .error corrupt
  else if !h.checked then .ok bytes
  else
    match front? 4 bytes with
    | none => .error incomplete
    | some (sum, rest) =>
      if number sum = (checksum content).toNat % 0x100000000 then .ok rest else .error mismatch

/-- What reaches a reader that asks for `chunk` bytes at a time: a fault spoils the piece in which it is found,
except that a frame that merely ends early spoils nothing. -/
def visible (chunk : Nat) (content : Bytes) (fault : FileFault) : Stream :=
  if fault = incomplete then ⟨content, some fault⟩
  else ⟨content.take ((content.length - 1) / chunk * chunk), some fault⟩

/-- The content of the frames in bytes.  The fuel bounds the number of frames. -/
def frames (chunk : Nat) : (fuel : Nat) → Bytes → Stream
  | 0, _ => ⟨[], some incomplete⟩
  | fuel + 1, bytes =>
    let goOn (content rest : Bytes) : Stream :=
      if rest.isEmpty then ⟨content, none⟩
      else
        let more := frames chunk fuel rest
        ⟨content ++ more.bytes, more.fault⟩
    let start := bytes.take 4
    if start = magic then
      match header? (bytes.drop 4) with
      | .error fault => ⟨[], some fault⟩
      | .ok (h, body) =>
        let (m, result) := blocks h.limit (bytes.length + 1) .start body
        let content := m.output.toList
        match result.bind (afterContent h content) with
        | .error fault => visible chunk content fault
        | .ok rest => goOn content rest
    else if start.length < 4 && start.isPrefixOf magic then ⟨[], some incomplete⟩
    else if (start.take 1).all (fun b => b.toNat / 16 = 5) &&
        (start.drop 1).isPrefixOf skippedMagic then
      match (front? 4 (bytes.drop 4)).bind fun (size, rest) => front? (number size) rest with
      | some (_, rest) => goOn [] rest
      | none => ⟨[], some incomplete⟩
    else ⟨[], some unknownFrame⟩

/-- The content of a file, for a reader that asks for `chunk` bytes at a time. -/
def unpack (chunk : Nat) (bytes : Bytes) : Stream :=
  if bytes.isEmpty then ⟨[], some incomplete⟩ else frames chunk (bytes.length + 1) bytes

/-- Bytes in raw blocks of at most `maxBlock` bytes each.  The fuel bounds the number of blocks. -/
def rawBlocks : (fuel : Nat) → Bytes → Bytes
  | 0, _ => []
  | fuel + 1, bytes =>
    let part := bytes.take maxBlock
    let rest := bytes.drop maxBlock
    let head := UInt32.ofNat (8 * part.length + (if rest.isEmpty then 1 else 0))
    (Gzip.fourBytes head).take 3 ++ part ++ (if rest.isEmpty then [] else rawBlocks fuel rest)

/-- A file of one frame with the given content. -/
def pack (bytes : Bytes) : Bytes :=
  magic ++ 0xA0 :: Gzip.fourBytes (UInt32.ofNat bytes.length) ++ rawBlocks (bytes.length + 1) bytes

end Zstd
end TableFlow
