import TableFlow.Files.Basic
import TableFlow.Format.Inflate

/-!
# Gzip files

A gzip file is a sequence of members, each a header, a deflate stream and a trailer with a checksum.  Reading
gives the content of all members up to the first failure; writing makes one member of stored blocks.
-/

namespace TableFlow

namespace Gzip

/-- The fault of a file that does not start like a gzip file. -/
def badHeader : FileFault := .damaged "invalid gzip header"

/-- The fault of a file that ends early. -/
def endedEarly : FileFault := .damaged "unexpected end of file"

/-- The fault of a stream that cannot be unpacked. -/
def corrupt : FileFault := .damaged "corrupt deflate stream"

/-- The fault of a member whose content does not match its checksum. -/
def mismatch : FileFault := .damaged "corrupt gzip stream does not have a matching checksum"

/-- One bit of the checksum. -/
def checksumBit (n : Nat) (crc : UInt32) : UInt32 :=
  match n with
  | 0 => crc
  | n + 1 => checksumBit n (if crc &&& 1 = 1 then (crc >>> 1) ^^^ 0xEDB88320 else crc >>> 1)

/-- The cyclic redundancy checksum of bytes. -/
def checksum (bytes : List UInt8) : UInt32 :=
  (bytes.foldl (fun crc b => checksumBit 8 (crc ^^^ b.toUInt32)) 0xFFFFFFFF) ^^^ 0xFFFFFFFF

/-- A number in four bytes, lowest first. -/
def fourBytes (n : UInt32) : Bytes :=
  [n.toUInt8, (n >>> 8).toUInt8, (n >>> 16).toUInt8, (n >>> 24).toUInt8]

/-- The bytes after the next zero byte. -/
def afterZero : Bytes → Option Bytes
  | [] => none
  | b :: rest => if b = 0 then some rest else afterZero rest

/-- The bytes after a number of them, if there are as many. -/
def after (n : Nat) (bytes : Bytes) : Option Bytes :=
  if n ≤ bytes.length then some (bytes.drop n) else none

/-- The bytes after the parts of a header that its flags announce. -/
def afterOptional (flags : UInt8) (bytes : Bytes) : Option Bytes := do
  let bytes ←
    if flags &&& 4 = 4 then
      match bytes with
      | low :: high :: rest => after (low.toNat + 256 * high.toNat) rest
      | _ => none
    else some bytes
  let bytes ← if flags &&& 8 = 8 then afterZero bytes else some bytes
  let bytes ← if flags &&& 16 = 16 then afterZero bytes else some bytes
  if flags &&& 2 = 2 then after 2 bytes else some bytes

/-- The bytes after the header of a member. -/
def afterHeader (bytes : Bytes) : Except FileFault Bytes :=
  match bytes with
  | 0x1F :: 0x8B :: method :: flags :: _ :: _ :: _ :: _ :: _ :: _ :: rest =>
    if method != 8 || flags &&& 0xE0 != 0 then .error badHeader
    else
      match afterOptional flags rest with
      | some rest => .ok rest
      | none => .error endedEarly
  | _ => if bytes.length < 10 then .error endedEarly else .error badHeader

/-- The size of the pieces in which content is unpacked. -/
def pieceSize : Nat := 0x8000

/-- The content of one member without its header, and the bytes after its trailer.  A stream that cannot be
unpacked spoils the piece in which it fails. -/
def member (bytes : Bytes) : Bytes × Except FileFault Bytes :=
  let source := bytes.toArray
  let (stop, state) := Inflate.unpack source 0
  let content := state.output.toList
  match stop with
  | some .corrupt => (content.take (content.length / pieceSize * pieceSize), .error corrupt)
  | some .truncated => (content, .error endedEarly)
  | none =>
    let rest := bytes.drop (state.position / 8)
    if rest.length < 8 then (content, .error endedEarly)
    else if rest.take 4 = fourBytes (checksum content) &&
        (rest.drop 4).take 4 = fourBytes (UInt32.ofNat content.length) then
      (content, .ok (rest.drop 8))
    else (content, .error mismatch)

/-- The content of the members in bytes that are not empty.  The fuel bounds the number of members. -/
def members : (fuel : Nat) → Bytes → Stream
  | 0, _ => ⟨[], some badHeader⟩
  | fuel + 1, bytes =>
    match afterHeader bytes with
    | .error fault => ⟨[], some fault⟩
    | .ok body =>
      match member body with
      | (content, .error fault) => ⟨content, some fault⟩
      | (content, .ok []) => ⟨content, none⟩
      | (content, .ok rest) =>
        let more := members fuel rest
        ⟨content ++ more.bytes, more.fault⟩

/-- The content of a gzip file. -/
def unpack (bytes : Bytes) : Stream :=
  members (bytes.length + 1) bytes

/-- Bytes in stored blocks of at most `2 ^ 16 - 1` bytes each.  The fuel bounds the number of blocks. -/
def storedBlocks : (fuel : Nat) → Bytes → Bytes
  | 0, _ => []
  | fuel + 1, bytes =>
    let part := bytes.take 65535
    let rest := bytes.drop 65535
    let n := UInt16.ofNat part.length
    let size := [n.toUInt8, (n >>> 8).toUInt8]
    let head : UInt8 := if rest.isEmpty then 1 else 0
    head :: size ++ size.map (· ^^^ 0xFF) ++ part ++
      (if rest.isEmpty then [] else storedBlocks fuel rest)

/-- A gzip file with the given content. -/
def pack (bytes : Bytes) : Bytes :=
  [0x1F, 0x8B, 8, 0, 0, 0, 0, 0, 0, 255] ++ storedBlocks (bytes.length + 1) bytes ++
    fourBytes (checksum bytes) ++ fourBytes (UInt32.ofNat bytes.length)

end Gzip
end TableFlow
