import TableFlow.Text.Utf8

/-!
# The checksum of a frame

A checksum of 64 bits: long content goes through four mixing lanes, 32 bytes at a time, and what is left is
mixed in by pieces of eight, four and one byte.
-/

namespace TableFlow
namespace Zstd

/-- The first factor of the mixing steps. -/
def factor1 : UInt64 := 0x9E3779B185EBCA87

/-- The second factor of the mixing steps. -/
def factor2 : UInt64 := 0xC2B2AE3D27D4EB4F

/-- The third factor of the mixing steps. -/
def factor3 : UInt64 := 0x165667B19E3779F9

/-- The fourth factor of the mixing steps. -/
def factor4 : UInt64 := 0x85EBCA77C2B2AE63

/-- The fifth factor of the mixing steps. -/
def factor5 : UInt64 := 0x27D4EB2F165667C5

/-- Turn the bits of a word to the left. -/
def rotate (x n : UInt64) : UInt64 := (x <<< n) ||| (x >>> (64 - n))

/-- Mix a word into a lane. -/
def mix (lane word : UInt64) : UInt64 := rotate (lane + word * factor2) 31 * factor1

/-- Mix a lane into the checksum. -/
def merge (sum lane : UInt64) : UInt64 := (sum ^^^ mix 0 lane) * factor1 + factor4

/-- Bytes as a word, lowest first. -/
def word (bytes : Bytes) : UInt64 :=
  bytes.foldr (fun b n => b.toUInt64 + 256 * n) 0

/-- The four lanes. -/
structure Lanes where
  a : UInt64
  b : UInt64
  c : UInt64
  d : UInt64

/-- The lanes before any content. -/
def Lanes.start : Lanes := ⟨factor1 + factor2, factor2, 0, 0 - factor1⟩

/-- Mix 32 bytes into the lanes. -/
def Lanes.mix (l : Lanes) (bytes : Bytes) : Lanes :=
  ⟨Zstd.mix l.a (word (bytes.take 8)), Zstd.mix l.b (word ((bytes.drop 8).take 8)),
    Zstd.mix l.c (word ((bytes.drop 16).take 8)), Zstd.mix l.d (word ((bytes.drop 24).take 8))⟩

/-- The checksum that the lanes make. -/
def Lanes.sum (l : Lanes) : UInt64 :=
  let all := rotate l.a 1 + rotate l.b 7 + rotate l.c 12 + rotate l.d 18
  [l.a, l.b, l.c, l.d].foldl merge all

/-- Mix all whole pieces of 32 bytes into the lanes, and the bytes that are left.  The fuel bounds the number of
pieces. -/
def Lanes.mixAll (l : Lanes) : (fuel : Nat) → Bytes → Lanes × Bytes
  | 0, bytes => (l, bytes)
  | fuel + 1, bytes =>
    if (bytes.drop 31).isEmpty then (l, bytes)
    else mixAll (l.mix bytes) fuel (bytes.drop 32)

/-- Mix single bytes into a checksum. -/
def mixBytes (sum : UInt64) (bytes : Bytes) : UInt64 :=
  bytes.foldl (fun sum b => rotate (sum ^^^ (b.toUInt64 * factor5)) 11 * factor1) sum

/-- Mix less than eight bytes into a checksum. -/
def mixShort (sum : UInt64) (bytes : Bytes) : UInt64 :=
  if bytes.length < 4 then mixBytes sum bytes
  else
    mixBytes (rotate (sum ^^^ (word (bytes.take 4) * factor1)) 23 * factor2 + factor3)
      (bytes.drop 4)

/-- Mix less than 32 bytes into a checksum. -/
def mixRest (sum : UInt64) : (fuel : Nat) → Bytes → UInt64
  | 0, bytes => mixShort sum bytes
  | fuel + 1, bytes =>
    if bytes.length < 8 then mixShort sum bytes
    else
      mixRest (rotate (sum ^^^ mix 0 (word (bytes.take 8))) 27 * factor1 + factor4) fuel
        (bytes.drop 8)

/-- Spread every bit over the whole word. -/
def avalanche (sum : UInt64) : UInt64 :=
  let sum := (sum ^^^ (sum >>> 33)) * factor2
  let sum := (sum ^^^ (sum >>> 29)) * factor3
  sum ^^^ (sum >>> 32)

/-- The checksum of bytes. -/
def checksum (bytes : Bytes) : UInt64 :=
  let (lanes, rest) := Lanes.start.mixAll (bytes.length / 32) bytes
  let sum := if bytes.length < 32 then factor5 else lanes.sum
  avalanche (mixRest (sum + UInt64.ofNat bytes.length) 3 rest)

end Zstd
end TableFlow
