import Armv4t.Snapshot

/-!
# State checksums

A 64-bit checksum of a list of words: XXH3 with seed zero, for messages of 129 to 240 bytes, the
words being taken as little-endian bytes.  The message is cut into blocks of sixteen bytes; each is
mixed with a stretch of a fixed secret, and the mixed blocks are added up.
-/

namespace Armv4t.Checksum

/-- The fixed secret: 136 bytes, the first of them lowest. -/
def secret : BitVec 1088 :=
  0xc3ebd33483acc5ea#64 ++ 0x647378d9c97e9fc8#64 ++ 0x3159b4cd4be0518a#64 ++
    0x1d4f0bc7c7bbdcf9#64 ++ 0x3f349ce33f76faa8#64 ++ 0xd8acdea946ef1938#64 ++
    0x4ef90da297486471#64 ++ 0xa32e531b8b65d088#64 ++ 0xcb00c391bb52283c#64 ++
    0x4c263a81e69035e0#64 ++ 0x8e2443f7744608b8#64 ++ 0x2172ffcc7dd05a82#64 ++
    0x78e5c0cc4ee679cb#64 ++ 0x1f67b3b7a4a44072#64 ++ 0xdb979083e96dd4de#64 ++
    0x1cad21f72c81017c#64 ++ 0xbe4ba423396cfeb8#64

/-- Eight bytes of the secret from a given byte on. -/
def secretLane (offset : Nat) : BitVec 64 :=
  secret.extractLsb' (8 * offset) 64

/-- Eight bytes of the message from a given word on. -/
def messageLane (words : Array Word) (position : Nat) : BitVec 64 :=
  words.getD (position + 1) 0 ++ words.getD position 0

/-- The two halves of a 128-bit product, combined. -/
def foldedProduct (a b : BitVec 64) : BitVec 64 :=
  let product := a.setWidth 128 * b.setWidth 128
  product.extractLsb' 0 64 ^^^ product.extractLsb' 64 64

/-- The block of four words from a given position on, mixed with the secret from a given byte on. -/
def mixedBlock (words : Array Word) (position offset : Nat) : BitVec 64 :=
  foldedProduct (messageLane words position ^^^ secretLane offset)
    (messageLane words (position + 2) ^^^ secretLane (offset + 8))

/-- Lets every bit of a sum act on every bit of the result. -/
def avalanche (sum : BitVec 64) : BitVec 64 :=
  let sum := (sum ^^^ (sum >>> 37)) * 0x165667919E3779F9
  sum ^^^ (sum >>> 32)

/-- The checksum of at least 33 and at most 60 words. -/
def ofWords (words : List Word) : BitVec 64 :=
  let message := words.toArray
  let blocks := words.length / 4
  let first := (List.range 8).foldl
    (fun sum block => sum + mixedBlock message (4 * block) (16 * block))
    (BitVec.ofNat 64 (4 * words.length) * 0x9E3779B185EBCA87)
  let rest := (List.range (blocks - 8)).foldl
    (fun sum block => sum + mixedBlock message (4 * (block + 8)) (16 * block + 3))
    (avalanche first)
  avalanche (rest + mixedBlock message (words.length - 4) 119)

/-- The checksum in sixteen hexadecimal digits. -/
def text (checksum : BitVec 64) : String :=
  Numeral.hexLower 16 checksum.toNat

end Armv4t.Checksum

/-- The checksum of a processor's state. -/
def Armv4t.Cpu.checksum (cpu : Cpu) : BitVec 64 :=
  Checksum.ofWords cpu.words
