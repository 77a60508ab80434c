import Mathlib

/-!
# SHA-256

The streaming hasher of `hash.cpp`.  A digest identifies specifications,
layouts, builds and aggregate payloads; the store only ever compares digests
for equality.
-/

namespace MonteCarlo

/-- Byte strings: file contents, encoded payloads and `std::string` data. -/
abbrev Bytes : Type := List UInt8

/-- `Sha256Digest`. -/
abbrev Sha256Digest : Type := Vector UInt8 32

/-- The bytes of a source string; all of them are ASCII. -/
def ascii (text : String) : Bytes := text.toList.map fun c => UInt8.ofNat c.toNat

/-- `kRoundConstants`. -/
def kRoundConstants : List UInt32 :=
  [0x428A2F98, 0x71374491, 0xB5C0FBCF, 0xE9B5DBA5, 0x3956C25B, 0x59F111F1, 0x923F82A4, 0xAB1C5ED5,
   0xD807AA98, 0x12835B01, 0x243185BE, 0x550C7DC3, 0x72BE5D74, 0x80DEB1FE, 0x9BDC06A7, 0xC19BF174,
   0xE49B69C1, 0xEFBE4786, 0x0FC19DC6, 0x240CA1CC, 0x2DE92C6F, 0x4A7484AA, 0x5CB0A9DC, 0x76F988DA,
   0x983E5152, 0xA831C66D, 0xB00327C8, 0xBF597FC7, 0xC6E00BF3, 0xD5A79147, 0x06CA6351, 0x14292967,
   0x27B70A85, 0x2E1B2138, 0x4D2C6DFC, 0x53380D13, 0x650A7354, 0x766A0ABB, 0x81C2C92E, 0x92722C85,
   0xA2BFE8A1, 0xA81A664B, 0xC24B8B70, 0xC76C51A3, 0xD192E819, 0xD6990624, 0xF40E3585, 0x106AA070,
   0x19A4C116, 0x1E376C08, 0x2748774C, 0x34B0BCB5, 0x391C0CB3, 0x4ED8AA4A, 0x5B9CCA4F, 0x682E6FF3,
   0x748F82EE, 0x78A5636F, 0x84C87814, 0x8CC70208, 0x90BEFFFA, 0xA4506CEB, 0xBEF9A3F7, 0xC67178F2]

/-- `rotate_right`. -/
def rotateRight (value count : UInt32) : UInt32 :=
  (value >>> count) ||| (value <<< (32 - count))

/-- The eight words of the hash state. -/
structure Sha256State where
  a : UInt32
  b : UInt32
  c : UInt32
  d : UInt32
  e : UInt32
  f : UInt32
  g : UInt32
  h : UInt32
  deriving DecidableEq, Repr

namespace Sha256State

/-- The initial state set by the constructor of `Sha256Hasher`. -/
def initial : Sha256State :=
  ⟨0x6A09E667, 0xBB67AE85, 0x3C6EF372, 0xA54FF53A, 0x510E527F, 0x9B05688C, 0x1F83D9AB, 0x5BE0CD19⟩

/-- One of the 64 rounds of `transform`. -/
def round (s : Sha256State) (constant word : UInt32) : Sha256State :=
  let sum1 := rotateRight s.e 6 ^^^ rotateRight s.e 11 ^^^ rotateRight s.e 25
  let choice := (s.e &&& s.f) ^^^ (~~~s.e &&& s.g)
  let temp1 := s.h + sum1 + choice + constant + word
  let sum0 := rotateRight s.a 2 ^^^ rotateRight s.a 13 ^^^ rotateRight s.a 22
  let majority := (s.a &&& s.b) ^^^ (s.a &&& s.c) ^^^ (s.b &&& s.c)
  let temp2 := sum0 + majority
  ⟨temp1 + temp2, s.a, s.b, s.c, s.d + temp1, s.e, s.f, s.g⟩

/-- The word-wise addition that ends `transform`. -/
def addWords (s t : Sha256State) : Sha256State :=
  ⟨s.a + t.a, s.b + t.b, s.c + t.c, s.d + t.d, s.e + t.e, s.f + t.f, s.g + t.g, s.h + t.h⟩

def toWords (s : Sha256State) : List UInt32 := [s.a, s.b, s.c, s.d, s.e, s.f, s.g, s.h]

end Sha256State

/-- Four bytes as a big-endian word. -/
def bigEndianWord (block : Bytes) (offset : ℕ) : UInt32 :=
  ((block.getD offset 0).toUInt32 <<< 24) ||| ((block.getD (offset + 1) 0).toUInt32 <<< 16)
    ||| ((block.getD (offset + 2) 0).toUInt32 <<< 8) ||| (block.getD (offset + 3) 0).toUInt32

/-- The next word of the message schedule. -/
def scheduleWord (words : List UInt32) (index : ℕ) : UInt32 :=
  let w15 := words.getD (index - 15) 0
  let w2 := words.getD (index - 2) 0
  let s0 := rotateRight w15 7 ^^^ rotateRight w15 18 ^^^ (w15 >>> 3)
  let s1 := rotateRight w2 17 ^^^ rotateRight w2 19 ^^^ (w2 >>> 10)
  words.getD (index - 16) 0 + s0 + words.getD (index - 7) 0 + s1

/-- The message schedule of one 64-byte block. -/
def schedule (block : Bytes) : List UInt32 :=
  (List.range 48).foldl (fun words i => words ++ [scheduleWord words (16 + i)])
    ((List.range 16).map fun i => bigEndianWord block (4 * i))

/-- `transform`: absorb one 64-byte block. -/
def transform (block : Bytes) (state : Sha256State) : Sha256State :=
  state.addWords
    ((kRoundConstants.zip (schedule block)).foldl (fun s kw => s.round kw.1 kw.2) state)

/-- `Sha256Hasher`: `buffered` is the filled part of `buffer_`. -/
structure Sha256Hasher where
  state : Sha256State
  buffered : Bytes
  totalBytes : UInt64
  deriving DecidableEq, Repr

namespace Sha256Hasher

/-- `Sha256Hasher::Sha256Hasher`. -/
def new : Sha256Hasher := ⟨.initial, [], 0⟩

/-- The loop of `update` over whole blocks; `fuel` bounds the number of blocks. -/
def absorbBlocks : ℕ → Sha256State → Bytes → Sha256State × Bytes
  | 0, state, bytes => (state, bytes)
  | fuel + 1, state, bytes =>
    if 64 ≤ bytes.length then
      absorbBlocks fuel (transform (bytes.take 64) state) (bytes.drop 64)
    else (state, bytes)

/-- `Sha256Hasher::update`. -/
def update (hasher : Sha256Hasher) (bytes : Bytes) : Sha256Hasher :=
  let copied := min (64 - hasher.buffered.length) bytes.length
  let filled := hasher.buffered ++ bytes.take copied
  let (state, buffered, rest) :=
    if hasher.buffered = [] then (hasher.state, [], bytes)
    else if filled.length = 64 then (transform filled hasher.state, [], bytes.drop copied)
    else (hasher.state, filled, bytes.drop copied)
  let (state, tail) := absorbBlocks rest.length state rest
  ⟨state, buffered ++ tail, hasher.totalBytes + UInt64.ofNat bytes.length⟩

/-- The padded tail that `finalize` absorbs. -/
def paddedTail (hasher : Sha256Hasher) : Bytes :=
  let paddedSize := if hasher.buffered.length < 56 then 64 else 128
  let bitLength := hasher.totalBytes * 8
  hasher.buffered ++ [0x80] ++ List.replicate (paddedSize - 9 - hasher.buffered.length) 0
    ++ (List.range 8).map fun i => (bitLength >>> UInt64.ofNat (8 * (7 - i))).toUInt8

/-- `Sha256Hasher::finalize`. -/
def finalize (hasher : Sha256Hasher) : Sha256Digest :=
  let tail := hasher.paddedTail
  let state := transform (tail.take 64) hasher.state
  let state := if tail.length = 128 then transform (tail.drop 64) state else state
  Vector.ofFn fun i =>
    (state.toWords.getD (i.val / 4) 0 >>> UInt32.ofNat (8 * (3 - i.val % 4))).toUInt8

end Sha256Hasher

/-- `sha256`.  Proofs never look inside it. -/
@[irreducible] def sha256 (bytes : Bytes) : Sha256Digest := (Sha256Hasher.new.update bytes).finalize

end MonteCarlo
