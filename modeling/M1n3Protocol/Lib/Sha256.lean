/-
SHA-256 over byte lists (FIPS 180-4), as executable definitions.

# What the rest of the development uses

`HashFn` is the interface: any function from byte strings to 32-byte
digests. Results that hold whatever the hash does are stated over an
arbitrary `HashFn`; runs on concrete bytes are evaluated at `sha256`.
The length field is the only fact about a digest any proof reads.
-/
import Mathlib.Data.List.Basic
import Mathlib.Tactic.Common

/-- A byte string. -/
abbrev Bytes := List (BitVec 8)

/-- A hash function with 32-byte digests. -/
structure HashFn where
  hash : Bytes → Bytes
  length_hash : ∀ b, (hash b).length = 32

namespace Sha256

abbrev Word := BitVec 32

-- ============================================================ the words

/-- The round constants. -/
def roundConstants : List Word :=
  [0x428a2f98, 0x71374491, 0xb5c0fbcf, 0xe9b5dba5, 0x3956c25b, 0x59f111f1,
   0x923f82a4, 0xab1c5ed5, 0xd807aa98, 0x12835b01, 0x243185be, 0x550c7dc3,
   0x72be5d74, 0x80deb1fe, 0x9bdc06a7, 0xc19bf174, 0xe49b69c1, 0xefbe4786,
   0x0fc19dc6, 0x240ca1cc, 0x2de92c6f, 0x4a7484aa, 0x5cb0a9dc, 0x76f988da,
   0x983e5152, 0xa831c66d, 0xb00327c8, 0xbf597fc7, 0xc6e00bf3, 0xd5a79147,
   0x06ca6351, 0x14292967, 0x27b70a85, 0x2e1b2138, 0x4d2c6dfc, 0x53380d13,
   0x650a7354, 0x766a0abb, 0x81c2c92e, 0x92722c85, 0xa2bfe8a1, 0xa81a664b,
   0xc24b8b70, 0xc76c51a3, 0xd192e819, 0xd6990624, 0xf40e3585, 0x106aa070,
   0x19a4c116, 0x1e376c08, 0x2748774c, 0x34b0bcb5, 0x391c0cb3, 0x4ed8aa4a,
   0x5b9cca4f, 0x682e6ff3, 0x748f82ee, 0x78a5636f, 0x84c87814, 0x8cc70208,
   0x90befffa, 0xa4506ceb, 0xbef9a3f7, 0xc67178f2]

/-- The eight working words. -/
structure State where
  a : Word
  b : Word
  c : Word
  d : Word
  e : Word
  f : Word
  g : Word
  h : Word

/-- The initial hash value. -/
def initial : State :=
  ⟨0x6a09e667, 0xbb67ae85, 0x3c6ef372, 0xa54ff53a,
   0x510e527f, 0x9b05688c, 0x1f83d9ab, 0x5be0cd19⟩

def bigSigma0 (x : Word) : Word :=
  x.rotateRight 2 ^^^ x.rotateRight 13 ^^^ x.rotateRight 22

def bigSigma1 (x : Word) : Word :=
  x.rotateRight 6 ^^^ x.rotateRight 11 ^^^ x.rotateRight 25

def smallSigma0 (x : Word) : Word :=
  x.rotateRight 7 ^^^ x.rotateRight 18 ^^^ (x >>> 3)

def smallSigma1 (x : Word) : Word :=
  x.rotateRight 17 ^^^ x.rotateRight 19 ^^^ (x >>> 10)

def choose (x y z : Word) : Word := (x &&& y) ^^^ (~~~x &&& z)

def majority (x y z : Word) : Word := (x &&& y) ^^^ (x &&& z) ^^^ (y &&& z)

-- ====================================================== the compression

/-- The next schedule word, from the sixteen before it. -/
def nextWord (w : List Word) : Word :=
  smallSigma1 (w.getD 14 0) + w.getD 9 0 + smallSigma0 (w.getD 1 0)
    + w.getD 0 0

/-- One round on one schedule word. -/
def round (s : State) (k w : Word) : State :=
  let t1 := s.h + bigSigma1 s.e + choose s.e s.f s.g + k + w
  let t2 := bigSigma0 s.a + majority s.a s.b s.c
  ⟨t1 + t2, s.a, s.b, s.c, s.d + t1, s.e, s.f, s.g⟩

/-- The rounds, sliding a sixteen-word window over the schedule. -/
def rounds : List Word → List Word → State → State
  | [], _, s => s
  | k :: ks, w, s =>
      rounds ks (w.tail ++ [nextWord w]) (round s k (w.getD 0 0))

/-- Big-endian words of a block. -/
def words : Bytes → List Word
  | b0 :: b1 :: b2 :: b3 :: rest => (b0 ++ b1 ++ b2 ++ b3) :: words rest
  | _ => []

/-- Fold one 64-byte block into the state. -/
def compress (s : State) (block : Bytes) : State :=
  let t := rounds roundConstants (words block) s
  ⟨s.a + t.a, s.b + t.b, s.c + t.c, s.d + t.d,
   s.e + t.e, s.f + t.f, s.g + t.g, s.h + t.h⟩

-- ======================================================== the message

/-- Big-endian bytes of a word. -/
def wordBytes (w : Word) : Bytes :=
  [w.extractLsb' 24 8, w.extractLsb' 16 8, w.extractLsb' 8 8,
   w.extractLsb' 0 8]

/-- Pad to whole blocks: the closing bit, zeros, and the bit length. -/
def pad (m : Bytes) : Bytes :=
  let bits : BitVec 64 := BitVec.ofNat 64 (8 * m.length)
  m ++ 0x80 :: List.replicate ((119 - m.length % 64) % 64) 0
    ++ wordBytes (bits.extractLsb' 32 32) ++ wordBytes (bits.extractLsb' 0 32)

/-- Fold the blocks of a padded message; `n` counts the blocks left. -/
def foldBlocks : Nat → Bytes → State → State
  | 0, _, s => s
  | n + 1, m, s => foldBlocks n (m.drop 64) (compress s (m.take 64))

/-- The SHA-256 digest. -/
def digest (m : Bytes) : Bytes :=
  let p := pad m
  let s := foldBlocks (p.length / 64) p initial
  wordBytes s.a ++ wordBytes s.b ++ wordBytes s.c ++ wordBytes s.d
    ++ wordBytes s.e ++ wordBytes s.f ++ wordBytes s.g ++ wordBytes s.h

theorem length_digest (m : Bytes) : (digest m).length = 32 := by
  simp [digest, wordBytes]

/-- The published digest of the three bytes `abc`. -/
example : digest [0x61, 0x62, 0x63] =
    [0xba, 0x78, 0x16, 0xbf, 0x8f, 0x01, 0xcf, 0xea, 0x41, 0x41, 0x40,
     0xde, 0x5d, 0xae, 0x22, 0x23, 0xb0, 0x03, 0x61, 0xa3, 0x96, 0x17,
     0x7a, 0x9c, 0xb4, 0x10, 0xff, 0x61, 0xf2, 0x00, 0x15, 0xad] := by
  decide +kernel

end Sha256

/-- SHA-256 as a `HashFn`. -/
def sha256 : HashFn where
  hash := Sha256.digest
  length_hash := Sha256.length_digest
