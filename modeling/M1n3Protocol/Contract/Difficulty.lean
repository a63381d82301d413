/-
`pool.move`, the math helpers: the difficulty a share hash is credited
with, and the network difficulty a template's `nbits` stands for.

# Two readings that matter

`difficultyFromHash` reads at most eight bytes from the top non-zero
byte down. The index `msb - bytes_to_read + 1` is computed left to right
in `u64`, so its subtraction aborts whenever the top non-zero byte is
byte 7 or lower (a non-zero hash below 2^64); `lowByte` keeps that.

`nbitsToDifficulty` keeps the sign bit in the mantissa, and its left
shift drops the bits above 256.
-/
import M1n3Protocol.Contract.BtcMath

namespace M1n3Protocol

open Checked

def Const.minDifficulty : U64 := 1_000_000
def Const.maxDifficulty : U64 := 1_000_000_000_000_000

-- ============================================================== the hash

/-- The scan for the most significant non-zero byte, from byte `msb`
down. -/
def scanMsb (hash : Bytes) : Nat → Except Abort Nat
  | 0 => pure 0
  | msb + 1 => do
      let b ← borrow hash (msb + 1)
      if b = 0 then scanMsb hash msb else pure (msb + 1)

/-- The read loop: `n` more bytes from `msb - i` down, big-endian, below
the value read so far. -/
def readWindow (hash : Bytes) (msb : Nat) :
    Nat → Nat → U64 → Except Abort U64
  | 0, _, hashVal => pure hashVal
  | n + 1, i, hashVal => do
      let b ← borrow hash (msb - i)
      readWindow hash msb n (i + 1) ((hashVal <<< 8) ||| b.setWidth 64)

/-- `msb - bytes_to_read + 1`, in `u64`. -/
def lowByte (msb bytesToRead : Nat) : Except Abort U64 := do
  let below ← subU (BitVec.ofNat 64 msb) (BitVec.ofNat 64 bytesToRead)
  addU below 1

/-- The quotient of the difficulty-1 target by the window read, whose
lowest byte has index `lsbPos`. -/
def difficultyOfWindow (hashVal lsbPos : U64) : U64 :=
  let diff1 : U256 := 0xFFFF
  if lsbPos ≤ 26 then
    let d := (diff1 <<< (208 - 8 * lsbPos.toNat)) / hashVal.setWidth 256
    if d = 0 then 1
    else if Const.maxDifficulty.setWidth 256 < d then Const.maxDifficulty
    else d.setWidth 64
  else
    let d := diff1 / (hashVal.setWidth 256 <<< (8 * lsbPos.toNat - 208))
    if d = 0 then 1 else d.setWidth 64

def difficultyFromHash (hash : Bytes) : Except Abort U64 := do
  let msb ← scanMsb hash 31
  let bytesToRead := if 7 ≤ msb then 8 else msb + 1
  let hashVal ← readWindow hash msb bytesToRead 0 0
  if hashVal = 0 then pure Const.maxDifficulty
  else do
    let lsbPos ← lowByte msb bytesToRead
    pure (difficultyOfWindow hashVal lsbPos)

-- ============================================================= the nbits

/-- The clamped quotient of the difficulty-1 target by `target`. -/
def difficultyOfTarget (target : U256) : U64 :=
  if target = 0 then Const.maxDifficulty
  else
    let diff1 := (0xFFFF : U256) <<< 208
    let d := diff1 / target
    if Const.maxDifficulty.setWidth 256 < d then Const.maxDifficulty
    else if d = 0 then 1
    else d.setWidth 64

def nbitsToDifficulty (nbits : U32) : U64 :=
  let exponent := ((nbits >>> 24) &&& 0xFF).toNat
  let mantissa : U256 := (nbits &&& 0x00FFFFFF).setWidth 256
  if mantissa = 0 ∨ exponent = 0 then Const.maxDifficulty
  else if 3 ≤ exponent then
    let shift := (exponent - 3) * 8
    if 256 ≤ shift then 1 else difficultyOfTarget (mantissa <<< shift)
  else
    let shift := (3 - exponent) * 8
    if 64 ≤ shift then Const.maxDifficulty
    else difficultyOfTarget (mantissa >>> shift)

end M1n3Protocol
