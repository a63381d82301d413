/-
The two block tests side by side: the stratum server's, on the 256-bit
target, and the contract's, on difficulties.

# Where they agree

Clearing low bytes of a hash and clamping both quotients the same way
only ever raises the hash's difficulty against the target's, so a hash at
or below the target is worth the network difficulty. The one exception is
a hash with no byte above its eighth: the contract has a window for it
but counts the window's low end below zero, and aborts.
-/
import M1n3Protocol.Proofs.Target
import M1n3Protocol.Stratum.Target

namespace M1n3Protocol

open Checked

-- ======================================================= the contract's test

variable {nbits : U32}

/-- An encoding within the array is a target, the mantissa at its
exponent. -/
theorem target_of_fits (hsign : nbits &&& 0x00800000 = 0)
    (hlo : 3 ≤ CompactTarget.size nbits)
    (hhi : CompactTarget.size nbits ≤ 32) :
    CompactTarget.target nbits = (nbits &&& 0x007fffff).toNat
      * 256 ^ (CompactTarget.size nbits - 3) := by
  have hword : CompactTarget.word nbits = (nbits &&& 0x007fffff).toNat := by
    unfold CompactTarget.word
    dsimp only
    split
    case isTrue hle =>
      rw [show 3 - CompactTarget.size nbits = 0 by omega, Nat.pow_zero,
        Nat.div_one]
    case isFalse => rfl
  unfold CompactTarget.target
  rw [if_neg, hword]
  rintro (⟨-, hneg⟩ | ⟨-, hover⟩)
  · exact hneg hsign
  · omega

/-- A hash of 2^64 or more, at or below the target, is worth the network
difficulty. -/
theorem block_of_le_target {h : Bytes} (hlen : h.length = 32)
    (hlarge : 2 ^ 64 ≤ leNat h) (hle : leNat h ≤ CompactTarget.target nbits) :
    ∃ d, difficultyFromHash h = .ok d ∧ nbitsToDifficulty nbits ≤ d := by
  obtain ⟨k, d, hd, -, hk, -, hspec⟩ := difficultyFromHash_of_large hlen hlarge
  refine ⟨d, hd, ?_⟩
  have hcleared : leNat h / 256 ^ k * 256 ^ k ≤ CompactTarget.target nbits :=
    (Nat.div_mul_le_self _ _).trans hle
  have hpow : (256 : Nat) ^ k ≤ 256 ^ (k + 7) :=
    Nat.pow_le_pow_right (by decide) (by omega)
  have hpos : 0 < leNat h / 256 ^ k * 256 ^ k :=
    Nat.mul_pos (Nat.div_pos (hpow.trans hk) (Nat.pow_pos (by decide)))
      (Nat.pow_pos (by decide))
  rw [BitVec.le_def, hspec, nbitsToDifficulty_of_large (hlarge.trans hle)]
  exact clampDifficulty_mono (Nat.div_le_div_left hcleared hpos)

-- ============================================================== both tests

/-- On a target that fits the array, a hash the stratum server takes for a
block is one to the contract, unless it is a non-zero number below
2^64. -/
theorem stratum_block_claimed_iff (hsign : nbits &&& 0x00800000 = 0)
    (hmantissa : nbits &&& 0x007fffff ≠ 0)
    (hlo : 3 ≤ CompactTarget.size nbits)
    (hhi : CompactTarget.size nbits ≤ 32) (h : Bytes32) :
    (hashLeTarget h (targetFromNbits nbits) = true →
        ∃ d, difficultyFromHash h.toList = .ok d
          ∧ nbitsToDifficulty nbits ≤ d)
      ↔ (h.nat = 0 ∨ 2 ^ 64 ≤ h.nat
        ∨ CompactTarget.target nbits < h.nat) := by
  have hlen : h.toList.length = 32 := Vector.length_toList
  rw [hashLeTarget_iff, nat_targetFromNbits hmantissa hlo hhi,
    ← target_of_fits hsign hlo hhi]
  constructor
  · intro himp
    by_contra hnone
    simp only [not_or, Nat.not_le, Nat.not_lt] at hnone
    obtain ⟨hne, hsmall, hle⟩ := hnone
    obtain ⟨d, hd, -⟩ := himp hle
    exact difficultyFromHash_of_small hlen (Nat.pos_of_ne_zero hne) hsmall d hd
  · rintro (hz | hlarge | habove) hle
    · exact ⟨_, difficultyFromHash_of_zero hlen hz,
        BitVec.le_def.mpr (nbitsToDifficulty_le nbits)⟩
    · exact block_of_le_target hlen hlarge hle
    · omega

/-- The hash of block 125552. -/
def headerHash125552 : Bytes32 :=
  ⟨(leBytes 32
    0x00000000000000001e8d6829a8a21adc5d38d0a473b144b6765798e61f98bd1d).toArray,
    by rw [List.size_toArray, length_leBytes]⟩

/-- Both tests take it for a block. -/
theorem stratum_block_claimed_block125552 :
    hashLeTarget headerHash125552 (targetFromNbits 0x1a44b9f2) = true
      ∧ ∃ d, difficultyFromHash headerHash125552.toList = .ok d
        ∧ nbitsToDifficulty 0x1a44b9f2 ≤ d := by
  have hblock : hashLeTarget headerHash125552 (targetFromNbits 0x1a44b9f2) = true :=
    by decide +kernel
  refine ⟨hblock, (stratum_block_claimed_iff ?_ ?_ ?_ ?_ headerHash125552).mpr
    (.inr (.inl ?_)) hblock⟩
  · decide
  · decide
  · decide
  · decide
  · decide +kernel

/-- The hash 1 meets the same target, and the contract aborts on it. -/
theorem stratum_block_unclaimed :
    ¬ ∀ (nbits : U32) (h : Bytes32), nbits &&& 0x00800000 = 0 →
      nbits &&& 0x007fffff ≠ 0 → 3 ≤ CompactTarget.size nbits →
      CompactTarget.size nbits ≤ 32 →
      hashLeTarget h (targetFromNbits nbits) = true →
      ∃ d, difficultyFromHash h.toList = .ok d
        ∧ nbitsToDifficulty nbits ≤ d := by
  intro hall
  obtain ⟨d, hd, -⟩ := hall 0x1a44b9f2 ((Vector.replicate 32 0).set 0 1)
    (by decide) (by decide) (by decide) (by decide) (by decide +kernel)
  have herr : difficultyFromHash
      ((Vector.replicate 32 0 : Bytes32).set 0 1).toList
        = .error .arithmetic := by
    decide +kernel
  rw [herr] at hd
  cases hd

end M1n3Protocol
