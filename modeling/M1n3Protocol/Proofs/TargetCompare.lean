/-
The stratum server's target and the contract's, as one number.

The server writes the three mantissa bytes at the place the exponent
gives and drops what falls off either end of the array; the contract
shifts the mantissa and drops what falls off 256 bits. Both come to the
mantissa `placed` at its exponent, whatever the encoding: the sign bit is
masked away on both sides, and an encoding too large for 256 bits is cut
alike. So comparing a hash with the array is comparing integers.
-/
import M1n3Protocol.Contract.Compact
import M1n3Protocol.Stratum.Target

namespace M1n3Protocol

open CompactTarget (size)

variable {nbits : U32}

-- ======================================================= exponents below 3

/-- A word of the mantissa's size has no byte above the third. -/
theorem coefficient_third (nbits : U32) :
    coefficient nbits / 2 ^ 16 % 256 = coefficient nbits / 2 ^ 16 := by
  have := coefficient_lt nbits
  exact Nat.mod_eq_of_lt (by omega)

theorem zeros_get {j : Nat} (hj : j < 32) :
    (Vector.replicate 32 0 : Bytes32)[j] = 0 :=
  Vector.getElem_replicate hj

theorem nat_targetFromNbits_two (hm : nbits &&& 0x007fffff ≠ 0)
    (h : size nbits = 2) :
    (targetFromNbits nbits).nat = coefficient nbits / 256 := by
  have hthird := coefficient_third nbits
  have hlt := coefficient_lt nbits
  unfold targetFromNbits
  dsimp only
  rw [toNat_exponentByte, h, if_neg (not_or.mpr ⟨by decide, hm⟩),
    if_neg (by decide), if_pos rfl, Bytes32.nat_write (by decide),
    Bytes32.nat_write (by decide) (zeros_get (by decide)), Bytes32.nat_zero,
    toNat_byteAt, toNat_byteAt]
  · change 0 + 256 ^ 0 * (coefficient nbits / 2 ^ 8 % 256)
      + 256 ^ 1 * (coefficient nbits / 2 ^ 16 % 256) = coefficient nbits / 256
    omega
  · rw [Bytes32.write_ne (by decide) (by decide)]
    exact zeros_get (by decide)

theorem nat_targetFromNbits_one (hm : nbits &&& 0x007fffff ≠ 0)
    (h : size nbits = 1) :
    (targetFromNbits nbits).nat = coefficient nbits / 256 ^ 2 := by
  have hthird := coefficient_third nbits
  unfold targetFromNbits
  dsimp only
  rw [toNat_exponentByte, h, if_neg (not_or.mpr ⟨by decide, hm⟩),
    if_neg (by decide), if_neg (by decide), if_pos rfl,
    Bytes32.nat_write (by decide) (zeros_get (by decide)), Bytes32.nat_zero,
    toNat_byteAt]
  change 0 + 256 ^ 0 * (coefficient nbits / 2 ^ 16 % 256)
    = coefficient nbits / 256 ^ 2
  omega

-- =========================================================== off the top

/-- From exponent 33 on a byte or more is dropped, and what is left is the
mantissa's place modulo 2^256. -/
theorem nat_targetFromNbits_wide (hm : nbits &&& 0x007fffff ≠ 0)
    (h : 33 ≤ size nbits) :
    (targetFromNbits nbits).nat
      = coefficient nbits * 256 ^ (size nbits - 3) % 2 ^ 256 := by
  have hfull : (2 : Nat) ^ 256 = 256 ^ 32 := by decide
  unfold targetFromNbits
  dsimp only
  rw [toNat_exponentByte, if_neg (not_or.mpr ⟨by omega, hm⟩),
    if_pos (by omega), hfull]
  have hcases : size nbits = 33 ∨ size nbits = 34 ∨ 35 ≤ size nbits := by
    omega
  rcases hcases with hs | hs | hs
  · -- the third byte falls off
    rw [hs, Bytes32.write_of_le (by decide), Bytes32.nat_write (by decide),
      Bytes32.nat_write (by decide) (zeros_get (by decide)),
      Bytes32.nat_zero, toNat_byteAt, toNat_byteAt]
    · rw [show (256 : Nat) ^ 32 = 256 ^ 30 * 256 ^ 2 by decide,
        Nat.mul_comm (coefficient nbits), Nat.mul_mod_mul_left]
      change 0 + 256 ^ 30 * (coefficient nbits / 2 ^ 0 % 256)
        + 256 ^ 31 * (coefficient nbits / 2 ^ 8 % 256)
          = 256 ^ 30 * (coefficient nbits % 256 ^ 2)
      omega
    · rw [Bytes32.write_ne (by decide) (by decide)]
      exact zeros_get (by decide)
  · -- only the lowest byte stays
    rw [hs, Bytes32.write_of_le (by decide), Bytes32.write_of_le (by decide),
      Bytes32.nat_write (by decide) (zeros_get (by decide)),
      Bytes32.nat_zero, toNat_byteAt,
      show (256 : Nat) ^ 32 = 256 ^ 31 * 256 by decide,
      Nat.mul_comm (coefficient nbits), Nat.mul_mod_mul_left]
    change 0 + 256 ^ 31 * (coefficient nbits / 2 ^ 0 % 256)
      = 256 ^ 31 * (coefficient nbits % 256)
    omega
  · rw [Bytes32.write_of_le (by omega), Bytes32.write_of_le (by omega),
      Bytes32.write_of_le (by omega), Bytes32.nat_zero]
    obtain ⟨k, hk⟩ : ∃ k, size nbits - 3 = 32 + k :=
      ⟨size nbits - 35, by omega⟩
    rw [hk, Nat.pow_add, Nat.mul_left_comm, Nat.mul_mod_right]

-- =========================================================== every encoding

/-- The array spells the mantissa at its exponent. -/
theorem nat_targetFromNbits_placed (nbits : U32) :
    (targetFromNbits nbits).nat = placed (coefficient nbits) (size nbits) := by
  have hlt := coefficient_lt nbits
  by_cases hm : nbits &&& 0x007fffff = 0
  · have hc : coefficient nbits = 0 := by
      unfold coefficient
      rw [hm]
      rfl
    have hzeros : targetFromNbits nbits = Vector.replicate 32 0 :=
      if_pos (.inr hm)
    rw [hzeros, Bytes32.nat_zero, hc, placed]
    split
    · rw [Nat.zero_div]
    · rw [Nat.zero_mul, Nat.zero_mod]
  · have hcases : size nbits = 0 ∨ size nbits = 1 ∨ size nbits = 2
        ∨ (3 ≤ size nbits ∧ size nbits ≤ 32) ∨ 33 ≤ size nbits := by
      omega
    rcases hcases with hs | hs | hs | ⟨hlo, hhi⟩ | hs
    · have hzeros : targetFromNbits nbits = Vector.replicate 32 0 :=
        if_pos (.inl ((toNat_exponentByte nbits).trans hs))
      rw [hzeros, Bytes32.nat_zero, hs, placed, if_pos (by decide)]
      exact (Nat.div_eq_of_lt (by omega)).symm
    · rw [nat_targetFromNbits_one hm hs, hs, placed, if_pos (by decide)]
    · rw [nat_targetFromNbits_two hm hs, hs, placed, if_pos (by decide)]
      rfl
    · rw [nat_targetFromNbits hm hlo hhi, placed]
      change coefficient nbits * 256 ^ (size nbits - 3) = _
      split
      case isTrue hle =>
        rw [show size nbits - 3 = 0 by omega, show 3 - size nbits = 0 by omega]
        omega
      case isFalse =>
        -- three bytes from place 29 at most
        refine (Nat.mod_eq_of_lt ?_).symm
        have hpow : 256 ^ (size nbits - 3) ≤ 256 ^ 29 :=
          Nat.pow_le_pow_right (by decide) (by omega)
        calc coefficient nbits * 256 ^ (size nbits - 3)
            ≤ coefficient nbits * 256 ^ 29 := Nat.mul_le_mul_left _ hpow
          _ < 2 ^ 23 * 256 ^ 29 :=
              Nat.mul_lt_mul_of_pos_right hlt (by decide)
          _ ≤ 2 ^ 256 := by decide
    · rw [nat_targetFromNbits_wide hm hs, placed, if_neg (by omega)]

/-- Wherever the contract has a target at all, the server's comparison is
that of the hash, as a little-endian integer, with it. -/
theorem hash_le_target_iff (h : Bytes32) {nbits : U32}
    (hexp : size nbits ≤ 34) :
    ∃ target, bitsToTarget nbits = .ok target
      ∧ (hashLeTarget h (targetFromNbits nbits) = true
        ↔ leNat h.toList ≤ target.toNat) := by
  obtain ⟨t, ht, hval⟩ := bitsToTarget_spec hexp
  refine ⟨t, ht, ?_⟩
  rw [hashLeTarget_iff, nat_targetFromNbits_placed, hval]
  rfl

/-- At exponent 34 one byte of the mantissa is left, the top one of the
target. -/
theorem hash_le_target_iff_widest :
    ∃ target, bitsToTarget 0x2200007f = .ok target
      ∧ (hashLeTarget ((Vector.replicate 32 0).set 31 0x7f)
          (targetFromNbits 0x2200007f) = true
        ↔ leNat ((Vector.replicate 32 0 : Bytes32).set 31 0x7f).toList
          ≤ target.toNat) :=
  hash_le_target_iff _ (by decide)

end M1n3Protocol
