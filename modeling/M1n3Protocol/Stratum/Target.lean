/-
The stratum server's block test: the target of an `nbits` field as a
little-endian byte array, and the comparison of a hash with it.

The array is written byte by byte at the place the exponent gives, so a
byte that would fall outside is dropped, and the comparison walks from
the top byte down to the first difference.
-/
import M1n3Protocol.Contract.Base
import M1n3Protocol.Lib.Bytes
import M1n3Protocol.Lib.CompactTarget

namespace M1n3Protocol

/-- `[u8; 32]`. -/
abbrev Bytes32 := Vector (BitVec 8) 32

theorem Bytes32.width_le : 32 ≤ 32 := Nat.le_refl 32

/-- A write behind its bound check. -/
def Bytes32.write (target : Bytes32) (i : Nat) (b : BitVec 8) : Bytes32 :=
  if h : i < 32 then target.set i b else target

def targetFromNbits (nbits : U32) : Bytes32 :=
  let target : Bytes32 := Vector.replicate 32 0
  let exponent := ((nbits >>> 24) &&& 0xff).toNat
  let mantissa := nbits &&& 0x007fffff
  let byte (shift : Nat) : BitVec 8 :=
    ((mantissa >>> shift) &&& 0xff).setWidth 8
  if exponent = 0 ∨ mantissa = 0 then target
  else if 3 ≤ exponent then
    let pos := exponent - 3
    ((target.write pos (byte 0)).write (pos + 1) (byte 8)).write (pos + 2)
      (byte 16)
  else if exponent = 2 then
    (target.write 0 (byte 8)).write 1 (byte 16)
  else if exponent = 1 then
    target.write 0 (byte 16)
  else target

/-- The loop over `(0..n).rev()`. -/
def hashLeBelow (hash target : Bytes32) : (n : Nat) → n ≤ 32 → Bool
  | 0, _ => true
  | i + 1, hi =>
      if hash[i] < target[i] then true
      else if target[i] < hash[i] then false
      else hashLeBelow hash target i (by omega)

def hashLeTarget (hash target : Bytes32) : Bool :=
  hashLeBelow hash target 32 Bytes32.width_le

-- ======================================================= what they do

/-- The number a hash or a target spells. -/
def Bytes32.nat (v : Bytes32) : Nat := leNat v.toList

theorem Bytes32.nat_lt (v : Bytes32) : v.nat < 256 ^ 32 := by
  have h := leNat_lt v.toList
  rw [Vector.length_toList] at h
  exact h

theorem Bytes32.nat_mod_succ (v : Bytes32) {i : Nat} (h : i < 32) :
    v.nat % 256 ^ (i + 1) = 256 ^ i * v[i].toNat + v.nat % 256 ^ i := by
  have hi : i < v.toList.length := by
    rw [Vector.length_toList]
    exact h
  have hmod := leNat_mod_succ hi
  rw [Vector.getElem_toList] at hmod
  exact hmod

/-- The loop compares the low bytes as numbers: the first difference from
the top decides, and the bytes below cannot make up for it. -/
theorem hashLeBelow_iff (hash target : Bytes32) : ∀ (n : Nat) (hn : n ≤ 32),
    hashLeBelow hash target n hn = true
      ↔ hash.nat % 256 ^ n ≤ target.nat % 256 ^ n := by
  intro n
  induction n with
  | zero =>
      intro _
      simp [hashLeBelow, Nat.mod_one]
  | succ i ih =>
      intro hn
      have hpos : 0 < 256 ^ i := Nat.pow_pos (by decide)
      have hh := Nat.mod_lt hash.nat hpos
      have ht := Nat.mod_lt target.nat hpos
      rw [hashLeBelow, hash.nat_mod_succ hn, target.nat_mod_succ hn]
      by_cases hlt : hash[i] < target[i]
      · have hle := Nat.mul_le_mul_left (256 ^ i)
          (Nat.succ_le_of_lt (BitVec.lt_def.mp hlt))
        rw [Nat.mul_succ] at hle
        rw [if_pos hlt]
        exact ⟨fun _ => by omega, fun _ => rfl⟩
      · by_cases hgt : target[i] < hash[i]
        · have hle := Nat.mul_le_mul_left (256 ^ i)
            (Nat.succ_le_of_lt (BitVec.lt_def.mp hgt))
          rw [Nat.mul_succ] at hle
          rw [if_neg hlt, if_pos hgt]
          refine ⟨fun h => ?_, fun h => by omega⟩
          cases h
        · have heq : hash[i].toNat = target[i].toNat := by
            rw [BitVec.lt_def] at hlt hgt
            omega
          rw [if_neg hlt, if_neg hgt, ih (by omega), heq]
          exact (Nat.add_le_add_iff_left).symm

/-- The comparison is that of the two numbers. -/
theorem hashLeTarget_iff (hash target : Bytes32) :
    hashLeTarget hash target = true ↔ hash.nat ≤ target.nat := by
  unfold hashLeTarget
  rw [hashLeBelow_iff, Nat.mod_eq_of_lt hash.nat_lt,
    Nat.mod_eq_of_lt target.nat_lt]

/-- A write on a zero byte adds the byte at its place. -/
theorem Bytes32.nat_write {v : Bytes32} {i : Nat} (h : i < 32)
    (hz : v[i] = 0) (b : BitVec 8) :
    (v.write i b).nat = v.nat + 256 ^ i * b.toNat := by
  have hi : i < v.toList.length := by
    rw [Vector.length_toList]
    exact h
  unfold Bytes32.write Bytes32.nat
  rw [dif_pos h, Vector.toList_set]
  exact leNat_set hi (by rw [Vector.getElem_toList]; exact hz) b

theorem Bytes32.write_ne {v : Bytes32} {i j : Nat} (hj : j < 32)
    (hne : i ≠ j) (b : BitVec 8) : (v.write i b)[j] = v[j] := by
  unfold Bytes32.write
  split
  case isTrue hi => exact Vector.getElem_set_ne hi hj hne
  case isFalse => rfl

/-- A write outside is dropped. -/
theorem Bytes32.write_of_le {i : Nat} (h : 32 ≤ i) (v : Bytes32)
    (b : BitVec 8) : v.write i b = v :=
  dif_neg (by omega)

theorem Bytes32.nat_zero : Bytes32.nat (Vector.replicate 32 0) = 0 := by
  unfold Bytes32.nat
  rw [Vector.toList_replicate]
  exact leNat_replicate_zero 32

/-- An eight-bit slice of a word, as a digit. -/
theorem toNat_byteAt (m : U32) (shift : Nat) :
    (((m >>> shift) &&& 0xff).setWidth 8 : BitVec 8).toNat
      = m.toNat / 2 ^ shift % 256 := by
  have hand : ((m >>> shift) &&& 0xff).toNat = m.toNat / 2 ^ shift % 2 ^ 8 := by
    rw [BitVec.toNat_and, BitVec.toNat_ushiftRight,
      Nat.shiftRight_eq_div_pow]
    exact Nat.and_two_pow_sub_one_eq_mod _ 8
  rw [BitVec.toNat_setWidth, hand]
  exact Nat.mod_mod _ _

theorem toNat_exponentByte (nbits : U32) :
    ((nbits >>> 24) &&& 0xff).toNat = CompactTarget.size nbits := by
  rw [BitVec.toNat_and]
  refine (Nat.and_two_pow_sub_one_eq_mod _ 8).trans (Nat.mod_eq_of_lt ?_)
  rw [BitVec.toNat_ushiftRight, Nat.shiftRight_eq_div_pow]
  have := nbits.isLt
  omega

/-- Within the array the target is the mantissa at its exponent. -/
theorem nat_targetFromNbits {nbits : U32}
    (hm : nbits &&& 0x007fffff ≠ 0) (hlo : 3 ≤ CompactTarget.size nbits)
    (hhi : CompactTarget.size nbits ≤ 32) :
    (targetFromNbits nbits).nat = (nbits &&& 0x007fffff).toNat
      * 256 ^ (CompactTarget.size nbits - 3) := by
  have hlt : (nbits &&& 0x007fffff).toNat < 2 ^ 23 := by
    rw [BitVec.toNat_and]
    exact Nat.lt_of_le_of_lt Nat.and_le_right (by decide)
  have hzero : ∀ j (hj : j < 32),
      (Vector.replicate 32 0 : Bytes32)[j] = 0 := by
    intro j hj
    exact Vector.getElem_replicate hj
  unfold targetFromNbits
  dsimp only
  rw [toNat_exponentByte, if_neg (by
    rintro (h | h)
    · omega
    · exact hm h), if_pos hlo]
  generalize nbits &&& 0x007fffff = m at hm hlt
  generalize hpos : CompactTarget.size nbits - 3 = pos
  rw [Bytes32.nat_write (by omega), Bytes32.nat_write (by omega),
    Bytes32.nat_write (by omega) (hzero pos (by omega)), Bytes32.nat_zero,
    toNat_byteAt, toNat_byteAt, toNat_byteAt, Nat.pow_add 256 pos 1,
    Nat.pow_add 256 pos 2, Nat.mul_assoc, Nat.mul_assoc, Nat.zero_add,
    ← Nat.mul_add, ← Nat.mul_add, Nat.mul_comm m.toNat]
  · congr 1
    omega
  · rw [Bytes32.write_ne (by omega) (by omega)]
    exact hzero _ (by omega)
  · rw [Bytes32.write_ne (by omega) (by omega),
      Bytes32.write_ne (by omega) (by omega)]
    exact hzero _ (by omega)

end M1n3Protocol
