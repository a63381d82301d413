/-
`btc_math.move`, the compact targets: the decoder, the encoder, and the
work a target stands for.

# Shifts

Both ways shift by `8 * (exponent - 3)` bytes, computed in `u8`. That
overflows, and aborts, from exponent 35 on; below it the shift itself
drops what is above 256 bits.
-/
import M1n3Protocol.Contract.BtcMath
import M1n3Protocol.Lib.CompactTarget
import M1n3Protocol.Lib.Leading

namespace M1n3Protocol

open Checked

-- ================================================================ the code

/-- `8 * (a - b)`, in `u8`. -/
def byteShift (a b : BitVec 8) : Except Abort Nat := do
  let bytes ← subU a b
  let shift ← mulU 8 bytes
  return shift.toNat

def bitsToTarget (bits : U32) : Except Abort U256 := do
  let exponent : BitVec 8 := (bits >>> 24).setWidth 8
  let coefficient : U256 := (bits &&& 0x007fffff).setWidth 256
  if exponent ≤ 3 then do
    let shift ← byteShift 3 exponent
    return coefficient >>> shift
  else do
    let shift ← byteShift exponent 3
    return coefficient <<< shift

/-- The scan for the top bit, from bit `b` down. -/
def topBit (target : U256) : Nat → Nat
  | 0 => 0
  | b + 1 =>
      if target &&& ((1 : U256) <<< (b + 1)) = 0 then topBit target b
      else b + 1

def bytesOfTarget (target : U256) : BitVec 8 :=
  if target = 0 then 1 else BitVec.ofNat 8 (topBit target 255 / 8 + 1)

/-- The shift of `target_to_bits`: the three top bytes to the low end. -/
def aligned (target : U256) (exponent : BitVec 8) : Except Abort U256 :=
  if exponent ≤ 3 then do
    let shift ← byteShift 3 exponent
    return target <<< shift
  else do
    let shift ← byteShift exponent 3
    return target >>> shift

def targetToBits (target : U256) : Except Abort U32 := do
  let exponent := bytesOfTarget target
  let shifted ← aligned target exponent
  let coefficient : U32 := (shifted &&& 0xffffffff).setWidth 32
  -- a set high bit would be a sign
  if 0 < coefficient &&& 0x00800000 then do
    let exponent ← addU exponent 1
    return (coefficient >>> 8) ||| (exponent.setWidth 32 <<< 24)
  else return coefficient ||| (exponent.setWidth 32 <<< 24)

def calcWorkFromBits (bits : U32) : Except Abort U256 := do
  let target ← bitsToTarget bits
  if target = 0 then return 0
  else do
    let notTarget := ~~~target
    let next ← addU target 1
    addU (notTarget / next) 1

-- ============================================================= the decoder

/-- The mantissa of an encoding, without the sign bit. -/
def coefficient (bits : U32) : Nat := (bits &&& 0x007fffff).toNat

theorem coefficient_lt (bits : U32) : coefficient bits < 2 ^ 23 := by
  unfold coefficient
  rw [BitVec.toNat_and]
  exact Nat.lt_of_le_of_lt Nat.and_le_right (by decide)

theorem byteShift_of_le {a b : BitVec 8} (hle : b.toNat ≤ a.toNat)
    (hfit : a.toNat - b.toNat < 32) :
    byteShift a b = .ok (8 * (a.toNat - b.toNat)) := by
  obtain ⟨bytes, hbytes, hval⟩ := sub_of_le Abort.arithmetic hle
  have height : (8 : BitVec 8).toNat = 8 := rfl
  have hshift : (8 * bytes).toNat = 8 * bytes.toNat := by
    rw [BitVec.toNat_mul, height]
    exact Nat.mod_eq_of_lt (by omega)
  refine bind_eq_ok.mpr ⟨bytes, hbytes, ?_⟩
  refine bind_eq_ok.mpr ⟨8 * bytes, mul_eq_ok.mpr hshift, ?_⟩
  rw [pure_eq_ok, hshift]
  omega

theorem byteShift_of_wide {a b : BitVec 8} (h : b.toNat + 32 ≤ a.toNat) :
    byteShift a b = .error .arithmetic := by
  obtain ⟨bytes, hbytes, hval⟩ := sub_of_le Abort.arithmetic
    (show b.toNat ≤ a.toNat by omega)
  have hover : ¬ (8 : BitVec 8).toNat * bytes.toNat < 2 ^ 8 := by
    show ¬ 8 * bytes.toNat < 256
    omega
  refine bind_eq_error.mpr (.inr ⟨bytes, hbytes, ?_⟩)
  exact bind_eq_error.mpr (.inl (if_neg hover))

/-- A mantissa at its exponent, with what is above 256 bits dropped. -/
def placed (mantissa exponent : Nat) : Nat :=
  if exponent ≤ 3 then mantissa / 256 ^ (3 - exponent)
  else mantissa * 256 ^ (exponent - 3) % 2 ^ 256

theorem toNat_exponent (bits : U32) :
    ((bits >>> 24).setWidth 8).toNat = CompactTarget.size bits := by
  have hlt : (bits >>> 24).toNat < 2 ^ 8 := by
    rw [BitVec.toNat_ushiftRight, Nat.shiftRight_eq_div_pow]
    have := bits.isLt
    omega
  rw [BitVec.toNat_setWidth, Nat.mod_eq_of_lt hlt]
  rfl

theorem size_lt (bits : U32) : CompactTarget.size bits < 256 := by
  rw [← toNat_exponent]
  exact BitVec.isLt _

theorem toNat_coefficient (bits : U32) :
    ((bits &&& 0x007fffff).setWidth 256 : U256).toNat = coefficient bits := by
  rw [BitVec.toNat_setWidth]
  exact Nat.mod_eq_of_lt (Nat.lt_trans (coefficient_lt bits) (by decide))

/-- The decoder answers up to exponent 34. -/
theorem bitsToTarget_spec {bits : U32} (h : CompactTarget.size bits ≤ 34) :
    ∃ t, bitsToTarget bits = .ok t
      ∧ t.toNat = placed (coefficient bits) (CompactTarget.size bits) := by
  have hexp := toNat_exponent bits
  have hcoeff := toNat_coefficient bits
  have hthree : (3 : BitVec 8).toNat = 3 := rfl
  by_cases hsmall : CompactTarget.size bits ≤ 3
  · have hle : (bits >>> 24).setWidth 8 ≤ (3 : BitVec 8) := by
      rw [BitVec.le_def, hexp]
      exact hsmall
    have hshift := byteShift_of_le (a := 3) (b := (bits >>> 24).setWidth 8)
      (BitVec.le_def.mp hle) (by omega)
    rw [hthree, hexp] at hshift
    have hrun : bitsToTarget bits = .ok ((bits &&& 0x007fffff).setWidth 256
        >>> (8 * (3 - CompactTarget.size bits))) := by
      unfold bitsToTarget
      dsimp only
      rw [if_pos hle, hshift]
      rfl
    refine ⟨_, hrun, ?_⟩
    rw [BitVec.toNat_ushiftRight, Nat.shiftRight_eq_div_pow, hcoeff,
      ← Leading.pow256, placed, if_pos hsmall]
  · have hgt : ¬ (bits >>> 24).setWidth 8 ≤ (3 : BitVec 8) := by
      rw [BitVec.le_def, hexp]
      exact hsmall
    have hshift := byteShift_of_le (a := (bits >>> 24).setWidth 8) (b := 3)
      (by omega) (by omega)
    rw [hthree, hexp] at hshift
    have hrun : bitsToTarget bits = .ok ((bits &&& 0x007fffff).setWidth 256
        <<< (8 * (CompactTarget.size bits - 3))) := by
      unfold bitsToTarget
      dsimp only
      rw [if_neg hgt, hshift]
      rfl
    refine ⟨_, hrun, ?_⟩
    rw [BitVec.toNat_shiftLeft, Nat.shiftLeft_eq, hcoeff,
      ← Leading.pow256, placed, if_neg hsmall]

theorem bitsToTarget_of_wide {bits : U32}
    (h : 34 < CompactTarget.size bits) :
    bitsToTarget bits = .error .arithmetic := by
  have hexp := toNat_exponent bits
  have hthree : (3 : BitVec 8).toNat = 3 := rfl
  have hgt : ¬ (bits >>> 24).setWidth 8 ≤ (3 : BitVec 8) := by
    rw [BitVec.le_def, hexp]
    omega
  unfold bitsToTarget
  dsimp only
  rw [if_neg hgt, byteShift_of_wide (by omega)]
  rfl

-- ============================================================= the encoder

/-- The test of one bit. -/
theorem and_bit_eq_zero {w : Nat} (x : BitVec w) {b : Nat} (hb : b < w) :
    x &&& ((1 : BitVec w) <<< b) = 0 ↔ x.toNat.testBit b = false := by
  have hand : x &&& ((1 : BitVec w) <<< b)
      = if x.toNat.testBit b then BitVec.twoPow w b else 0 := by
    show x &&& (1#w <<< b) = _
    rw [← BitVec.twoPow_eq, BitVec.and_twoPow]
    rfl
  have hne : BitVec.twoPow w b ≠ 0 := by
    intro hzero
    have hpow : 2 ^ b = (0 : BitVec w).toNat := by
      rw [← hzero, BitVec.toNat_twoPow_eq_ite, if_pos hb]
    exact absurd hpow (Nat.ne_of_gt (Nat.two_pow_pos b))
  rw [hand]
  cases x.toNat.testBit b with
  | false => simp
  | true => simpa using hne

/-- The scan finds the logarithm. -/
theorem topBit_eq {target : U256} (hne : target.toNat ≠ 0) :
    ∀ {b : Nat}, b < 256 → target.toNat < 2 ^ (b + 1) →
      topBit target b = target.toNat.log2 := by
  intro b
  induction b with
  | zero =>
      intro _ hlt
      have hone : target.toNat = 1 := by omega
      rw [hone]
      rfl
  | succ b ih =>
      intro hb hlt
      have hbit := and_bit_eq_zero target hb
      rw [Nat.testBit_eq_decide_div_mod_eq] at hbit
      rw [topBit]
      by_cases hzero : target &&& ((1 : U256) <<< (b + 1)) = 0
      · rw [if_pos hzero]
        have hmod : target.toNat / 2 ^ (b + 1) % 2 = 0 := by
          have hne := of_decide_eq_false (hbit.mp hzero)
          omega
        apply ih (by omega)
        have hquot : target.toNat / 2 ^ (b + 1) < 2 := by
          rw [Nat.div_lt_iff_lt_mul (Nat.two_pow_pos _), ← Nat.pow_succ']
          exact hlt
        have hnone : target.toNat / 2 ^ (b + 1) = 0 := by
          rwa [Nat.mod_eq_of_lt hquot] at hmod
        rcases Nat.div_eq_zero_iff.mp hnone with hz | hlt'
        · exact absurd hz (Nat.ne_of_gt (Nat.two_pow_pos _))
        · exact hlt'
      · rw [if_neg hzero]
        symm
        rw [Nat.log2_eq_iff hne]
        refine ⟨?_, hlt⟩
        by_contra hsmall
        apply hzero
        apply hbit.mpr
        rw [Nat.div_eq_of_lt (Nat.not_le.mp hsmall)]
        rfl

theorem log2_lt (target : U256) : target.toNat.log2 < 256 := by
  by_cases hz : target.toNat = 0
  · rw [hz]
    decide
  · exact (Nat.log2_lt hz).mpr target.isLt

theorem bytesOfTarget_spec (target : U256) :
    (bytesOfTarget target).toNat = target.toNat.log2 / 8 + 1 := by
  unfold bytesOfTarget
  by_cases hz : target = 0
  · rw [if_pos hz, hz]
    rfl
  · have hne : target.toNat ≠ 0 := fun h => hz (BitVec.eq_of_toNat_eq h)
    have hlog := log2_lt target
    rw [if_neg hz, topBit_eq hne (by decide) target.isLt, BitVec.toNat_ofNat]
    exact Nat.mod_eq_of_lt (by omega)

/-- The three bytes from the top one down. -/
def topThree (n : Nat) : Nat :=
  n * 256 ^ (3 - (n.log2 / 8 + 1)) / 256 ^ (n.log2 / 8 + 1 - 3)

/-- They leave no room above. -/
theorem topThree_lt (n : Nat) : topThree n < 2 ^ 24 := by
  have hlog : n < 2 ^ (n.log2 + 1) := Nat.lt_log2_self
  have hbytes : n < 256 ^ (n.log2 / 8 + 1) := by
    refine Nat.lt_of_lt_of_le hlog ?_
    rw [Leading.pow256]
    exact Nat.pow_le_pow_right (by decide) (by omega)
  unfold topThree
  rw [Nat.div_lt_iff_lt_mul (Nat.pow_pos (by decide)),
    show (2 : Nat) ^ 24 = 256 ^ 3 by decide, ← Nat.pow_add]
  calc n * 256 ^ (3 - (n.log2 / 8 + 1))
      < 256 ^ (n.log2 / 8 + 1) * 256 ^ (3 - (n.log2 / 8 + 1)) :=
        Nat.mul_lt_mul_of_pos_right hbytes (Nat.pow_pos (by decide))
    _ = 256 ^ (3 + (n.log2 / 8 + 1 - 3)) := by
        rw [← Nat.pow_add]
        congr 1
        omega

/-- The low half of a shifted target. -/
theorem toNat_low {x : U256} (h : x.toNat < 2 ^ 24) :
    ((x &&& 0xffffffff).setWidth 32 : U32).toNat = x.toNat := by
  have hmask : (0xffffffff : U256).toNat = 2 ^ 32 - 1 := rfl
  rw [BitVec.toNat_setWidth, BitVec.toNat_and, hmask,
    Nat.and_two_pow_sub_one_eq_mod, Nat.mod_mod]
  exact Nat.mod_eq_of_lt (by omega)

/-- Whichever way the shift goes. -/
theorem aligned_spec (target : U256) :
    ∃ shifted, aligned target (bytesOfTarget target) = .ok shifted
      ∧ shifted.toNat = topThree target.toNat := by
  have hbytes := bytesOfTarget_spec target
  have hthree : (3 : BitVec 8).toNat = 3 := rfl
  have htop := topThree_lt target.toNat
  by_cases hsmall : target.toNat.log2 / 8 + 1 ≤ 3
  · have hle : bytesOfTarget target ≤ 3 := by
      rw [BitVec.le_def, hbytes]
      exact hsmall
    have hshift := byteShift_of_le (BitVec.le_def.mp hle) (by omega)
    rw [hthree, hbytes] at hshift
    refine ⟨target <<< (8 * (3 - (target.toNat.log2 / 8 + 1))), ?_, ?_⟩
    · rw [aligned, if_pos hle, hshift]
      rfl
    · unfold topThree at htop ⊢
      rw [Nat.sub_eq_zero_of_le hsmall, Nat.pow_zero, Nat.div_one] at htop ⊢
      rw [BitVec.toNat_shiftLeft, Nat.shiftLeft_eq, ← Leading.pow256]
      exact Nat.mod_eq_of_lt (Nat.lt_trans htop (by decide))
  · have hgt : ¬ bytesOfTarget target ≤ 3 := by
      rw [BitVec.le_def, hbytes]
      exact hsmall
    have hshift := byteShift_of_le (a := bytesOfTarget target) (b := 3)
      (by omega) (by have := log2_lt target; omega)
    rw [hthree, hbytes] at hshift
    refine ⟨target >>> (8 * (target.toNat.log2 / 8 + 1 - 3)), ?_, ?_⟩
    · rw [aligned, if_neg hgt, hshift]
      rfl
    · unfold topThree
      rw [Nat.sub_eq_zero_of_le (show 3 ≤ target.toNat.log2 / 8 + 1 by omega),
        Nat.pow_zero, Nat.mul_one, BitVec.toNat_ushiftRight,
        Nat.shiftRight_eq_div_pow, ← Leading.pow256]

/-- Size byte over mantissa. -/
theorem toNat_packed {c : U32} {e : BitVec 8} (h : c.toNat < 2 ^ 24) :
    (c ||| (e.setWidth 32 <<< 24)).toNat = c.toNat + e.toNat * 2 ^ 24 := by
  have he := e.isLt
  have hwide : (e.setWidth 32).toNat = e.toNat := by
    rw [BitVec.toNat_setWidth]
    exact Nat.mod_eq_of_lt (by omega)
  rw [BitVec.toNat_or, BitVec.toNat_shiftLeft, Nat.shiftLeft_eq, hwide,
    Nat.mod_eq_of_lt (show e.toNat * 2 ^ 24 < 2 ^ 32 by omega), Nat.or_comm,
    Nat.mul_comm, ← Nat.two_pow_add_eq_or_of_lt h, Nat.add_comm]

/-- Without the top bit the three bytes are the mantissa. -/
theorem topThree_unsigned {n : Nat} (h : topThree n < 2 ^ 23) :
    Leading.signedSize n = n.log2 / 8 + 1
      ∧ Leading.mantissa n = topThree n := by
  have hsize : Leading.signedSize n = n.log2 / 8 + 1 := by
    by_cases hz : n = 0
    · rw [hz]
      decide
    · -- a top bit at the end of a byte would be the sign bit
      by_contra hne
      unfold Leading.signedSize at hne
      have hlog : 2 ^ n.log2 ≤ n := Nat.log2_self_le hz
      have hhigh : 2 ^ 23 ≤ topThree n := by
        unfold topThree
        rw [Nat.le_div_iff_mul_le (Nat.pow_pos (by decide)), Leading.pow256,
          Leading.pow256, ← Nat.pow_add]
        calc 2 ^ (23 + 8 * (n.log2 / 8 + 1 - 3))
            ≤ 2 ^ (n.log2 + 8 * (3 - (n.log2 / 8 + 1))) :=
              Nat.pow_le_pow_right (by decide) (by omega)
          _ = 2 ^ n.log2 * 2 ^ (8 * (3 - (n.log2 / 8 + 1))) := Nat.pow_add ..
          _ ≤ n * 2 ^ (8 * (3 - (n.log2 / 8 + 1))) :=
              Nat.mul_le_mul_right _ hlog
      exact absurd h (Nat.not_lt.mpr hhigh)
  refine ⟨hsize, ?_⟩
  unfold Leading.mantissa Leading.unit
  rw [hsize]
  rfl

/-- With it, the mantissa is the two highest, one byte up. -/
theorem topThree_signed {n : Nat} (h : 2 ^ 23 ≤ topThree n) :
    Leading.signedSize n = n.log2 / 8 + 1 + 1
      ∧ Leading.mantissa n = topThree n / 256 := by
  have hsize : Leading.signedSize n = n.log2 / 8 + 1 + 1 := by
    by_contra hne
    have hsame : Leading.signedSize n = n.log2 / 8 + 1 := by
      unfold Leading.signedSize at hne ⊢
      omega
    have hmantissa : Leading.mantissa n = topThree n := by
      unfold Leading.mantissa Leading.unit
      rw [hsame]
      rfl
    have hlt := Leading.two_mul_mantissa_lt (n := n)
    omega
  refine ⟨hsize, ?_⟩
  unfold Leading.mantissa Leading.unit topThree
  rw [hsize, Nat.div_div_eq_div_mul, ← Nat.pow_succ]
  by_cases hsmall : n.log2 / 8 + 1 < 3
  · rw [show n.log2 / 8 + 1 + 1 - 3 = 0 by omega,
      show n.log2 / 8 + 1 - 3 = 0 by omega,
      show 3 - (n.log2 / 8 + 1) = 3 - (n.log2 / 8 + 1 + 1) + 1 by omega,
      Nat.pow_succ, ← Nat.mul_assoc, Nat.pow_zero, Nat.div_one,
      show (256 : Nat) ^ Nat.succ 0 = 256 by rfl,
      Nat.mul_div_cancel _ (by decide)]
  · rw [show 3 - (n.log2 / 8 + 1 + 1) = 0 by omega,
      show 3 - (n.log2 / 8 + 1) = 0 by omega,
      show n.log2 / 8 + 1 + 1 - 3 = n.log2 / 8 + 1 - 3 + 1 by omega]

/-- The sign test of the encoder. -/
theorem signed_iff {c : U32} (h : c.toNat < 2 ^ 24) :
    0 < c &&& 0x00800000 ↔ 2 ^ 23 ≤ c.toNat := by
  have hbit := and_bit_eq_zero c (show 23 < 32 by decide)
  rw [Nat.testBit_eq_decide_div_mod_eq, decide_eq_false_iff_not] at hbit
  have hmask : ((1 : U32) <<< 23) = 0x00800000 := by decide
  rw [hmask] at hbit
  constructor
  · intro hpos
    by_contra hsmall
    have hzero : c &&& 0x00800000 = 0 := hbit.mpr (by omega)
    rw [hzero] at hpos
    exact absurd hpos (by decide)
  · intro hlarge
    by_contra hzero
    have hnat : (c &&& 0x00800000).toNat = 0 := by
      rw [BitVec.lt_def] at hzero
      exact Nat.eq_zero_of_not_pos hzero
    exact hbit.mp (BitVec.eq_of_toNat_eq hnat) (by omega)

/-- The encoder answers, with the size and the mantissa of the target. -/
theorem targetToBits_spec (target : U256) :
    ∃ bits, targetToBits target = .ok bits
      ∧ bits.toNat = Leading.mantissa target.toNat
        + Leading.signedSize target.toNat * 2 ^ 24 := by
  have hbytes := bytesOfTarget_spec target
  have htop := topThree_lt target.toNat
  obtain ⟨shifted, hshifted, hval⟩ := aligned_spec target
  have hlow := toNat_low (x := shifted) (by rw [hval]; exact htop)
  rw [hval] at hlow
  rw [targetToBits, hshifted]
  show ∃ bits, (if 0 < (shifted &&& 0xffffffff).setWidth 32 &&& 0x00800000
    then _ else _) = _ ∧ _
  generalize (shifted &&& 0xffffffff).setWidth 32 = c at hlow
  have hc : c.toNat < 2 ^ 24 := by
    rw [hlow]
    exact htop
  by_cases hhigh : 2 ^ 23 ≤ topThree target.toNat
  · obtain ⟨hsize, hmantissa⟩ := topThree_signed hhigh
    obtain ⟨e, he, heval⟩ := add_of_lt Abort.arithmetic
      (a := bytesOfTarget target) (b := 1) (by
        have hlog := log2_lt target
        rw [hbytes]
        show _ + 1 < _
        omega)
    have hdrop : (c >>> 8).toNat = topThree target.toNat / 256 := by
      rw [BitVec.toNat_ushiftRight, Nat.shiftRight_eq_div_pow, hlow]
    rw [if_pos ((signed_iff hc).mpr (hlow ▸ hhigh)), addU, he]
    refine ⟨_, rfl, ?_⟩
    rw [toNat_packed (by rw [hdrop]; omega), hdrop, heval, hbytes, hmantissa,
      hsize]
    rfl
  · obtain ⟨hsize, hmantissa⟩ := topThree_unsigned (Nat.not_le.mp hhigh)
    rw [if_neg fun h => hhigh (hlow ▸ (signed_iff hc).mp h)]
    refine ⟨_, rfl, ?_⟩
    rw [toNat_packed hc, hlow, hbytes, hmantissa, hsize]

end M1n3Protocol
