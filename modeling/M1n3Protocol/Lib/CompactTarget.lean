/-
Bitcoin's compact format: the 256-bit target a block header's 32-bit
`nBits` field stands for.

The top byte counts the bytes of the target, the low 23 bits are its
leading ones, and bit 23 is a sign. An encoding that is negative or does
not fit in 256 bits stands for no target; it reads as 0 here.
-/
import Mathlib.Algebra.Ring.Nat
import Mathlib.Tactic.Common

namespace CompactTarget

/-- The declared size in bytes. -/
def size (bits : BitVec 32) : Nat := (bits >>> 24).toNat

/-- The leading bytes, cut where the size leaves room for fewer. -/
def word (bits : BitVec 32) : Nat :=
  let w := (bits &&& 0x007fffff).toNat
  if size bits ≤ 3 then w / 256 ^ (3 - size bits) else w

def negative (bits : BitVec 32) : Prop :=
  word bits ≠ 0 ∧ bits &&& 0x00800000 ≠ 0

def overflow (bits : BitVec 32) : Prop :=
  word bits ≠ 0 ∧ (34 < size bits ∨ (0xff < word bits ∧ 33 < size bits)
    ∨ (0xffff < word bits ∧ 32 < size bits))

instance (bits : BitVec 32) : Decidable (negative bits) :=
  inferInstanceAs (Decidable (_ ∧ _))

instance (bits : BitVec 32) : Decidable (overflow bits) :=
  inferInstanceAs (Decidable (_ ∧ _))

/-- The target, 0 for a negative or overflowing encoding. -/
def target (bits : BitVec 32) : Nat :=
  if negative bits ∨ overflow bits then 0
  else word bits * 256 ^ (size bits - 3)

theorem word_lt (bits : BitVec 32) : word bits < 256 ^ 3 := by
  have hw : (bits &&& 0x007fffff).toNat < 256 ^ 3 := by
    rw [BitVec.toNat_and]
    exact Nat.lt_of_le_of_lt Nat.and_le_right (by decide)
  unfold word
  split
  case isTrue => exact Nat.lt_of_le_of_lt (Nat.div_le_self _ _) hw
  case isFalse => exact hw

/-- A large target is its three leading bytes, shifted up. -/
theorem target_of_large {bits : BitVec 32} (h : 256 ^ 3 ≤ target bits) :
    ¬ negative bits ∧ ¬ overflow bits ∧ 3 < size bits
      ∧ word bits = (bits &&& 0x007fffff).toNat
      ∧ target bits = word bits * 256 ^ (size bits - 3) := by
  have hword := word_lt bits
  unfold target at h ⊢
  by_cases hbad : negative bits ∨ overflow bits
  · rw [if_pos hbad] at h
    exact absurd h (by decide)
  · rw [if_neg hbad] at h ⊢
    have hsize : 3 < size bits := by
      by_contra hle
      rw [show size bits - 3 = 0 by omega, Nat.pow_zero, Nat.mul_one] at h
      omega
    refine ⟨fun hn => hbad (.inl hn), fun ho => hbad (.inr ho), hsize, ?_, rfl⟩
    unfold word
    rw [if_neg (by omega)]

/-- Every target fits in 256 bits, with room above it. -/
theorem target_lt (bits : BitVec 32) : target bits + 1 < 2 ^ 256 := by
  by_cases h : 256 ^ 3 ≤ target bits
  · obtain ⟨-, hover, hsize, -, heq⟩ := target_of_large h
    have hword := word_lt bits
    have hpos : word bits ≠ 0 := by
      intro hz
      rw [heq, hz, Nat.zero_mul] at h
      exact absurd h (by decide)
    have hfit : size bits ≤ 34 ∧ (33 < size bits → word bits ≤ 0xff)
        ∧ (32 < size bits → word bits ≤ 0xffff) := by
      unfold overflow at hover
      refine ⟨?_, ?_, ?_⟩
      · by_contra hn
        exact hover ⟨hpos, .inl (by omega)⟩
      · intro hs
        by_contra hn
        exact hover ⟨hpos, .inr (.inl ⟨by omega, hs⟩)⟩
      · intro hs
        by_contra hn
        exact hover ⟨hpos, .inr (.inr ⟨by omega, hs⟩)⟩
    rw [heq]
    have hbound : ∀ {c e : Nat}, word bits ≤ c → size bits - 3 ≤ e →
        word bits * 256 ^ (size bits - 3) ≤ c * 256 ^ e := fun hc he =>
      Nat.mul_le_mul hc (Nat.pow_le_pow_right (by decide) he)
    have h34 : size bits = 34 ∨ size bits = 33 ∨ size bits ≤ 32 := by omega
    rcases h34 with hs | hs | hs
    · have := hbound (hfit.2.1 (by omega)) (Nat.le_of_eq (by omega) :
        size bits - 3 ≤ 31)
      exact Nat.lt_of_le_of_lt (Nat.succ_le_succ this) (by decide)
    · have := hbound (hfit.2.2 (by omega)) (Nat.le_of_eq (by omega) :
        size bits - 3 ≤ 30)
      exact Nat.lt_of_le_of_lt (Nat.succ_le_succ this) (by decide)
    · have hw : word bits ≤ 0x7fffff := by
        rw [(target_of_large h).2.2.2.1, BitVec.toNat_and]
        exact Nat.and_le_right
      have := hbound hw (by omega : size bits - 3 ≤ 29)
      exact Nat.lt_of_le_of_lt (Nat.succ_le_succ this) (by decide)
  · have : (256 : Nat) ^ 3 < 2 ^ 256 := by decide
    omega

end CompactTarget
