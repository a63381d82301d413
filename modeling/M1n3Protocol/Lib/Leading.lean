/-
Numbers cut to their leading bytes.

# The cut

`cut u n` is `n` without what is below the unit `u`, the greatest multiple
of `u` up to `n`. Where the unit grows with the number, cutting is still
monotone as long as the bound between two units is a multiple of the
larger one (`cut_mono_across`).

# Quotients

Dividing by a cut number answers more than dividing by the number itself,
by one at most where the quotient is small against the digits kept
(`div_cut_le`).

# Signed bytes

`signedSize n` counts the bytes `n` takes with a bit left for a sign, and
`leading n` keeps the three highest of them.
-/
import Mathlib.Algebra.Ring.Nat
import Mathlib.Tactic.Common

namespace Leading

-- ================================================================= the cut

variable {u v n m a b : Nat}

def cut (u n : Nat) : Nat := n / u * u

theorem cut_le : cut u n ≤ n := Nat.div_mul_le_self n u

theorem lt_cut_add (hu : 0 < u) : n < cut u n + u := by
  have hdiv := Nat.div_add_mod' n u
  have hmod := Nat.mod_lt n hu
  unfold cut
  omega

theorem dvd_cut : u ∣ cut u n := Nat.dvd_mul_left u (n / u)

theorem le_cut (hdvd : u ∣ m) (h : m ≤ n) : m ≤ cut u n := by
  rw [← Nat.div_mul_cancel hdvd]
  exact Nat.mul_le_mul_right u (Nat.div_le_div_right h)

theorem cut_mono (h : m ≤ n) : cut u m ≤ cut u n :=
  Nat.mul_le_mul_right u (Nat.div_le_div_right h)

/-- Two units, with a multiple of the second between the numbers. -/
theorem cut_mono_across (hm : m ≤ b) (hdvd : v ∣ b) (hn : b ≤ n) :
    cut u m ≤ cut v n :=
  Nat.le_trans cut_le (Nat.le_trans hm (le_cut hdvd hn))

-- =============================================================== quotients

theorem div_le_div_cut (hpos : 0 < cut u n) : a / n ≤ a / cut u n :=
  Nat.div_le_div_left cut_le hpos

theorem div_cut_le (hu : 0 < u) (h : (a / n + 1) * u ≤ cut u n) :
    a / cut u n ≤ a / n + 1 := by
  have hcut : 0 < cut u n :=
    Nat.lt_of_lt_of_le (Nat.mul_pos (Nat.succ_pos _) hu) h
  have hn : 0 < n := Nat.lt_of_lt_of_le hcut cut_le
  apply Nat.le_of_lt_succ
  rw [Nat.div_lt_iff_lt_mul hcut]
  calc a < (a / n + 1) * n := Nat.lt_mul_of_div_lt (Nat.lt_succ_self _) hn
    _ ≤ (a / n + 1) * (cut u n + u) :=
        Nat.mul_le_mul_left _ (Nat.le_of_lt (lt_cut_add hu))
    _ = (a / n + 1) * cut u n + (a / n + 1) * u := Nat.mul_add ..
    _ ≤ (a / n + 1) * cut u n + cut u n := Nat.add_le_add_left h _
    _ = (a / n + 1).succ * cut u n := (Nat.succ_mul ..).symm

-- ============================================================ signed bytes

/-- The bytes of `n` with a bit to spare. -/
def signedSize (n : Nat) : Nat := (n.log2 + 1) / 8 + 1

/-- What the lowest of the three bytes kept counts. -/
def unit (n : Nat) : Nat := 256 ^ (signedSize n - 3)

/-- The three highest bytes. -/
def leading (n : Nat) : Nat := cut (unit n) n

theorem unit_pos : 0 < unit n := Nat.pow_pos (by decide)

theorem pow256 (k : Nat) : 256 ^ k = 2 ^ (8 * k) := by
  rw [Nat.pow_mul]

/-- No more bytes than the size, nor fewer. -/
theorem lt_of_signedSize : 2 * n < 256 ^ signedSize n := by
  have hlog : n < 2 ^ (n.log2 + 1) := Nat.lt_log2_self
  rw [pow256]
  calc 2 * n < 2 * 2 ^ (n.log2 + 1) := by omega
    _ = 2 ^ (n.log2 + 2) := by rw [Nat.pow_succ _ (n.log2 + 1), Nat.mul_comm]
    _ ≤ 2 ^ (8 * signedSize n) :=
        Nat.pow_le_pow_right (by decide) (by unfold signedSize; omega)

theorem le_of_signedSize (hn : n ≠ 0) :
    256 ^ (signedSize n - 1) ≤ 2 * n := by
  have hlog : 2 ^ n.log2 ≤ n := Nat.log2_self_le hn
  rw [pow256]
  calc 2 ^ (8 * (signedSize n - 1))
      ≤ 2 ^ (n.log2 + 1) :=
        Nat.pow_le_pow_right (by decide) (by unfold signedSize; omega)
    _ = 2 * 2 ^ n.log2 := by rw [Nat.pow_succ, Nat.mul_comm]
    _ ≤ 2 * n := Nat.mul_le_mul_left 2 hlog

theorem signedSize_mono (h : m ≤ n) : signedSize m ≤ signedSize n := by
  by_cases hm : m = 0
  · subst hm
    exact Nat.le_add_left 1 _
  · by_contra hlt
    have hpow : (256 : Nat) ^ signedSize n ≤ 256 ^ (signedSize m - 1) :=
      Nat.pow_le_pow_right (by decide) (by omega)
    have hlow := le_of_signedSize hm
    have hhigh := lt_of_signedSize (n := n)
    omega

/-- The least number of a size, which is a multiple of its unit. -/
def least (size : Nat) : Nat := 128 * 256 ^ (size - 2)

theorem two_mul_least {size : Nat} (h : 2 ≤ size) :
    2 * least size = 256 ^ (size - 1) := by
  unfold least
  rw [show size - 1 = size - 2 + 1 by omega, Nat.pow_succ]
  omega

theorem unit_dvd_least : unit n ∣ least (signedSize n) :=
  Nat.dvd_mul_left_of_dvd (Nat.pow_dvd_pow 256 (by omega)) 128

theorem least_le (hn : n ≠ 0) (h : 2 ≤ signedSize n) :
    least (signedSize n) ≤ n := by
  have hlow := le_of_signedSize hn
  rw [← two_mul_least h] at hlow
  omega

-- ======================================================= what cutting keeps

theorem leading_le : leading n ≤ n := cut_le

theorem lt_leading_add : n < leading n + unit n := lt_cut_add unit_pos

theorem leading_small (h : signedSize n ≤ 3) : leading n = n := by
  unfold leading cut unit
  rw [Nat.sub_eq_zero_of_le h, Nat.pow_zero, Nat.div_one, Nat.mul_one]

/-- The size stays. -/
theorem signedSize_leading : signedSize (leading n) = signedSize n := by
  by_cases hsmall : signedSize n ≤ 3
  · rw [leading_small hsmall]
  · have hn : n ≠ 0 := by
      rintro rfl
      exact hsmall (by decide)
    apply Nat.le_antisymm (signedSize_mono leading_le)
    by_contra hlt
    have hkept : least (signedSize n) ≤ leading n :=
      le_cut unit_dvd_least (least_le hn (by omega))
    have hlow := two_mul_least (show 2 ≤ signedSize n by omega)
    have hhigh := lt_of_signedSize (n := leading n)
    have hpow : (256 : Nat) ^ signedSize (leading n)
        ≤ 256 ^ (signedSize n - 1) :=
      Nat.pow_le_pow_right (by decide) (by omega)
    omega

theorem leading_div : leading n / unit n = n / unit n :=
  Nat.mul_div_cancel _ unit_pos

theorem leading_pos (hn : n ≠ 0) : 0 < leading n := by
  by_cases hsmall : signedSize n ≤ 3
  · rw [leading_small hsmall]
    exact Nat.pos_of_ne_zero hn
  · have hkept : least (signedSize n) ≤ leading n :=
      le_cut unit_dvd_least (least_le hn (by omega))
    have hpos : 0 < least (signedSize n) :=
      Nat.mul_pos (by decide) (Nat.pow_pos (by decide))
    omega

theorem leading_mono (h : m ≤ n) : leading m ≤ leading n := by
  rcases Nat.lt_or_eq_of_le (signedSize_mono h) with hlt | heq
  · have hn : n ≠ 0 := by
      rintro rfl
      rw [Nat.le_zero.mp h] at hlt
      exact Nat.lt_irrefl _ hlt
    have htwo : 2 ≤ signedSize n := by
      unfold signedSize at hlt ⊢
      omega
    -- between the two stands the least number of the larger size
    have hbelow : m ≤ least (signedSize n) := by
      have hhigh := lt_of_signedSize (n := m)
      have hpow : (256 : Nat) ^ signedSize m ≤ 256 ^ (signedSize n - 1) :=
        Nat.pow_le_pow_right (by decide) (by omega)
      have hleast := two_mul_least htwo
      omega
    exact cut_mono_across hbelow unit_dvd_least (least_le hn htwo)
  · unfold leading unit
    rw [heq]
    exact cut_mono h

-- ============================================================ the mantissa

/-- The bytes kept, filled up with zeros where there are fewer than
three. -/
def mantissa (n : Nat) : Nat := n * 256 ^ (3 - signedSize n) / unit n

theorem mantissa_small (h : signedSize n ≤ 3) :
    mantissa n = n * 256 ^ (3 - signedSize n) := by
  unfold mantissa unit
  rw [Nat.sub_eq_zero_of_le h, Nat.pow_zero, Nat.div_one]

theorem mantissa_large (h : 3 ≤ signedSize n) : mantissa n = n / unit n := by
  unfold mantissa
  rw [Nat.sub_eq_zero_of_le h, Nat.pow_zero, Nat.mul_one]

/-- The sign bit is free. -/
theorem two_mul_mantissa_lt : 2 * mantissa n < 256 ^ 3 := by
  have hhigh := lt_of_signedSize (n := n)
  by_cases hsmall : signedSize n ≤ 3
  · rw [mantissa_small hsmall, ← Nat.mul_assoc]
    calc 2 * n * 256 ^ (3 - signedSize n)
        < 256 ^ signedSize n * 256 ^ (3 - signedSize n) :=
          Nat.mul_lt_mul_of_pos_right hhigh (Nat.pow_pos (by decide))
      _ = 256 ^ 3 := by
          rw [← Nat.pow_add, show signedSize n + (3 - signedSize n) = 3
            by omega]
  · rw [mantissa_large (by omega)]
    have hsplit : 256 ^ signedSize n = 256 ^ 3 * unit n := by
      unfold unit
      rw [← Nat.pow_add, show 3 + (signedSize n - 3) = signedSize n by omega]
    rw [hsplit] at hhigh
    have hquot : 2 * n / unit n < 256 ^ 3 :=
      (Nat.div_lt_iff_lt_mul unit_pos).mpr hhigh
    exact Nat.lt_of_le_of_lt (Nat.mul_div_le_mul_div_assoc 2 n _) hquot

theorem mantissa_leading : mantissa (leading n) = mantissa n := by
  by_cases hsmall : signedSize n ≤ 3
  · rw [leading_small hsmall]
  · have hunit : unit (leading n) = unit n := by
      unfold unit
      rw [signedSize_leading]
    rw [mantissa_large (by rw [signedSize_leading]; omega),
      mantissa_large (by omega), hunit, leading_div]

end Leading
