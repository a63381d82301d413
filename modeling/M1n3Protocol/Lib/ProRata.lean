/-
Pro-rata division with rounding down: what `w` of `W` parts of a total
`T` come to, and what the rounding loses over many parts.

# The budget

Each share is rounded down on its own, so shares over any collection of
parts that fits in `W` cost at most `T` (`sum_share_le`). Shares are
superadditive (`share_add_le`): splitting a part never gains, which is
what lets a payer keep the running bound `paid ≤ share (parts used)`
instead of a sum over everything paid so far.
-/
import Mathlib.Algebra.BigOperators.Ring.Finset
import M1n3Protocol.Lib.ObjStore

namespace ProRata

/-- `w` of `W` parts of `T`, rounded down. -/
def share (w T W : Nat) : Nat := w * T / W

@[simp] theorem share_zero (T W : Nat) : share 0 T W = 0 := by
  simp [share]

theorem share_mul_le (w T W : Nat) : share w T W * W ≤ w * T :=
  Nat.div_mul_le_self _ _

/-- All the parts come to the whole total. -/
theorem share_self (T : Nat) {W : Nat} (hW : 0 < W) : share W T W = T := by
  unfold share
  exact Nat.mul_div_cancel_left T hW

theorem share_mono {u w : Nat} (h : u ≤ w) (T W : Nat) :
    share u T W ≤ share w T W :=
  Nat.div_le_div_right (Nat.mul_le_mul_right _ h)

theorem share_le {w W : Nat} (h : w ≤ W) (T : Nat) : share w T W ≤ T := by
  rcases Nat.eq_zero_or_pos W with rfl | hW
  · simp [share]
  · exact (share_mono h T W).trans_eq (share_self T hW)

/-- Splitting a part in two never gains. -/
theorem share_add_le (u v T W : Nat) :
    share u T W + share v T W ≤ share (u + v) T W := by
  rcases Nat.eq_zero_or_pos W with rfl | hW
  · simp [share]
  · unfold share
    rw [Nat.le_div_iff_mul_le hW, Nat.add_mul, Nat.add_mul]
    exact Nat.add_le_add (share_mul_le u T W) (share_mul_le v T W)

/-- Shares of parts that together fit in `W` cost at most `T`. -/
theorem sum_share_le {α : Type _} (s : ObjStore α) (f : α → Nat) (T : Nat)
    {W : Nat} (h : s.sum f ≤ W) :
    (s.sum fun a => share (f a) T W) ≤ T := by
  rcases Nat.eq_zero_or_pos W with rfl | hW
  · simp [share, ObjStore.sum_eq_zero fun _ _ _ => rfl]
  · have hmul : (s.sum fun a => share (f a) T W) * W ≤ s.sum f * T := by
      unfold ObjStore.sum
      rw [Finset.sum_mul, Finset.sum_mul]
      refine Finset.sum_le_sum fun i _ => ?_
      cases s.get i with
      | none => simp
      | some a => exact share_mul_le (f a) T W
    have hle : s.sum f * T ≤ T * W := by
      rw [Nat.mul_comm T W]
      exact Nat.mul_le_mul_right T h
    exact Nat.le_of_mul_le_mul_right (hmul.trans hle) hW

end ProRata
