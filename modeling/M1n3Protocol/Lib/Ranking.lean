/-
A list ranked by a score, the highest first.

The sort is stable, so equals stay in order, and its head is what a scan
for the best would have kept: the first of the best (`head?_ranked`). The
rest of the ranking does not matter to who reads only its head.
-/
import Mathlib.Data.List.MinMax
import Mathlib.Order.Lattice

namespace Ranking

variable {α β : Type _} [LinearOrder β] (score : α → β)

/-- Sorted by score, the highest first. -/
def ranked (l : List α) : List α :=
  l.mergeSort fun a b => decide (score b ≤ score a)

theorem ranked_perm (l : List α) : (ranked score l).Perm l :=
  List.mergeSort_perm l _

theorem head?_ranked (l : List α) :
    (ranked score l).head? = l.argmax score := by
  have htrans : ∀ a b c : α, decide (score b ≤ score a) = true →
      decide (score c ≤ score b) = true →
      decide (score c ≤ score a) = true := by
    intro a b c hab hbc
    exact decide_eq_true
      ((of_decide_eq_true hbc).trans (of_decide_eq_true hab))
  have htotal : ∀ a b : α, (decide (score b ≤ score a)
      || decide (score a ≤ score b)) = true := by
    intro a b
    rw [Bool.or_eq_true, decide_eq_true_eq, decide_eq_true_eq]
    exact le_total _ _
  induction l with
  | nil => rw [ranked, List.mergeSort_nil, List.argmax_nil]; rfl
  | cons a l ih =>
      obtain ⟨before, after, hsort, htail, hbetter⟩ :=
        List.mergeSort_cons htrans htotal a l
      have hpairs := List.pairwise_mergeSort htrans htotal (a :: l)
      rw [hsort] at hpairs
      rw [ranked, htail] at ih
      rw [ranked, hsort, List.argmax_cons, ← ih]
      cases before with
      | cons b before =>
          have hlt : score a < score b := by
            have hnot := hbetter b List.mem_cons_self
            rw [Bool.not_eq_true', decide_eq_false_iff_not] at hnot
            exact not_le.mp hnot
          exact (if_pos hlt).symm
      | nil =>
          cases after with
          | nil => rfl
          | cons c after =>
              have hle : score c ≤ score a := by
                rw [List.nil_append, List.pairwise_cons] at hpairs
                exact of_decide_eq_true (hpairs.1 c List.mem_cons_self)
              exact (if_neg (not_lt.mpr hle)).symm

/-- The head of a ranking is a member no other member is above. -/
theorem head?_eq_some {l : List α} {a : α}
    (h : (ranked score l).head? = some a) :
    a ∈ l ∧ ∀ b ∈ l, score b ≤ score a := by
  rw [head?_ranked] at h
  exact ⟨List.argmax_mem h, fun b hb => List.le_of_mem_argmax hb h⟩

theorem head?_eq_none {l : List α} :
    (ranked score l).head? = none ↔ l = [] := by
  rw [head?_ranked, List.argmax_eq_none]

end Ranking
