/-
Merkle roots of lists whose odd levels repeat their last element, and the
path of the first leaf.

# The root without its first leaf

`level` is one level of the tree from the one below, `root` repeats it
until one node is left. `branches` never looks at the first leaf: at each
level it keeps the first of the other nodes, which is the sibling on the
path, and pairs up what is left. `foldl_branches` says that hashing the
first leaf with the branches in order climbs to the root.

The induction is on how often a level is taken, for all lists of nodes:
the path of a level is that of the next behind one sibling.
-/
import Mathlib.Data.List.Basic
import Mathlib.Tactic.Common

namespace Merkle

variable {α : Type _} (node : α → α → α)

-- ================================================================ levels

/-- The level above: neighbours together, an odd last one with itself. -/
def level : List α → List α
  | [] => []
  | [x] => [node x x]
  | x :: y :: rest => node x y :: level rest

theorem length_level_le (xs : List α) :
    (level node xs).length ≤ xs.length := by
  induction xs using level.induct with
  | case1 => exact Nat.le_refl 0
  | case2 x => exact Nat.le_refl 1
  | case3 x y rest ih =>
      rw [level, List.length_cons, List.length_cons, List.length_cons]
      omega

/-- The last node after at most `n` more levels. -/
def climb : Nat → List α → Option α
  | _, [] => none
  | _, [x] => some x
  | 0, _ :: _ :: _ => none
  | n + 1, x :: y :: rest => climb n (level node (x :: y :: rest))

/-- The root, of a list that is not empty. -/
def root (xs : List α) : Option α := climb node xs.length xs

-- ============================================================== branches

/-- The siblings on the way up of a leaf before `xs`. -/
def path : Nat → List α → List α
  | 0, _ => []
  | _ + 1, [] => []
  | n + 1, y :: ys => y :: path n (level node ys)

def branches (xs : List α) : List α := path node xs.length xs

/-- What holds of the leaves and of every node holds of the siblings. -/
theorem path_all {P : α → Prop} (hnode : ∀ x y, P (node x y))
    (n : Nat) (xs : List α) (hxs : ∀ x ∈ xs, P x) :
    ∀ b ∈ path node n xs, P b := by
  have hlevel : ∀ ys : List α, ∀ b ∈ level node ys, P b := by
    intro ys
    induction ys using level.induct with
    | case1 =>
        intro b hb
        cases hb
    | case2 x =>
        intro b hb
        rw [List.mem_singleton.mp hb]
        exact hnode x x
    | case3 x y rest ih =>
        intro b hb
        rcases List.mem_cons.mp hb with rfl | hb
        · exact hnode x y
        · exact ih b hb
  induction n generalizing xs with
  | zero =>
      intro b hb
      cases hb
  | succ n ih =>
      cases xs with
      | nil =>
          intro b hb
          cases hb
      | cons y ys =>
          intro b hb
          rcases List.mem_cons.mp hb with rfl | hb
          · exact hxs b List.mem_cons_self
          · exact ih (level node ys) (hlevel ys) b hb

theorem branches_all {P : α → Prop} (hnode : ∀ x y, P (node x y))
    {xs : List α} (hxs : ∀ x ∈ xs, P x) : ∀ b ∈ branches node xs, P b :=
  path_all node hnode xs.length xs hxs

theorem climb_cons (x : α) (xs : List α) :
    ∀ n, xs.length ≤ n → climb node (n + 1) (x :: xs)
      = some ((path node n xs).foldl node x) := by
  intro n
  induction n generalizing x xs with
  | zero =>
      intro h
      rw [List.length_eq_zero_iff.mp (Nat.le_zero.mp h)]
      rfl
  | succ n ih =>
      intro h
      cases xs with
      | nil => rfl
      | cons y ys =>
          have hys : ys.length ≤ n := Nat.le_of_succ_le_succ h
          have hlevel := Nat.le_trans (length_level_le node ys) hys
          rw [climb, level, ih (node x y) (level node ys) hlevel, path,
            List.foldl_cons]

/-- Any leaf climbs to the root along its branches. -/
theorem foldl_branches (x : α) (xs : List α) :
    root node (x :: xs) = some ((branches node xs).foldl node x) :=
  climb_cons node x xs xs.length (Nat.le_refl _)

end Merkle
