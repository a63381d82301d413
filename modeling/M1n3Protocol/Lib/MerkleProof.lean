/-
The path of any leaf of a Merkle tree, and what a path that climbs to the
root has to be.

# Openings

`opening` is the siblings on the way up of the leaf at an index: of an odd
node the one before it, of an even one the one after it, or itself where it
is an odd level's last. `climb_ascend` says that hashing a leaf with its
opening climbs to the root.

# Forged paths

A path comes from whoever wants it accepted. `ascend_inv` takes one that
climbs to a tree's root and is as long as the tree is high: it is the
opening of a leaf, and starts at that leaf, or one of the pairs it joins
differs from a pair of the tree and has its node. Both lists of pairs are
written out (`joined`, `couplesUpTo`), so the collision is shown and does
not merely exist.

The induction is on the levels left: the last join of the path is a couple
of the tree, so both of its halves are.
-/
import M1n3Protocol.Lib.Merkle
import Mathlib.Data.Nat.Log

namespace Merkle

variable {α β : Type _} (node : α → α → α)

-- ======================================================= one level of it

/-- The nodes that are hashed together, in order. -/
def couples : List α → List (α × α)
  | [] => []
  | [x] => [(x, x)]
  | x :: y :: rest => (x, y) :: couples rest

theorem level_eq_map (xs : List α) :
    level node xs = (couples xs).map fun c => node c.1 c.2 := by
  induction xs using couples.induct with
  | case1 => rfl
  | case2 x => rfl
  | case3 x y rest ih => rw [level, couples, List.map_cons, ih]

theorem length_level (xs : List α) :
    (level node xs).length = (xs.length + 1) / 2 := by
  induction xs using level.induct with
  | case1 => simp [level]
  | case2 x => simp [level]
  | case3 x y rest ih =>
      rw [level, List.length_cons, List.length_cons, List.length_cons, ih]
      omega

/-- A node and its sibling, in the order the node's index puts them. -/
def side (i : Nat) (x sibling : α) : α × α :=
  if i % 2 = 1 then (sibling, x) else (x, sibling)

/-- The node beside another: an odd last one has itself. -/
def siblingOf (xs : List α) (i : Nat) : Option α :=
  if i % 2 = 1 then xs[i - 1]? else xs[i + 1]?.or xs[i]?

theorem side_succ_succ (i : Nat) (x s : α) :
    side (i + 2) x s = side i x s := by
  rw [side, side, Nat.add_mod_right]

theorem siblingOf_succ_succ (x y : α) (rest : List α) (i : Nat) :
    siblingOf (x :: y :: rest) (i + 2) = siblingOf rest i := by
  rw [siblingOf, siblingOf, Nat.add_mod_right]
  by_cases hodd : i % 2 = 1
  · rw [if_pos hodd, if_pos hodd]
    obtain ⟨j, rfl⟩ : ∃ j, i = j + 1 := ⟨i - 1, by omega⟩
    rfl
  · rw [if_neg hodd, if_neg hodd]
    rfl

theorem mem_of_siblingOf {xs : List α} {i : Nat} {s : α}
    (hs : siblingOf xs i = some s) : s ∈ xs := by
  unfold siblingOf at hs
  split at hs
  · exact List.mem_of_getElem? hs
  · rcases Option.or_eq_some_iff.mp hs with hs | ⟨-, hs⟩
    · exact List.mem_of_getElem? hs
    · exact List.mem_of_getElem? hs

/-- Every node has a sibling, and the two are a couple. -/
theorem couples_of_getElem {xs : List α} {i : Nat} {x : α}
    (hx : xs[i]? = some x) : ∃ s, siblingOf xs i = some s
      ∧ (couples xs)[i / 2]? = some (side i x s) := by
  induction xs using couples.induct generalizing i with
  | case1 => cases hx
  | case2 y =>
      cases i with
      | zero => exact ⟨x, hx, by cases hx; rfl⟩
      | succ i => cases hx
  | case3 y z rest ih =>
      match i with
      | 0 => exact ⟨z, rfl, by cases hx; rfl⟩
      | 1 => exact ⟨y, rfl, by cases hx; rfl⟩
      | i + 2 =>
          obtain ⟨s, hs, hcouple⟩ := ih hx
          refine ⟨s, by rw [siblingOf_succ_succ, hs], ?_⟩
          rw [Nat.add_div_right i (by decide), side_succ_succ]
          exact hcouple

/-- A couple read from either side is a node and its sibling. Past the end
of an odd level it is the last node and itself. -/
theorem getElem_of_couples {xs : List α} {i : Nat} {x s : α}
    (hcouple : (couples xs)[i / 2]? = some (side i x s)) :
    ∃ p, xs[p]? = some x ∧ siblingOf xs p = some s ∧ p / 2 = i / 2
      ∧ (i < xs.length → p = i) := by
  induction xs using couples.induct generalizing i with
  | case1 => cases hcouple
  | case2 y =>
      match i with
      | 0 =>
          cases hcouple
          exact ⟨0, rfl, rfl, rfl, fun _ => rfl⟩
      | 1 =>
          cases hcouple
          exact ⟨0, rfl, rfl, rfl, fun h => absurd h (Nat.lt_irrefl 1)⟩
      | i + 2 =>
          rw [Nat.add_div_right i (by decide)] at hcouple
          cases hcouple
  | case3 y z rest ih =>
      match i with
      | 0 =>
          cases hcouple
          exact ⟨0, rfl, rfl, rfl, fun _ => rfl⟩
      | 1 =>
          cases hcouple
          exact ⟨1, rfl, rfl, rfl, fun _ => rfl⟩
      | i + 2 =>
          rw [Nat.add_div_right i (by decide), side_succ_succ] at hcouple
          obtain ⟨p, hx, hs, hhalf, hin⟩ := ih hcouple
          refine ⟨p + 2, hx, by rw [siblingOf_succ_succ, hs], ?_, ?_⟩
          · omega
          · intro hi
            rw [hin (Nat.lt_of_add_lt_add_right hi)]

theorem getElem_level {xs : List α} {p : Nat} {y : α}
    (hy : (level node xs)[p]? = some y) : ∃ c, (couples xs)[p]? = some c
      ∧ node c.1 c.2 = y := by
  rw [level_eq_map, List.getElem?_map, Option.map_eq_some_iff] at hy
  exact hy

-- ============================================================== openings

/-- The siblings of at most `n` levels, on the way up of the leaf at `i`. -/
def openingUpTo : Nat → List α → Nat → List α
  | 0, _, _ => []
  | n + 1, xs, i => if xs.length ≤ 1 then [] else
      (siblingOf xs i).toList ++ openingUpTo n (level node xs) (i / 2)

def opening (xs : List α) (i : Nat) : List α :=
  openingUpTo node xs.length xs i

/-- Hashing a node with the siblings of a path, up to where it ends. -/
def ascend : List α → Nat → α → α
  | [], _, x => x
  | s :: path, i, x => ascend path (i / 2) (node (side i x s).1 (side i x s).2)

/-- The pairs that are hashed on the way. -/
def joined : List α → Nat → α → List (α × α)
  | [], _, _ => []
  | s :: path, i, x => side i x s
      :: joined path (i / 2) (node (side i x s).1 (side i x s).2)

/-- The pairs that are hashed in at most `n` levels of a tree. -/
def couplesUpTo : Nat → List α → List (α × α)
  | 0, _ => []
  | n + 1, xs => if xs.length ≤ 1 then [] else
      couples xs ++ couplesUpTo n (level node xs)

def allCouples (xs : List α) : List (α × α) :=
  couplesUpTo node xs.length xs

/-- A pair of the path and one of the tree differ and have one node. -/
def Forged (path : List α) (i : Nat) (x : α) (pairs : List (α × α)) : Prop :=
  ∃ p ∈ joined node path i x, ∃ q ∈ pairs,
    p ≠ q ∧ node p.1 p.2 = node q.1 q.2

variable {node}

theorem climb_of_two_le {n : Nat} {xs : List α} (hxs : 2 ≤ xs.length) :
    climb node (n + 1) xs = climb node n (level node xs) := by
  match xs, hxs with
  | _ :: _ :: _, _ => rfl

theorem climb_zero_of_two_le {xs : List α} (hxs : 2 ≤ xs.length) :
    climb node 0 xs = none := by
  match xs, hxs with
  | _ :: _ :: _, _ => rfl

theorem clog_length {xs : List α} (hxs : 2 ≤ xs.length) :
    Nat.clog 2 xs.length = Nat.clog 2 (level node xs).length + 1 := by
  rw [Nat.clog_of_two_le (by decide) hxs, length_level]
  rfl

/-- A leaf climbs to the root along its opening, which is as long as the
tree is high. -/
theorem climb_openingUpTo {n : Nat} {xs : List α} {i : Nat} {x : α}
    (hn : xs.length ≤ n + 1) (hx : xs[i]? = some x) :
    climb node n xs = some (ascend node (openingUpTo node n xs i) i x)
      ∧ (openingUpTo node n xs i).length = Nat.clog 2 xs.length := by
  have hi : i < xs.length := (List.getElem?_eq_some_iff.mp hx).1
  induction n generalizing xs i x with
  | zero =>
      obtain ⟨y, rfl⟩ := List.length_eq_one_iff.mp
        (show xs.length = 1 by omega)
      obtain rfl : i = 0 := Nat.lt_one_iff.mp hi
      cases hx
      exact ⟨rfl, by rw [openingUpTo, List.length_singleton,
        Nat.clog_one_right, List.length_nil]⟩
  | succ n ih =>
      by_cases hone : xs.length ≤ 1
      · obtain ⟨y, rfl⟩ := List.length_eq_one_iff.mp
          (show xs.length = 1 by omega)
        obtain rfl : i = 0 := Nat.lt_one_iff.mp hi
        cases hx
        exact ⟨rfl, by rw [openingUpTo, if_pos hone, List.length_singleton,
          Nat.clog_one_right, List.length_nil]⟩
      · have htwo : 2 ≤ xs.length := by omega
        obtain ⟨s, hs, hcouple⟩ := couples_of_getElem hx
        have hup : (level node xs)[i / 2]?
            = some (node (side i x s).1 (side i x s).2) := by
          rw [level_eq_map, List.getElem?_map, hcouple, Option.map_some]
        have hlevel : (level node xs).length ≤ n + 1 := by
          rw [length_level]
          omega
        have hi' : i / 2 < (level node xs).length := by
          rw [length_level]
          omega
        obtain ⟨hclimb, hlen⟩ := ih hlevel hup hi'
        have hopen : openingUpTo node (n + 1) xs i
            = s :: openingUpTo node n (level node xs) (i / 2) := by
          rw [openingUpTo, if_neg hone, hs]
          rfl
        rw [climb_of_two_le htwo, hclimb, hopen, List.length_cons, hlen,
          clog_length htwo]
        exact ⟨rfl, rfl⟩

theorem root_eq_ascend {xs : List α} {i : Nat} {x : α}
    (hx : xs[i]? = some x) :
    root node xs = some (ascend node (opening node xs i) i x) :=
  (climb_openingUpTo (Nat.le_succ _) hx).1

theorem length_opening {xs : List α} {i : Nat} (hi : i < xs.length) :
    (opening node xs i).length = Nat.clog 2 xs.length :=
  (climb_openingUpTo (Nat.le_succ _) (List.getElem?_eq_getElem hi)).2

/-- What holds of the leaves and of every node holds of the siblings. -/
theorem opening_all {P : α → Prop} (hnode : ∀ x y, P (node x y))
    {xs : List α} (hxs : ∀ x ∈ xs, P x) (i : Nat) :
    ∀ s ∈ opening node xs i, P s := by
  have hupTo : ∀ n (ys : List α) j, (∀ y ∈ ys, P y) →
      ∀ s ∈ openingUpTo node n ys j, P s := by
    intro n
    induction n with
    | zero =>
        intro ys j _ s hs
        cases hs
    | succ n ih =>
        intro ys j hys s hs
        rw [openingUpTo] at hs
        split at hs
        · cases hs
        · rcases List.mem_append.mp hs with hs | hs
          · exact hys s (mem_of_siblingOf (Option.mem_toList.mp hs))
          · refine ih _ _ ?_ s hs
            intro y hy
            rw [level_eq_map] at hy
            obtain ⟨c, -, rfl⟩ := List.mem_map.mp hy
            exact hnode c.1 c.2
  exact hupTo xs.length xs i hxs

-- =========================================================== forged paths

/-- A path to the root that is as long as the tree is high is a leaf's
opening, of the leaf it starts at, or shows a collision. Within the tree
that leaf is the one at the path's index. -/
theorem climb_inv {n : Nat} {xs path : List α} {i : Nat} {x : α}
    (hlen : path.length = Nat.clog 2 xs.length)
    (hclimb : climb node n xs = some (ascend node path i x)) :
    (∃ p, xs[p]? = some x ∧ path = openingUpTo node n xs p
      ∧ (i < xs.length → p = i))
    ∨ Forged node path i x (couplesUpTo node n xs) := by
  induction n generalizing xs path i x with
  | zero =>
      match xs, hclimb with
      | [y], hclimb =>
          rw [List.length_singleton, Nat.clog_one_right] at hlen
          obtain rfl := List.length_eq_zero_iff.mp hlen
          cases hclimb
          exact Or.inl ⟨0, rfl, rfl, fun h => (Nat.lt_one_iff.mp h).symm⟩
  | succ n ih =>
      by_cases htwo : 2 ≤ xs.length
      · rw [climb_of_two_le htwo] at hclimb
        have hclog : Nat.clog 2 xs.length
            = Nat.clog 2 (level node xs).length + 1 := clog_length htwo
        rw [hclog] at hlen
        have hone : ¬ xs.length ≤ 1 := by omega
        obtain ⟨s, path, rfl⟩ : ∃ s path', path = s :: path' :=
          List.exists_cons_of_length_eq_add_one hlen
        rcases ih (Nat.succ.inj hlen) hclimb with
          ⟨p, hp, hrest, hin⟩ | ⟨c, hc, d, hd, hne, heq⟩
        · obtain ⟨c, hc, hnode⟩ := getElem_level node hp
          by_cases hsame : side i x s = c
          · -- the join is a couple of this level: read it from its side
            subst hsame
            have hdiv : (2 * p + i % 2) / 2 = p := by omega
            have hside : side (2 * p + i % 2) x s = side i x s := by
              rw [side, side]
              have hmod : (2 * p + i % 2) % 2 = i % 2 := by omega
              rw [hmod]
            rw [← hdiv, ← hside] at hc
            obtain ⟨q, hq, hs, hhalf, hq'⟩ := getElem_of_couples hc
            refine Or.inl ⟨q, hq, ?_, ?_⟩
            · rw [openingUpTo, if_neg hone, hs, hhalf, hdiv, ← hrest]
              rfl
            · intro hi
              have hlt : i / 2 < (level node xs).length := by
                rw [length_level]
                omega
              have hpi := hin hlt
              have hqi : 2 * p + i % 2 = i := by omega
              rw [hqi] at hq'
              exact hq' hi
          · refine Or.inr ⟨side i x s, List.mem_cons_self, c, ?_, hsame,
              hnode.symm⟩
            rw [couplesUpTo, if_neg hone]
            exact List.mem_append_left _ (List.mem_of_getElem? hc)
        · refine Or.inr ⟨c, List.mem_cons_of_mem _ hc, d, ?_, hne, heq⟩
          rw [couplesUpTo, if_neg hone]
          exact List.mem_append_right _ hd
      · match xs, hclimb with
        | [y], hclimb =>
            rw [List.length_singleton, Nat.clog_one_right] at hlen
            obtain rfl := List.length_eq_zero_iff.mp hlen
            cases hclimb
            exact Or.inl ⟨0, rfl, rfl, fun h => (Nat.lt_one_iff.mp h).symm⟩
        | _ :: _ :: rest, _ => exact absurd (Nat.le_add_left 2 _) htwo

theorem root_inv {xs path : List α} {i : Nat} {x : α}
    (hlen : path.length = Nat.clog 2 xs.length)
    (hroot : root node xs = some (ascend node path i x)) :
    (∃ p, xs[p]? = some x ∧ path = opening node xs p
      ∧ (i < xs.length → p = i))
    ∨ Forged node path i x (allCouples node xs) :=
  climb_inv hlen hroot

-- ======================================================= a tree's image

section Image

variable {f : α → β} {up : β → β → β}

theorem map_level (hf : ∀ a b, f (node a b) = up (f a) (f b))
    (xs : List α) : (level node xs).map f = level up (xs.map f) := by
  induction xs using level.induct with
  | case1 => rfl
  | case2 x => rw [level, List.map_singleton, hf]; rfl
  | case3 x y rest ih => rw [level, List.map_cons, hf, ih]; rfl

theorem map_siblingOf (xs : List α) (i : Nat) :
    (siblingOf xs i).map f = siblingOf (xs.map f) i := by
  unfold siblingOf
  split
  · rw [List.getElem?_map]
  · rw [List.getElem?_map, List.getElem?_map]
    cases xs[i + 1]? <;> rfl

/-- The opening in the tree of the images is the image of the opening. -/
theorem map_opening (hf : ∀ a b, f (node a b) = up (f a) (f b))
    (xs : List α) (i : Nat) :
    (opening node xs i).map f = opening up (xs.map f) i := by
  have hupTo : ∀ n (ys : List α) j, (openingUpTo node n ys j).map f
      = openingUpTo up n (ys.map f) j := by
    intro n
    induction n with
    | zero => intro ys j; rfl
    | succ n ih =>
        intro ys j
        rw [openingUpTo, openingUpTo, List.length_map]
        split
        · rfl
        · rw [List.map_append, ih, map_level hf, ← map_siblingOf]
          cases siblingOf ys j <;> rfl
  rw [opening, opening, List.length_map, hupTo]

end Image

end Merkle
