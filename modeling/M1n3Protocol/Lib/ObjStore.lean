/-
Stores of identified objects: partial maps from ids to values, with ids
handed out in order and never reused.

# The invariant in the type

`fresh` says that no id from `next` on is in use. It is a field, so an
allocation can never overwrite an object, and every operation below is
total and keeps it: `put` and `erase` at a missing id change nothing.

# The kinds of rule

- Pointwise rules. `get_alloc`, `get_put`, `get_erase` compute a lookup
  after an operation; `All` and `KeyInj` (every object has a property;
  no two objects share a key) come with one rule an operation.
- Lives. `life` says of an id whether its object is yet to come, live or
  gone; an id goes through the three in this order. Each operation
  `Turns` one id's life and leaves the others.
- Sums. `sum f` adds `f` over the live objects. Each operation changes
  a sum by the values it touches, stated without subtraction so that
  `omega` can use the equations directly.
-/
import Mathlib.Algebra.BigOperators.Group.Finset.Basic
import Mathlib.Algebra.BigOperators.Ring.Finset
import Mathlib.Algebra.Order.BigOperators.Group.Finset
import Mathlib.Data.Finset.Basic
import Mathlib.Tactic.Common

/-- Objects of type `α` under ids handed out in order. -/
structure ObjStore (α : Type _) where
  next : Nat
  get : Nat → Option α
  fresh : ∀ i, next ≤ i → get i = none

namespace ObjStore

variable {α β κ : Type _}

-- ========================================================== operations

/-- No objects. -/
def empty : ObjStore α where
  next := 0
  get _ := none
  fresh _ _ := rfl

/-- Store a new object under the next id. -/
def alloc (s : ObjStore α) (a : α) : ObjStore α where
  next := s.next + 1
  get j := if j = s.next then some a else s.get j
  fresh j hj := by
    rw [if_neg (by omega)]
    exact s.fresh j (by omega)

/-- Replace the object at `i`, if there is one. -/
def put (s : ObjStore α) (i : Nat) (a : α) : ObjStore α where
  next := s.next
  get j := if j = i then (s.get j).map (fun _ => a) else s.get j
  fresh j hj := by
    rw [s.fresh j hj]
    simp

/-- Remove the object at `i`. Its id stays used. -/
def erase (s : ObjStore α) (i : Nat) : ObjStore α where
  next := s.next
  get j := if j = i then none else s.get j
  fresh j hj := by
    rw [s.fresh j hj]
    simp

/-- The sum of `f` over the live objects. -/
def sum (s : ObjStore α) (f : α → Nat) : Nat :=
  ∑ i ∈ Finset.range s.next, (s.get i).elim 0 f

/-- Every live object has the property. -/
def All (s : ObjStore α) (P : α → Prop) : Prop :=
  ∀ i a, s.get i = some a → P a

/-- No two live objects share a key. -/
def KeyInj (s : ObjStore α) (key : α → κ) : Prop :=
  ∀ i j a b, s.get i = some a → s.get j = some b → key a = key b → i = j

-- ============================================================= lookups

theorem get_alloc (s : ObjStore α) (a : α) (j : Nat) :
    (s.alloc a).get j = if j = s.next then some a else s.get j := rfl

@[simp] theorem next_alloc (s : ObjStore α) (a : α) :
    (s.alloc a).next = s.next + 1 := rfl

theorem get_put (s : ObjStore α) (i : Nat) (a : α) (j : Nat) :
    (s.put i a).get j
      = if j = i then (s.get j).map (fun _ => a) else s.get j := rfl

@[simp] theorem next_put (s : ObjStore α) (i : Nat) (a : α) :
    (s.put i a).next = s.next := rfl

theorem get_erase (s : ObjStore α) (i j : Nat) :
    (s.erase i).get j = if j = i then none else s.get j := rfl

@[simp] theorem next_erase (s : ObjStore α) (i : Nat) :
    (s.erase i).next = s.next := rfl

/-- A live object's id has been handed out. -/
theorem lt_next {s : ObjStore α} {i : Nat} {a : α} (h : s.get i = some a) :
    i < s.next := by
  by_contra hn
  rw [s.fresh i (by omega)] at h
  cases h

@[simp] theorem get_next (s : ObjStore α) : s.get s.next = none :=
  s.fresh _ (Nat.le_refl _)

@[simp] theorem get_alloc_self (s : ObjStore α) (a : α) :
    (s.alloc a).get s.next = some a := by
  simp [get_alloc]

/-- An allocation leaves the live objects where they are. -/
theorem get_alloc_of_some {s : ObjStore α} {i : Nat} {b : α} (a : α)
    (h : s.get i = some b) : (s.alloc a).get i = some b := by
  have := lt_next h
  rw [get_alloc, if_neg (by omega), h]

theorem get_put_self {s : ObjStore α} {i : Nat} {b : α} (a : α)
    (h : s.get i = some b) : (s.put i a).get i = some a := by
  simp [get_put, h]

theorem get_put_ne {s : ObjStore α} {i j : Nat} (a : α) (h : j ≠ i) :
    (s.put i a).get j = s.get j := by
  simp [get_put, h]

theorem get_put_eq_none {s : ObjStore α} {i j : Nat} {a : α} :
    (s.put i a).get j = none ↔ s.get j = none := by
  rw [get_put]
  split
  case isTrue => exact Option.map_eq_none_iff
  case isFalse => exact Iff.rfl

/-- Putting an object back where it is changes nothing. -/
theorem put_self {s : ObjStore α} {i : Nat} {a : α} (h : s.get i = some a) :
    s.put i a = s := by
  have hget : (s.put i a).get = s.get := by
    funext j
    rw [get_put]
    split
    case isTrue hj => rw [hj, h]; rfl
    case isFalse => rfl
  cases s
  unfold put at hget ⊢
  simp only [mk.injEq, true_and]
  exact hget

@[simp] theorem get_erase_self (s : ObjStore α) (i : Nat) :
    (s.erase i).get i = none := by
  simp [get_erase]

theorem get_erase_ne {s : ObjStore α} {i j : Nat} (h : j ≠ i) :
    (s.erase i).get j = s.get j := by
  simp [get_erase, h]

-- An object of the store after an operation, traced to before it.

theorem get_alloc_eq_some {s : ObjStore α} {a b : α} {j : Nat}
    (h : (s.alloc a).get j = some b) :
    (j = s.next ∧ b = a) ∨ s.get j = some b := by
  rw [get_alloc] at h
  split at h
  case isTrue hj => exact .inl ⟨hj, (Option.some.inj h).symm⟩
  case isFalse => exact .inr h

theorem get_put_eq_some {s : ObjStore α} {i j : Nat} {a b : α}
    (h : (s.put i a).get j = some b) :
    (j = i ∧ b = a ∧ ∃ c, s.get i = some c)
      ∨ (j ≠ i ∧ s.get j = some b) := by
  rw [get_put] at h
  split at h
  case isTrue hj =>
    subst hj
    obtain ⟨c, hc, hb⟩ := Option.map_eq_some_iff.mp h
    exact .inl ⟨rfl, hb.symm, c, hc⟩
  case isFalse hj => exact .inr ⟨hj, h⟩

theorem get_erase_eq_some {s : ObjStore α} {i j : Nat} {b : α}
    (h : (s.erase i).get j = some b) : j ≠ i ∧ s.get j = some b := by
  rw [get_erase] at h
  split at h
  case isTrue => cases h
  case isFalse hj => exact ⟨hj, h⟩

-- ================================================================ lives

/-- Where an id is: not handed out, its object live, or its object gone. -/
inductive Life (α : Type _)
  | unborn
  | live (a : α)
  | gone

def Life.map (f : α → β) : Life α → Life β
  | .unborn => .unborn
  | .live a => .live (f a)
  | .gone => .gone

/-- The object, while it is live. -/
def Life.get? : Life α → Option α
  | .live a => some a
  | .unborn | .gone => none

def life (s : ObjStore α) (i : Nat) : Life α :=
  match s.get i with
  | some a => .live a
  | none => if s.next ≤ i then .unborn else .gone

theorem life_of_get {s : ObjStore α} {i : Nat} {a : α}
    (h : s.get i = some a) : s.life i = .live a := by
  unfold life
  rw [h]

theorem life_of_next_le {s : ObjStore α} {i : Nat} (h : s.next ≤ i) :
    s.life i = .unborn := by
  unfold life
  rw [s.fresh i h]
  exact if_pos h

@[simp] theorem get?_life (s : ObjStore α) (i : Nat) :
    (s.life i).get? = s.get i := by
  unfold life
  cases s.get i with
  | some a => rfl
  | none =>
      dsimp only
      split <;> rfl

theorem get?_map (f : α → β) (l : Life α) :
    (l.map f).get? = l.get?.map f := by
  cases l <;> rfl

theorem life_alloc_self (s : ObjStore α) (a : α) :
    (s.alloc a).life s.next = .live a :=
  life_of_get (get_alloc_self s a)

theorem life_alloc_ne {s : ObjStore α} {i : Nat} (a : α) (h : i ≠ s.next) :
    (s.alloc a).life i = s.life i := by
  have hle : s.next + 1 ≤ i ↔ s.next ≤ i := by omega
  unfold life
  rw [get_alloc, if_neg h, next_alloc]
  simp only [hle]

theorem life_put_self {s : ObjStore α} {i : Nat} {b : α} (a : α)
    (h : s.get i = some b) : (s.put i a).life i = .live a :=
  life_of_get (get_put_self a h)

theorem life_put_ne {s : ObjStore α} {i j : Nat} (a : α) (h : j ≠ i) :
    (s.put i a).life j = s.life j := by
  unfold life
  rw [get_put_ne a h, next_put]

theorem life_erase_self {s : ObjStore α} {i : Nat} {a : α}
    (h : s.get i = some a) : (s.erase i).life i = .gone := by
  have hlt := lt_next h
  unfold life
  rw [get_erase_self, next_erase]
  exact if_neg (by omega)

theorem life_erase_ne {s : ObjStore α} {i j : Nat} (h : j ≠ i) :
    (s.erase i).life j = s.life j := by
  unfold life
  rw [get_erase_ne h, next_erase]

/-- One id's life goes from `l` to `l'`, and no other changes. -/
structure Turns (s : ObjStore α) (i : Nat) (l l' : Life α)
    (s' : ObjStore α) : Prop where
  before : s.life i = l
  after : s'.life i = l'
  others : ∀ j, j ≠ i → s'.life j = s.life j

theorem turns_alloc (s : ObjStore α) (a : α) :
    s.Turns s.next .unborn (.live a) (s.alloc a) where
  before := life_of_next_le (Nat.le_refl _)
  after := life_alloc_self s a
  others _ hne := life_alloc_ne a hne

theorem turns_put {s : ObjStore α} {i : Nat} {b : α} (a : α)
    (h : s.get i = some b) : s.Turns i (.live b) (.live a) (s.put i a) where
  before := life_of_get h
  after := life_put_self a h
  others _ hne := life_put_ne a hne

theorem turns_erase {s : ObjStore α} {i : Nat} {b : α}
    (h : s.get i = some b) : s.Turns i (.live b) .gone (s.erase i) where
  before := life_of_get h
  after := life_erase_self h
  others _ hne := life_erase_ne hne

-- ======================================================== every object

theorem All.empty {P : α → Prop} : (empty : ObjStore α).All P := by
  intro i a h
  cases h

theorem All.alloc {s : ObjStore α} {P : α → Prop} {a : α} (h : s.All P)
    (ha : P a) : (s.alloc a).All P := by
  intro j b hj
  rcases get_alloc_eq_some hj with ⟨-, rfl⟩ | hj
  · exact ha
  · exact h j b hj

theorem All.put {s : ObjStore α} {P : α → Prop} {i : Nat} {a : α}
    (h : s.All P) (ha : P a) : (s.put i a).All P := by
  intro j b hj
  rcases get_put_eq_some hj with ⟨-, rfl, -⟩ | ⟨-, hj⟩
  · exact ha
  · exact h j b hj

theorem All.erase {s : ObjStore α} {P : α → Prop} {i : Nat} (h : s.All P) :
    (s.erase i).All P := by
  intro j b hj
  exact h j b (get_erase_eq_some hj).2

theorem All.imp {s : ObjStore α} {P Q : α → Prop} (h : s.All P)
    (hPQ : ∀ a, P a → Q a) : s.All Q :=
  fun i a ha => hPQ a (h i a ha)

theorem KeyInj.empty {key : α → κ} : (empty : ObjStore α).KeyInj key := by
  intro i j a b h
  cases h

/-- A new object under a key no live object has keeps keys distinct. -/
theorem KeyInj.alloc {s : ObjStore α} {key : α → κ} {a : α}
    (h : s.KeyInj key) (ha : s.All fun b => key b ≠ key a) :
    (s.alloc a).KeyInj key := by
  intro i j b c hi hj hk
  rcases get_alloc_eq_some hi with ⟨hin, rfl⟩ | hi'
  · rcases get_alloc_eq_some hj with ⟨hjn, -⟩ | hj'
    · rw [hin, hjn]
    · exact absurd hk.symm (ha j c hj')
  · rcases get_alloc_eq_some hj with ⟨-, rfl⟩ | hj'
    · exact absurd hk (ha i b hi')
    · exact h i j b c hi' hj' hk

/-- Beside a replaced object the store holds objects under other keys. -/
theorem KeyInj.get_put {s : ObjStore α} {key : α → κ} {i j : Nat}
    {a b c : α} (h : s.KeyInj key) (hc : s.get i = some c)
    (hj : (s.put i a).get j = some b) :
    (j = i ∧ b = a) ∨ (s.get j = some b ∧ key c ≠ key b) := by
  rcases get_put_eq_some hj with ⟨hj, hb, -⟩ | ⟨hne, hj⟩
  · exact .inl ⟨hj, hb⟩
  · exact .inr ⟨hj, fun hk => hne (h j i b c hj hc hk.symm)⟩

/-- Replacing an object by one of the same key keeps keys distinct. -/
theorem KeyInj.put {s : ObjStore α} {key : α → κ} {i : Nat} {a c : α}
    (h : s.KeyInj key) (hc : s.get i = some c) (ha : key a = key c) :
    (s.put i a).KeyInj key := by
  have back : ∀ j b, (s.put i a).get j = some b →
      ∃ b', s.get j = some b' ∧ key b' = key b := by
    intro j b hj
    rcases get_put_eq_some hj with ⟨rfl, rfl, -⟩ | ⟨-, hj⟩
    · exact ⟨c, hc, ha.symm⟩
    · exact ⟨b, hj, rfl⟩
  intro j k b d hj hk hkey
  obtain ⟨b', hb, hb'⟩ := back j b hj
  obtain ⟨d', hd, hd'⟩ := back k d hk
  exact h j k b' d' hb hd (by rw [hb', hd', hkey])

theorem KeyInj.erase {s : ObjStore α} {key : α → κ} {i : Nat}
    (h : s.KeyInj key) : (s.erase i).KeyInj key := by
  intro j k b d hj hk
  exact h j k b d (get_erase_eq_some hj).2 (get_erase_eq_some hk).2

-- ================================================================ sums

/-- An allocation adds the new object's value. -/
theorem sum_alloc (s : ObjStore α) (a : α) (f : α → Nat) :
    (s.alloc a).sum f = s.sum f + f a := by
  unfold sum
  rw [next_alloc, Finset.sum_range_succ, get_alloc_self]
  congr 1
  refine Finset.sum_congr rfl fun i hi => ?_
  have : i ≠ s.next := Nat.ne_of_lt (Finset.mem_range.mp hi)
  rw [get_alloc, if_neg this]

/-- The sum, split at one live object. -/
theorem sum_split {s : ObjStore α} {i : Nat} {a : α} (h : s.get i = some a)
    (f : α → Nat) :
    s.sum f = f a
      + ∑ j ∈ (Finset.range s.next).erase i, (s.get j).elim 0 f := by
  unfold sum
  rw [← Finset.add_sum_erase _ _ (Finset.mem_range.mpr (lt_next h)), h]
  rfl

/-- Replacing an object trades its value for the new one. -/
theorem sum_put {s : ObjStore α} {i : Nat} {b : α} (h : s.get i = some b)
    (a : α) (f : α → Nat) : (s.put i a).sum f + f b = s.sum f + f a := by
  have hrest : ∑ j ∈ (Finset.range s.next).erase i, ((s.put i a).get j).elim 0 f
      = ∑ j ∈ (Finset.range s.next).erase i, (s.get j).elim 0 f :=
    Finset.sum_congr rfl fun j hj => by
      rw [get_put_ne a (Finset.ne_of_mem_erase hj)]
  have hput := sum_split (get_put_self a h) f
  rw [next_put, hrest] at hput
  have := sum_split h f
  omega

/-- Removing an object removes its value. -/
theorem sum_erase {s : ObjStore α} {i : Nat} {b : α} (h : s.get i = some b)
    (f : α → Nat) : (s.erase i).sum f + f b = s.sum f := by
  have hrest : (s.erase i).sum f
      = ∑ j ∈ (Finset.range s.next).erase i, (s.get j).elim 0 f := by
    unfold sum
    rw [next_erase, ← Finset.add_sum_erase _ _
      (Finset.mem_range.mpr (lt_next h)), get_erase_self]
    simp only [Option.elim, Nat.zero_add]
    exact Finset.sum_congr rfl fun j hj => by
      rw [get_erase_ne (Finset.ne_of_mem_erase hj)]
  have := sum_split h f
  omega

theorem sum_congr {s : ObjStore α} {f g : α → Nat}
    (h : s.All fun a => f a = g a) : s.sum f = s.sum g := by
  refine Finset.sum_congr rfl fun i _ => ?_
  cases hi : s.get i with
  | none => rfl
  | some a => exact h i a hi

theorem sum_le_sum {s : ObjStore α} {f g : α → Nat}
    (h : s.All fun a => f a ≤ g a) : s.sum f ≤ s.sum g := by
  refine Finset.sum_le_sum fun i _ => ?_
  cases hi : s.get i with
  | none => exact Nat.le_refl _
  | some a => exact h i a hi

theorem sum_add (s : ObjStore α) (f g : α → Nat) :
    (s.sum fun a => f a + g a) = s.sum f + s.sum g := by
  unfold sum
  rw [← Finset.sum_add_distrib]
  refine Finset.sum_congr rfl fun i _ => ?_
  cases s.get i <;> rfl

/-- A constant factor comes out of a sum. -/
theorem sum_mul_left (s : ObjStore α) (c : Nat) (f : α → Nat) :
    (s.sum fun a => c * f a) = c * s.sum f := by
  unfold sum
  rw [Finset.mul_sum]
  refine Finset.sum_congr rfl fun i _ => ?_
  cases s.get i <;> rfl

/-- Sums over two stores can be taken in either order. -/
theorem sum_comm (s : ObjStore α) (t : ObjStore β) (f : α → β → Nat) :
    (s.sum fun a => t.sum fun b => f a b)
      = t.sum fun b => s.sum fun a => f a b := by
  have expand : ∀ i, ((s.get i).elim 0 fun a => t.sum fun b => f a b)
      = ∑ j ∈ Finset.range t.next,
          (s.get i).elim 0 fun a => (t.get j).elim 0 fun b => f a b := by
    intro i
    cases s.get i with
    | none => simp
    | some a => rfl
  have swap : ∀ j, ((t.get j).elim 0 fun b => s.sum fun a => f a b)
      = ∑ i ∈ Finset.range s.next,
          (s.get i).elim 0 fun a => (t.get j).elim 0 fun b => f a b := by
    intro j
    cases t.get j with
    | none =>
        refine (Finset.sum_eq_zero fun i _ => ?_).symm
        cases s.get i <;> rfl
    | some b => rfl
  show ∑ i ∈ Finset.range s.next, _ = ∑ j ∈ Finset.range t.next, _
  rw [Finset.sum_congr rfl fun i _ => expand i,
    Finset.sum_congr rfl fun j _ => swap j]
  exact Finset.sum_comm

theorem sum_eq_zero {s : ObjStore α} {f : α → Nat}
    (h : s.All fun a => f a = 0) : s.sum f = 0 := by
  refine Finset.sum_eq_zero fun i _ => ?_
  cases hi : s.get i with
  | none => rfl
  | some a => exact h i a hi

/-- A bound on every object bounds the sum by the ids handed out. -/
theorem sum_le_mul {s : ObjStore α} {f : α → Nat} {c : Nat}
    (h : s.All fun a => f a ≤ c) : s.sum f ≤ s.next * c := by
  have hconst : ∑ _i ∈ Finset.range s.next, c = s.next * c := by
    rw [Finset.sum_const_nat fun _ _ => rfl, Finset.card_range]
  rw [← hconst]
  refine Finset.sum_le_sum fun i _ => ?_
  cases hi : s.get i with
  | none => exact Nat.zero_le _
  | some a => exact h i a hi

/-- One live object's value is part of the sum. -/
theorem le_sum {s : ObjStore α} {i : Nat} {a : α} (h : s.get i = some a)
    (f : α → Nat) : f a ≤ s.sum f := by
  rw [sum_split h f]
  omega

end ObjStore
