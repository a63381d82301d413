/-
Intervals cut into pieces, and the grid the cuts may have to lie on.

# Tilings

A list of pieces, each with two edges, tiles an interval if the first
begins where it begins, each further one where the one before ends, and the
last ends where it ends. No piece is empty.

# Rounding

The nearest multiple of a step, upwards from the middle. `le_nearest_iff`
is all that is used of it: a multiple is at most the nearest one exactly
if it is at most half a step above.
-/
import Mathlib.Algebra.Order.Round
import Mathlib.Tactic.FieldSimp
import Mathlib.Tactic.Linarith
import Mathlib.Tactic.Positivity

namespace Grid

-- ================================================================= tilings

section Tilings

variable {ι α β : Type _}

def Tiles [LT α] (lo hi : ι → α) : α → List ι → α → Prop
  | a, [], b => a = b
  | a, x :: xs, b => lo x = a ∧ a < hi x ∧ Tiles lo hi (hi x) xs b

section Preorder

variable [Preorder α] {lo hi : ι → α} {a b : α} {xs : List ι}

theorem Tiles.le (h : Tiles lo hi a xs b) : a ≤ b := by
  induction xs generalizing a with
  | nil => exact le_of_eq h
  | cons x xs ih =>
    obtain ⟨_, hlt, hrest⟩ := h
    exact le_trans hlt.le (ih hrest)

theorem Tiles.lt (h : Tiles lo hi a xs b) (hne : xs ≠ []) : a < b := by
  cases xs with
  | nil => exact absurd rfl hne
  | cons x xs =>
    obtain ⟨_, hlt, hrest⟩ := h
    exact lt_of_lt_of_le hlt hrest.le

theorem Tiles.edges (h : Tiles lo hi a xs b) :
    ∀ x ∈ xs, a ≤ lo x ∧ lo x < hi x ∧ hi x ≤ b := by
  induction xs generalizing a with
  | nil => intro x hx; cases hx
  | cons x xs ih =>
    obtain ⟨hlo, hlt, hrest⟩ := h
    intro y hy
    rcases List.mem_cons.mp hy with rfl | hy
    · exact ⟨hlo.ge, hlo ▸ hlt, hrest.le⟩
    · obtain ⟨hfrom, hpiece, hto⟩ := ih hrest y hy
      exact ⟨le_trans hlt.le hfrom, hpiece, hto⟩

theorem Tiles.chain (h : Tiles lo hi a xs b) :
    xs.IsChain fun x y => hi x = lo y := by
  induction xs generalizing a with
  | nil => exact .nil
  | cons x xs ih =>
    obtain ⟨_, _, hrest⟩ := h
    cases xs with
    | nil => exact .singleton x
    | cons y ys => exact .cons_cons hrest.1.symm (ih hrest)

theorem Tiles.head (h : Tiles lo hi a xs b) : ∀ x ∈ xs.head?, lo x = a := by
  cases xs with
  | nil => intro x hx; cases hx
  | cons x xs =>
    rintro y hy
    cases Option.mem_some.mp hy
    exact h.1

theorem Tiles.getLast (h : Tiles lo hi a xs b) :
    ∀ x ∈ xs.getLast?, hi x = b := by
  induction xs generalizing a with
  | nil => intro x hx; cases hx
  | cons x xs ih =>
    obtain ⟨_, _, hrest⟩ := h
    cases xs with
    | nil =>
      rintro y hy
      cases Option.mem_some.mp hy
      exact hrest
    | cons y ys => exact ih hrest

theorem Tiles.exists_ends (h : Tiles lo hi a xs b) (hne : a ≠ b) :
    (∃ x ∈ xs, lo x = a) ∧ ∃ x ∈ xs, hi x = b := by
  cases xs with
  | nil => exact absurd h hne
  | cons x xs =>
    obtain ⟨last, hlast⟩ :=
      Option.ne_none_iff_exists'.mp (mt List.getLast?_eq_none_iff.mp
        (List.cons_ne_nil x xs))
    exact ⟨⟨x, List.mem_cons_self, h.1⟩,
      ⟨last, List.mem_of_getLast? hlast, h.getLast last hlast⟩⟩

theorem Tiles.outside {s : α} (h : Tiles lo hi a xs b) (hs : s < a ∨ b ≤ s) :
    ∀ x ∈ xs, ¬ (lo x ≤ s ∧ s < hi x) := by
  rintro x hx ⟨hlo, hhi⟩
  obtain ⟨hfrom, _, hto⟩ := h.edges x hx
  rcases hs with hs | hs
  · exact lt_irrefl s (lt_of_lt_of_le hs (le_trans hfrom hlo))
  · exact lt_irrefl s (lt_of_lt_of_le hhi (le_trans hto hs))

end Preorder

section LinearOrder

variable [LinearOrder α] {lo hi : ι → α} {a b : α} {xs : List ι}

theorem Tiles.foldl_min (h : Tiles lo hi a xs b) {c : α} (hc : c ≤ a) :
    xs.foldl (fun m x => min m (lo x)) c = c := by
  induction xs generalizing a with
  | nil => rfl
  | cons x xs ih =>
    obtain ⟨hlo, hlt, hrest⟩ := h
    rw [List.foldl_cons, min_eq_left (hlo ▸ hc)]
    exact ih hrest (le_trans hc hlt.le)

theorem Tiles.foldl_max (h : Tiles lo hi a xs b) {c : α} (hc : c ≤ a) :
    xs.foldl (fun m x => max m (hi x)) c = if xs = [] then c else b := by
  induction xs generalizing a c with
  | nil => rfl
  | cons x xs ih =>
    obtain ⟨_, hlt, hrest⟩ := h
    rw [List.foldl_cons, max_eq_right (le_trans hc hlt.le),
      if_neg (List.cons_ne_nil x xs), ih hrest le_rfl]
    split
    · rename_i hnil
      subst hnil
      exact hrest
    · rfl

end LinearOrder

/-- Edges read on another scale. -/
theorem Tiles.map [LT α] [LT β] {lo hi : ι → α} {a b : α} {xs : List ι}
    {f : α → β} (hf : ∀ {c d}, c < d → f c < f d) (h : Tiles lo hi a xs b) :
    Tiles (fun x => f (lo x)) (fun x => f (hi x)) (f a) xs (f b) := by
  induction xs generalizing a with
  | nil => exact congrArg f h
  | cons x xs ih =>
    obtain ⟨hlo, hlt, hrest⟩ := h
    exact ⟨congrArg f hlo, hf hlt, ih hrest⟩

/-- What telescopes over the pieces. -/
theorem Tiles.foldl_add [LT α] [AddCommGroup β] {lo hi : ι → α} {a b : α}
    {xs : List ι} (f : α → β) {w : ι → β}
    (hw : ∀ x ∈ xs, w x = f (hi x) - f (lo x)) (h : Tiles lo hi a xs b)
    (c : β) : xs.foldl (fun s x => s + w x) c = c + (f b - f a) := by
  induction xs generalizing a c with
  | nil =>
    have heq : a = b := h
    rw [List.foldl_nil, heq, sub_self, add_zero]
  | cons x xs ih =>
    obtain ⟨hlo, _, hrest⟩ := h
    rw [List.foldl_cons,
      ih (fun y hy => hw y (List.mem_cons_of_mem x hy)) hrest,
      hw x List.mem_cons_self, hlo]
    abel

end Tilings

-- ================================================================ rounding

section Rounding

variable {α : Type _} [Field α] [LinearOrder α] [FloorRing α]

def nearest (k : ℤ) (x : α) : ℤ := round (x / k) * k

variable {k m : ℤ} {x : α}

theorem dvd_nearest : k ∣ nearest k x := Int.dvd_mul_left _ k

variable [IsStrictOrderedRing α]

theorem le_round_iff : m ≤ round x ↔ (m : α) ≤ x + 1 / 2 := by
  rw [round_eq, Int.le_floor]

theorem le_nearest_iff (hk : 0 < k) (hm : k ∣ m) :
    m ≤ nearest k x ↔ (m : α) ≤ x + k / 2 := by
  obtain ⟨c, rfl⟩ := hm
  have hpos : (0 : α) < k := Int.cast_pos.mpr hk
  calc k * c ≤ nearest k x
      ↔ c ≤ round (x / k) := by
        rw [nearest, mul_comm k c, mul_le_mul_iff_of_pos_right hk]
    _ ↔ (c : α) ≤ x / k + 1 / 2 := le_round_iff
    _ ↔ (c : α) * k ≤ (x / k + 1 / 2) * k :=
        (mul_le_mul_iff_of_pos_right hpos).symm
    _ ↔ ((k * c : ℤ) : α) ≤ x + k / 2 := by
        rw [add_mul, div_mul_cancel₀ _ hpos.ne', Int.cast_mul,
          mul_comm (k : α) c, one_div_mul_eq_div]

/-- A grid of whole steps is coarser than the integers: what rounds to a
multiple is rounded to no less of the grid. -/
theorem round_le_nearest (hk : 0 < k) (hx : k ∣ round x) :
    round x ≤ nearest k x := by
  have hle : (round x : α) ≤ x + 1 / 2 := le_round_iff.mp le_rfl
  have hone : (1 : α) ≤ k := by exact_mod_cast hk
  rw [le_nearest_iff hk hx]
  linarith

theorem nearest_le_round (hle : (nearest k x : α) ≤ x) :
    nearest k x ≤ round x := by
  rw [le_round_iff]
  linarith

/-- Of the two roundings, the lower one is on the grid and not above what
is rounded only if the nearest multiple is not above it. -/
theorem min_round_nearest_iff (hk : 0 < k) :
    (k ∣ min (round x) (nearest k x) ∧
      ((min (round x) (nearest k x) : ℤ) : α) ≤ x) ↔
      (nearest k x : α) ≤ x := by
  constructor
  · rintro ⟨hdvd, hle⟩
    by_contra hup
    have hlt : round x < nearest k x := by
      by_contra hge
      rw [min_eq_right (not_lt.mp hge)] at hle
      exact hup hle
    rw [min_eq_left hlt.le] at hdvd hle
    -- the next multiple is within half a step of `x`, the next integer not
    have hnext : round x + k ≤ nearest k x := by
      obtain ⟨c, hc⟩ := Int.dvd_sub (dvd_nearest (x := x)) hdvd
      have hc1 : 0 < k * c := by omega
      have : 0 < c := pos_of_mul_pos_right hc1 hk.le
      nlinarith
    have hstep : ((round x + k : ℤ) : α) ≤ x + k / 2 :=
      (le_nearest_iff hk (Int.dvd_add hdvd (dvd_refl k))).mp hnext
    have hbeyond : ¬ ((round x + 1 : ℤ) : α) ≤ x + 1 / 2 := fun h =>
      absurd (le_round_iff.mpr h) (by omega)
    have hone : (1 : α) ≤ k := by exact_mod_cast hk
    push_cast at hstep hbeyond
    linarith
  · intro hle
    rw [min_eq_right (nearest_le_round hle)]
    exact ⟨dvd_nearest, hle⟩

/-- The highest of a rounding, a multiple and the nearest multiple is on
the grid only if the rounding is not above both others. -/
theorem dvd_max_round_nearest_iff (hk : 0 < k) (hm : k ∣ m) :
    k ∣ max (max (round x) m) (nearest k x) ↔
      round x ≤ m ∨ round x ≤ nearest k x := by
  constructor
  · intro hdvd
    by_contra hboth
    rw [not_or, not_le, not_le] at hboth
    rw [max_eq_left hboth.1.le, max_eq_left hboth.2.le] at hdvd
    exact absurd (round_le_nearest hk hdvd) (not_le.mpr hboth.2)
  · have hothers : k ∣ max m (nearest k x) := by
      rcases max_choice m (nearest k x) with h | h <;> rw [h]
      · exact hm
      · exact dvd_nearest
    intro h
    have hout : max (max (round x) m) (nearest k x)
        = max m (nearest k x) := by
      rw [max_assoc]
      exact max_eq_right (le_max_iff.mpr h)
    rw [hout]
    exact hothers

end Rounding

end Grid
