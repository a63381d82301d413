/-
Aborting computations over fixed-width unsigned integers.

# The reading of an `Except` program

A program is a `do` block in `Except ε`. A success is taken apart with
the four `_eq_ok` lemmas: `bind_eq_ok` splits a block at its first
statement, `require_eq_ok` reads a guard, `fetch_eq_ok` a lookup, and
`pure_eq_ok` the returned value. A proof never unfolds the monad.

A failure is read the same way with the `_eq_error` lemmas: a block fails
with an abort of its first statement, or of the rest on its value.

# The arithmetic

Each operation fails where the exact result does not fit the width, so
the success lemmas are equations between naturals: `add_eq_ok` says the
result is the sum, with no side condition left to carry.
-/
import Mathlib.Algebra.Ring.Nat
import Mathlib.Tactic.Common

namespace Checked

variable {ε α β : Type _} {w : Nat}

-- ====================================================== aborting blocks

/-- Fail with `e` unless `c` holds. -/
def require (c : Prop) [Decidable c] (e : ε) : Except ε Unit :=
  if c then .ok () else .error e

/-- The value of a lookup, or fail with `e`. -/
def fetch (o : Option α) (e : ε) : Except ε α :=
  match o with
  | some a => .ok a
  | none => .error e

/-- A block succeeds iff its first statement does and the rest does on
its value. -/
theorem bind_eq_ok {x : Except ε α} {f : α → Except ε β} {b : β} :
    (x >>= f) = .ok b ↔ ∃ a, x = .ok a ∧ f a = .ok b := by
  cases x with
  | error e => simp [bind, Except.bind]
  | ok a => simp [bind, Except.bind]

/-- A block fails iff its first statement does or the rest does on its
value. -/
theorem bind_eq_error {x : Except ε α} {f : α → Except ε β} {e : ε} :
    (x >>= f) = .error e ↔ x = .error e ∨ ∃ a, x = .ok a ∧ f a = .error e := by
  cases x with
  | error e' => simp [bind, Except.bind]
  | ok a => simp [bind, Except.bind]

@[simp] theorem pure_ne_error {a : α} {e : ε} :
    (pure a : Except ε α) ≠ .error e :=
  fun h => by cases h

@[simp] theorem require_eq_error {c : Prop} [Decidable c] {e e' : ε} :
    require c e = .error e' ↔ ¬ c ∧ e = e' := by
  unfold require
  split <;> simp_all

theorem fetch_eq_error {o : Option α} {e e' : ε} :
    fetch o e = .error e' ↔ o = none ∧ e = e' := by
  cases o with
  | none => simp [fetch]
  | some b => simp [fetch]

@[simp] theorem pure_eq_ok {a b : α} :
    (pure a : Except ε α) = .ok b ↔ a = b := by
  simp [pure, Except.pure]

@[simp] theorem require_eq_ok {c : Prop} [Decidable c] {e : ε} {u : Unit} :
    require c e = .ok u ↔ c := by
  unfold require
  split <;> simp_all

@[simp] theorem fetch_eq_ok {o : Option α} {e : ε} {a : α} :
    fetch o e = .ok a ↔ o = some a := by
  cases o with
  | none => simp [fetch]
  | some b => simp [fetch]

theorem toOption_eq_some {x : Except ε α} {a : α} :
    x.toOption = some a ↔ x = .ok a := by
  cases x with
  | error e => simp [Except.toOption]
  | ok b => simp [Except.toOption]

/-- A guard that holds passes. -/
theorem require_of {c : Prop} [Decidable c] (h : c) (e : ε) :
    require c e = .ok () :=
  require_eq_ok.mpr h

-- ==================================================== checked arithmetic

/-- Addition that fails on overflow. -/
def add (e : ε) (a b : BitVec w) : Except ε (BitVec w) :=
  if a.toNat + b.toNat < 2 ^ w then .ok (a + b) else .error e

/-- Subtraction that fails on underflow. -/
def sub (e : ε) (a b : BitVec w) : Except ε (BitVec w) :=
  if b.toNat ≤ a.toNat then .ok (a - b) else .error e

/-- Multiplication that fails on overflow. -/
def mul (e : ε) (a b : BitVec w) : Except ε (BitVec w) :=
  if a.toNat * b.toNat < 2 ^ w then .ok (a * b) else .error e

/-- A cast to a width the value has to fit. -/
def cast (e : ε) (v : Nat) (a : BitVec w) : Except ε (BitVec v) :=
  if a.toNat < 2 ^ v then .ok (a.setWidth v) else .error e

theorem add_eq_ok {e : ε} {a b c : BitVec w} :
    add e a b = .ok c ↔ c.toNat = a.toNat + b.toNat := by
  unfold add
  constructor
  · intro h
    split at h
    case isFalse => cases h
    case isTrue hlt =>
      injection h with h
      rw [← h, BitVec.toNat_add, Nat.mod_eq_of_lt hlt]
  · intro h
    have hlt : a.toNat + b.toNat < 2 ^ w := h ▸ c.isLt
    rw [if_pos hlt]
    refine congrArg _ (BitVec.eq_of_toNat_eq ?_)
    rw [BitVec.toNat_add, Nat.mod_eq_of_lt hlt, h]

theorem sub_eq_ok {e : ε} {a b c : BitVec w} :
    sub e a b = .ok c ↔ c.toNat + b.toNat = a.toNat := by
  unfold sub
  constructor
  · intro h
    split at h
    case isFalse => cases h
    case isTrue hle =>
      injection h with h
      rw [← h, BitVec.toNat_sub_of_le hle]
      omega
  · intro h
    have hle : b.toNat ≤ a.toNat := by omega
    rw [if_pos hle]
    refine congrArg _ (BitVec.eq_of_toNat_eq ?_)
    rw [BitVec.toNat_sub_of_le hle]
    omega

theorem sub_eq_error {e e' : ε} {a b : BitVec w} (h : sub e a b = .error e') :
    e = e' := by
  unfold sub at h
  split at h
  case isTrue => cases h
  case isFalse => exact Except.error.inj h

theorem mul_eq_ok {e : ε} {a b c : BitVec w} :
    mul e a b = .ok c ↔ c.toNat = a.toNat * b.toNat := by
  unfold mul
  constructor
  · intro h
    split at h
    case isFalse => cases h
    case isTrue hlt =>
      injection h with h
      rw [← h, BitVec.toNat_mul, Nat.mod_eq_of_lt hlt]
  · intro h
    have hlt : a.toNat * b.toNat < 2 ^ w := h ▸ c.isLt
    rw [if_pos hlt]
    refine congrArg _ (BitVec.eq_of_toNat_eq ?_)
    rw [BitVec.toNat_mul, Nat.mod_eq_of_lt hlt, h]

theorem cast_eq_ok {e : ε} {v : Nat} {a : BitVec w} {c : BitVec v} :
    cast e v a = .ok c ↔ c.toNat = a.toNat := by
  unfold cast
  constructor
  · intro h
    split at h
    case isFalse => cases h
    case isTrue hlt =>
      injection h with h
      rw [← h, BitVec.toNat_setWidth, Nat.mod_eq_of_lt hlt]
  · intro h
    have hlt : a.toNat < 2 ^ v := h ▸ c.isLt
    rw [if_pos hlt]
    refine congrArg _ (BitVec.eq_of_toNat_eq ?_)
    rw [BitVec.toNat_setWidth, Nat.mod_eq_of_lt hlt, h]

/-- An addition whose exact sum fits succeeds. -/
theorem add_of_lt (e : ε) {a b : BitVec w} (h : a.toNat + b.toNat < 2 ^ w) :
    ∃ c, add e a b = .ok c ∧ c.toNat = a.toNat + b.toNat :=
  ⟨a + b, by unfold add; rw [if_pos h],
    by rw [BitVec.toNat_add, Nat.mod_eq_of_lt h]⟩

/-- A subtraction of something no larger succeeds. -/
theorem sub_of_le (e : ε) {a b : BitVec w} (h : b.toNat ≤ a.toNat) :
    ∃ c, sub e a b = .ok c ∧ c.toNat + b.toNat = a.toNat :=
  ⟨a - b, by unfold sub; rw [if_pos h],
    by rw [BitVec.toNat_sub_of_le h]; omega⟩

end Checked
