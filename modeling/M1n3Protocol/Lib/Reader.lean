/-
Readers of byte strings: what a format takes off the front, where it need
not have one encoding only.

# One law

A reader takes a value off the front of a byte string and looks at nothing
behind the bytes it uses (`exact`). So what is read once is read again
wherever those bytes begin a string, and of two lists read off one string
the shorter begins the longer (`many_prefix`). A `Codec` is a reader whose
values have one encoding each.
-/
import M1n3Protocol.Lib.Codec

structure Reader (α : Type) where
  read : Bytes → Option (α × Bytes)
  exact : ∀ {bs rest : Bytes} {x : α}, read bs = some (x, rest) →
    ∃ used, bs = used ++ rest ∧ ∀ rest', read (used ++ rest') = some (x, rest')

def Codec.reader {α : Type} (c : Codec α) : Reader α where
  read := c.read
  exact := by
    intro bs rest x h
    obtain ⟨hx, hbs⟩ := c.read_eq_some.mp h
    exact ⟨c.write x, hbs, c.read_write hx⟩

namespace Reader

variable {α β : Type}

/-- A whole string as one value. -/
def parse (r : Reader α) (bs : Bytes) : Option α :=
  match r.read bs with
  | some (x, []) => some x
  | _ => none

theorem parse_eq_some {r : Reader α} {bs : Bytes} {x : α} :
    r.parse bs = some x ↔ r.read bs = some (x, []) := by
  unfold parse
  constructor
  · intro h
    split at h
    case h_1 y heq =>
        cases h
        exact heq
    case h_2 => cases h
  · intro h
    rw [h]

-- ============================================================= combinators

def pure (a : α) : Reader α where
  read bs := some (a, bs)
  exact := by
    intro bs rest x h
    cases h
    exact ⟨[], rfl, fun _ => rfl⟩

def fail : Reader α where
  read _ := none
  exact := by
    intro bs rest x h
    cases h

/-- `n` bytes as they are. -/
def bytes (n : Nat) : Reader Bytes := (Codec.fixed n).reader

/-- A little-endian number of `n` bytes. -/
def number (n : Nat) : Reader Nat := (Codec.number n).reader

/-- One reader, then another chosen by what was read. -/
def bind (r : Reader α) (f : α → Reader β) : Reader β where
  read bs := (r.read bs).bind fun p => (f p.1).read p.2
  exact := by
    intro bs rest y h
    obtain ⟨⟨x, mid⟩, hx, hy⟩ := Option.bind_eq_some_iff.mp h
    obtain ⟨first, rfl, hfirst⟩ := r.exact hx
    obtain ⟨second, rfl, hsecond⟩ := (f x).exact hy
    refine ⟨first ++ second, (List.append_assoc ..).symm, fun rest' => ?_⟩
    rw [List.append_assoc, hfirst]
    exact hsecond rest'

/-- A reader with some of its values refused. -/
def guard (r : Reader α) (p : α → Prop) [DecidablePred p] : Reader α :=
  r.bind fun x => if p x then pure x else fail

/-- `n` values one after the other. -/
def many (r : Reader α) : Nat → Reader (List α)
  | 0 => pure []
  | n + 1 => r.bind fun x => (many r n).bind fun xs => pure (x :: xs)

-- ===================================================== what they have read

theorem pure_eq_some {a x : α} {bs rest : Bytes} :
    (pure a).read bs = some (x, rest) ↔ x = a ∧ rest = bs := by
  show some (a, bs) = some (x, rest) ↔ _
  rw [Option.some.injEq, Prod.mk.injEq]
  exact and_congr eq_comm eq_comm

theorem bytes_eq_some {n : Nat} {bs rest x : Bytes} :
    (bytes n).read bs = some (x, rest) ↔ x.length = n ∧ bs = x ++ rest :=
  (Codec.fixed n).read_eq_some

theorem number_eq_some {n v : Nat} {bs rest : Bytes} :
    (number n).read bs = some (v, rest)
      ↔ v < 256 ^ n ∧ bs = leBytes n v ++ rest := by
  show (Codec.number n).read bs = _ ↔ _
  rw [Codec.read_eq_some, Codec.number_valid]
  rfl

theorem bind_eq_some {r : Reader α} {f : α → Reader β} {y : β}
    {bs rest : Bytes} :
    (r.bind f).read bs = some (y, rest)
      ↔ ∃ x mid, r.read bs = some (x, mid)
        ∧ (f x).read mid = some (y, rest) := by
  show (r.read bs).bind _ = _ ↔ _
  rw [Option.bind_eq_some_iff]
  exact Prod.exists

theorem guard_eq_some {r : Reader α} {p : α → Prop} [DecidablePred p] {x : α}
    {bs rest : Bytes} :
    (r.guard p).read bs = some (x, rest) ↔ r.read bs = some (x, rest) ∧ p x
    := by
  unfold guard
  rw [bind_eq_some]
  constructor
  · rintro ⟨y, mid, hread, hy⟩
    split at hy
    case isTrue hp =>
        obtain ⟨rfl, rfl⟩ := pure_eq_some.mp hy
        exact ⟨hread, hp⟩
    case isFalse => cases hy
  · rintro ⟨hread, hp⟩
    refine ⟨x, rest, hread, ?_⟩
    rw [if_pos hp]
    rfl

theorem many_succ_eq_some {r : Reader α} {n : Nat} {xs : List α}
    {bs rest : Bytes} :
    (r.many (n + 1)).read bs = some (xs, rest)
      ↔ ∃ x mid ys, r.read bs = some (x, mid)
        ∧ (r.many n).read mid = some (ys, rest) ∧ xs = x :: ys := by
  rw [many, bind_eq_some]
  constructor
  · rintro ⟨x, mid, hx, hrest⟩
    obtain ⟨ys, mid', hys, hcons⟩ := bind_eq_some.mp hrest
    obtain ⟨rfl, rfl⟩ := pure_eq_some.mp hcons
    exact ⟨x, mid, ys, hx, hys, rfl⟩
  · rintro ⟨x, mid, ys, hx, hys, rfl⟩
    exact ⟨x, mid, hx, bind_eq_some.mpr ⟨ys, rest, hys, rfl⟩⟩

theorem many_length {r : Reader α} {n : Nat} {xs : List α} {bs rest : Bytes}
    (h : (r.many n).read bs = some (xs, rest)) : xs.length = n := by
  induction n generalizing xs bs with
  | zero =>
      obtain ⟨rfl, -⟩ := pure_eq_some.mp h
      rfl
  | succ n ih =>
      obtain ⟨x, mid, ys, -, hys, rfl⟩ := many_succ_eq_some.mp h
      rw [List.length_cons, ih hys]

/-- Of two lists read off one string the shorter begins the longer. -/
theorem many_prefix {r : Reader α} {n m : Nat} {xs ys : List α}
    {bs rest rest' : Bytes} (hle : n ≤ m)
    (hxs : (r.many n).read bs = some (xs, rest))
    (hys : (r.many m).read bs = some (ys, rest')) : xs <+: ys := by
  induction n generalizing m xs ys bs with
  | zero =>
      obtain ⟨rfl, -⟩ := pure_eq_some.mp hxs
      exact List.nil_prefix
  | succ n ih =>
      cases m with
      | zero => cases hle
      | succ m =>
          obtain ⟨x, mid, xs', hx, hxs', rfl⟩ := many_succ_eq_some.mp hxs
          obtain ⟨y, mid', ys', hy, hys', rfl⟩ := many_succ_eq_some.mp hys
          rw [hx] at hy
          cases hy
          exact List.cons_prefix_cons.mpr
            ⟨rfl, ih (Nat.le_of_succ_le_succ hle) hxs' hys'⟩

end Reader
