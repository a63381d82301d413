/-
Wire formats: a reader and a writer of one grammar.

# One law

A format takes a value off the front of a byte string, writes it back,
and says which values have an encoding. `read_eq_some` ties the three:
a read succeeds exactly on the encoding of a valid value followed by the
unread rest. Unique decoding (`write_unique`) and the reading of a whole
string (`parse_eq_some`) follow from the law alone.

The combinators keep the law, so a composite format is right as soon as
it is written down. `andThen` is the one that matters: what follows may
depend on what was read, as the items of a list do on their count, and
`key` says where the written value holds what was read.
-/
import M1n3Protocol.Lib.Bytes

structure Codec (α : Type) where
  read : Bytes → Option (α × Bytes)
  write : α → Bytes
  valid : α → Prop
  read_eq_some : ∀ {bs rest : Bytes} {x : α},
    read bs = some (x, rest) ↔ valid x ∧ bs = write x ++ rest

namespace Codec

variable {α β : Type}

-- ================================================================= the law

theorem read_write (c : Codec α) {x : α} (hx : c.valid x) (rest : Bytes) :
    c.read (c.write x ++ rest) = some (x, rest) :=
  c.read_eq_some.mpr ⟨hx, rfl⟩

/-- Unique decoding: two valid values that begin one string are equal. -/
theorem write_unique {c : Codec α} {x y : α} {r s : Bytes} (hx : c.valid x)
    (hy : c.valid y) (h : c.write x ++ r = c.write y ++ s) :
    x = y ∧ r = s := by
  have hread := c.read_write hx r
  rw [h, c.read_write hy s] at hread
  injection hread with hpair
  injection hpair with hxy hrs
  exact ⟨hxy.symm, hrs.symm⟩

/-- A whole string as one value. -/
def parse (c : Codec α) (bs : Bytes) : Option α :=
  match c.read bs with
  | some (x, []) => some x
  | _ => none

theorem parse_eq_some {c : Codec α} {bs : Bytes} {x : α} :
    c.parse bs = some x ↔ c.valid x ∧ bs = c.write x := by
  have hread : c.read bs = some (x, []) ↔ c.valid x ∧ bs = c.write x ++ [] :=
    c.read_eq_some
  rw [List.append_nil] at hread
  rw [← hread, parse]
  constructor
  · intro h
    split at h
    case h_1 y heq =>
        cases h
        exact heq
    case h_2 => cases h
  · intro h
    rw [h]

-- ============================================================= combinators

/-- Nothing is written for a value already known. -/
def const (a : α) : Codec α where
  read bs := some (a, bs)
  write _ := []
  valid x := x = a
  read_eq_some := by
    intro bs rest x
    constructor
    · intro h
      cases h
      exact ⟨rfl, rfl⟩
    · rintro ⟨rfl, rfl⟩
      rfl

def fail : Codec α where
  read _ := none
  write _ := []
  valid _ := False
  read_eq_some := by
    intro bs rest x
    constructor
    · intro h
      cases h
    · intro h
      exact h.1.elim

/-- `n` bytes as they are. -/
def fixed (n : Nat) : Codec Bytes where
  read bs := if n ≤ bs.length then some (bs.take n, bs.drop n) else none
  write bs := bs
  valid bs := bs.length = n
  read_eq_some := by
    intro bs rest x
    constructor
    · intro h
      split at h
      case isTrue hle =>
          cases h
          exact ⟨by rw [List.length_take, Nat.min_eq_left hle],
            (List.take_append_drop n bs).symm⟩
      case isFalse => cases h
    · rintro ⟨hx, rfl⟩
      have hle : n ≤ (x ++ rest).length := by
        rw [List.length_append]
        omega
      rw [if_pos hle, ← hx, List.take_left, List.drop_left]

/-- The same bytes for another type; `back` undoes `forth`. -/
def map (c : Codec α) (forth : α → β) (back : β → α)
    (h : ∀ a, c.valid a → back (forth a) = a) : Codec β where
  read bs := (c.read bs).map fun p => (forth p.1, p.2)
  write b := c.write (back b)
  valid b := c.valid (back b) ∧ forth (back b) = b
  read_eq_some := by
    intro bs rest b
    constructor
    · intro hb
      obtain ⟨⟨a, r⟩, hread, hpair⟩ := Option.map_eq_some_iff.mp hb
      cases hpair
      obtain ⟨ha, hbs⟩ := c.read_eq_some.mp hread
      rw [h a ha]
      exact ⟨⟨ha, rfl⟩, hbs⟩
    · rintro ⟨⟨hvalid, hforth⟩, hbs⟩
      rw [c.read_eq_some.mpr ⟨hvalid, hbs⟩]
      show some (forth (back b), rest) = some (b, rest)
      rw [hforth]

/-- A format with some of its values refused. -/
def guard (c : Codec α) (p : α → Prop) [DecidablePred p] : Codec α where
  read bs := (c.read bs).filter fun x => p x.1
  write := c.write
  valid x := c.valid x ∧ p x
  read_eq_some := by
    intro bs rest x
    rw [Option.filter_eq_some_iff, c.read_eq_some, decide_eq_true_eq,
      and_right_comm]

/-- One format, then another chosen by what was read. -/
def andThen (c : Codec α) (f : α → Codec β) (key : β → α)
    (h : ∀ a b, (f a).valid b → key b = a) : Codec β where
  read bs := (c.read bs).bind fun p => (f p.1).read p.2
  write b := c.write (key b) ++ (f (key b)).write b
  valid b := c.valid (key b) ∧ (f (key b)).valid b
  read_eq_some := by
    intro bs rest b
    constructor
    · intro hb
      obtain ⟨⟨a, r⟩, hread, hrest⟩ := Option.bind_eq_some_iff.mp hb
      obtain ⟨ha, rfl⟩ := c.read_eq_some.mp hread
      obtain ⟨hvalid, hr⟩ := (f a).read_eq_some.mp hrest
      have hkey := h a b hvalid
      subst hkey
      rw [List.append_assoc, ← hr]
      exact ⟨⟨ha, hvalid⟩, rfl⟩
    · rintro ⟨⟨hkey, hvalid⟩, rfl⟩
      rw [List.append_assoc, c.read_write hkey]
      exact (f (key b)).read_write hvalid rest

def pair (c : Codec α) (d : Codec β) : Codec (α × β) where
  read bs := (c.read bs).bind fun p =>
    (d.read p.2).map fun q => ((p.1, q.1), q.2)
  write x := c.write x.1 ++ d.write x.2
  valid x := c.valid x.1 ∧ d.valid x.2
  read_eq_some := by
    intro bs rest x
    constructor
    · intro hx
      obtain ⟨⟨a, r⟩, hread, hrest⟩ := Option.bind_eq_some_iff.mp hx
      obtain ⟨⟨b, s⟩, hread', hpair⟩ := Option.map_eq_some_iff.mp hrest
      cases hpair
      obtain ⟨ha, rfl⟩ := c.read_eq_some.mp hread
      obtain ⟨hb, hr⟩ := d.read_eq_some.mp hread'
      dsimp only at hr ⊢
      rw [List.append_assoc, hr]
      exact ⟨⟨ha, hb⟩, rfl⟩
    · rintro ⟨⟨ha, hb⟩, rfl⟩
      rw [List.append_assoc, c.read_write ha]
      show (d.read (d.write x.2 ++ rest)).map _ = _
      rw [d.read_write hb]
      rfl

/-- A format after bytes that are always the same. -/
def tagged (tag : Bytes) (c : Codec α) : Codec α :=
  (fixed tag.length).andThen (fun bs => if bs = tag then c else .fail)
    (fun _ => tag) fun bs a h => by
      split at h
      case isTrue heq => exact heq.symm
      case isFalse => exact h.elim

@[simp] theorem fixed_write (n : Nat) (bs : Bytes) :
    (fixed n).write bs = bs := rfl

@[simp] theorem fixed_valid {n : Nat} {bs : Bytes} :
    (fixed n).valid bs ↔ bs.length = n := .rfl

@[simp] theorem tagged_valid {tag : Bytes} {c : Codec α} {x : α} :
    (tagged tag c).valid x ↔ c.valid x := by
  show tag.length = tag.length ∧ (if tag = tag then c else fail).valid x ↔ _
  rw [if_pos rfl]
  exact and_iff_right rfl

@[simp] theorem pair_write (c : Codec α) (d : Codec β) (x : α × β) :
    (c.pair d).write x = c.write x.1 ++ d.write x.2 := rfl

@[simp] theorem pair_valid {c : Codec α} {d : Codec β} {x : α × β} :
    (c.pair d).valid x ↔ c.valid x.1 ∧ d.valid x.2 := .rfl

-- =================================================================== lists

def readMany (c : Codec α) : Nat → Bytes → Option (List α × Bytes)
  | 0, bs => some ([], bs)
  | n + 1, bs => do
      let (x, r) ← c.read bs
      let (xs, rest) ← readMany c n r
      return (x :: xs, rest)

theorem readMany_eq_some {c : Codec α} {n : Nat} {bs rest : Bytes}
    {xs : List α} :
    c.readMany n bs = some (xs, rest)
      ↔ (xs.length = n ∧ ∀ x ∈ xs, c.valid x)
        ∧ bs = xs.flatMap c.write ++ rest := by
  induction n generalizing bs xs with
  | zero =>
      constructor
      · intro h
        cases h
        exact ⟨⟨rfl, fun x hx => by cases hx⟩, rfl⟩
      · rintro ⟨⟨hlen, -⟩, rfl⟩
        rw [List.length_eq_zero_iff.mp hlen]
        rfl
  | succ n ih =>
      constructor
      · intro h
        obtain ⟨⟨x, r⟩, hread, h⟩ := Option.bind_eq_some_iff.mp h
        obtain ⟨⟨ys, s⟩, hmany, h⟩ := Option.bind_eq_some_iff.mp h
        cases h
        obtain ⟨hx, rfl⟩ := c.read_eq_some.mp hread
        obtain ⟨⟨hlen, hys⟩, hr⟩ := ih.mp hmany
        refine ⟨⟨by rw [List.length_cons, hlen], ?_⟩, ?_⟩
        · rintro y (_ | ⟨_, hy⟩)
          · exact hx
          · exact hys y hy
        · rw [List.flatMap_cons, List.append_assoc, hr]
      · rintro ⟨⟨hlen, hxs⟩, rfl⟩
        obtain ⟨x, ys, rfl⟩ := List.exists_cons_of_length_eq_add_one hlen
        rw [List.flatMap_cons, List.append_assoc, readMany,
          c.read_write (hxs x List.mem_cons_self)]
        have hmany := ih.mpr ⟨⟨Nat.succ.inj hlen, fun y hy =>
          hxs y (List.mem_cons_of_mem _ hy)⟩, rfl⟩
        show (do
          let (zs, rest') ← c.readMany n (ys.flatMap c.write ++ rest)
          return (x :: zs, rest')) = some (x :: ys, rest)
        rw [hmany]
        rfl

/-- `n` values one after the other. -/
def many (c : Codec α) (n : Nat) : Codec (List α) where
  read := c.readMany n
  write xs := xs.flatMap c.write
  valid xs := xs.length = n ∧ ∀ x ∈ xs, c.valid x
  read_eq_some := readMany_eq_some

theorem many_length (c : Codec α) (n : Nat) (xs : List α)
    (h : (c.many n).valid xs) : xs.length = n := h.1

-- ================================================================= numbers

/-- A little-endian number of `n` bytes. -/
def number (n : Nat) : Codec Nat :=
  (fixed n).map leNat (leBytes n) fun bs hbs => by
    rw [← hbs]
    exact leBytes_leNat bs

theorem number_valid {n x : Nat} : (number n).valid x ↔ x < 256 ^ n := by
  constructor
  · rintro ⟨-, hx⟩
    have hlt := leNat_lt (leBytes n x)
    rw [length_leBytes] at hlt
    rw [← hx]
    exact hlt
  · intro hx
    exact ⟨length_leBytes n x, leNat_leBytes hx⟩

@[simp] theorem length_number_write (n x : Nat) :
    ((number n).write x).length = n :=
  length_leBytes n x

end Codec
