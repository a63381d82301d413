/-
Byte strings as little-endian naturals.
-/
import M1n3Protocol.Lib.Sha256
import Mathlib.Algebra.Ring.Nat

/-- The number a byte string spells, lowest byte first. -/
def leNat : Bytes → Nat
  | [] => 0
  | b :: bs => b.toNat + 256 * leNat bs

/-- The `len` lowest bytes of a number, lowest first. -/
def leBytes : Nat → Nat → Bytes
  | 0, _ => []
  | len + 1, n => BitVec.ofNat 8 n :: leBytes len (n / 256)

@[simp] theorem length_leBytes (len n : Nat) :
    (leBytes len n).length = len := by
  induction len generalizing n with
  | zero => rfl
  | succ len ih => simp [leBytes, ih]

theorem leNat_lt (bs : Bytes) : leNat bs < 256 ^ bs.length := by
  induction bs with
  | nil => simp [leNat]
  | cons b bs ih =>
      have hb : b.toNat < 256 := b.isLt
      rw [leNat, List.length_cons, Nat.pow_succ]
      omega

/-- Reading back a number that fits gives the number. -/
theorem leNat_leBytes {len n : Nat} (h : n < 256 ^ len) :
    leNat (leBytes len n) = n := by
  induction len generalizing n with
  | zero => simp at h; simp [leBytes, leNat, h]
  | succ len ih =>
      have hq : n / 256 < 256 ^ len := by
        rw [Nat.pow_succ] at h
        omega
      rw [leBytes, leNat, ih hq, BitVec.toNat_ofNat]
      omega

/-- The bytes of the number a string spells are the string. -/
theorem leBytes_leNat (bs : Bytes) : leBytes bs.length (leNat bs) = bs := by
  induction bs with
  | nil => rfl
  | cons b bs ih =>
      have hb : b.toNat < 256 := b.isLt
      have hquot : (b.toNat + 256 * leNat bs) / 256 = leNat bs := by omega
      rw [List.length_cons, leNat, leBytes, hquot, ih]
      congr 1
      apply BitVec.eq_of_toNat_eq
      rw [BitVec.toNat_ofNat]
      omega

theorem leNat_append (xs ys : Bytes) :
    leNat (xs ++ ys) = leNat xs + 256 ^ xs.length * leNat ys := by
  induction xs with
  | nil => simp [leNat]
  | cons x xs ih =>
      rw [List.cons_append, leNat, leNat, ih, List.length_cons, Nat.pow_succ,
        Nat.mul_add, Nat.mul_comm (256 ^ xs.length) 256, Nat.mul_assoc]
      omega

/-- Fewer bytes are the lower ones. -/
theorem take_leBytes {m len : Nat} (n : Nat) (h : m ≤ len) :
    (leBytes len n).take m = leBytes m n := by
  induction m generalizing len n with
  | zero => rfl
  | succ m ih =>
      cases len with
      | zero => cases h
      | succ len =>
          rw [leBytes, List.take_succ_cons, ih _ (Nat.le_of_succ_le_succ h),
            leBytes]

theorem getD_leBytes {i len : Nat} (n : Nat) (h : i < len) :
    (leBytes len n).getD i 0 = BitVec.ofNat 8 (n / 256 ^ i) := by
  induction i generalizing len n with
  | zero =>
      cases len with
      | zero => cases h
      | succ len =>
          rw [leBytes, List.getD_cons_zero, Nat.pow_zero, Nat.div_one]
  | succ i ih =>
      cases len with
      | zero => cases h
      | succ len =>
          rw [leBytes, List.getD_cons_succ, ih _ (Nat.lt_of_succ_lt_succ h),
            Nat.div_div_eq_div_mul, Nat.pow_succ']

-- ========================================================== single bytes

/-- Dropping bytes divides. -/
theorem leNat_drop {bs : Bytes} {k : Nat} (h : k ≤ bs.length) :
    leNat (bs.drop k) = leNat bs / 256 ^ k := by
  have hsplit := leNat_append (bs.take k) (bs.drop k)
  have hlow := leNat_lt (bs.take k)
  rw [List.take_append_drop, List.length_take, Nat.min_eq_left h] at hsplit
  rw [List.length_take, Nat.min_eq_left h] at hlow
  rw [hsplit, Nat.add_mul_div_left _ _ (Nat.pow_pos (by decide)),
    Nat.div_eq_of_lt hlow, Nat.zero_add]

/-- The byte at `i` is the `i`-th digit. -/
theorem leNat_getElem {bs : Bytes} {i : Nat} (h : i < bs.length) :
    leNat bs / 256 ^ i = bs[i].toNat + 256 * (leNat bs / 256 ^ (i + 1)) := by
  have hcons : leNat (bs.drop i)
      = bs[i].toNat + 256 * leNat (bs.drop (i + 1)) := by
    rw [List.drop_eq_getElem_cons h, leNat]
  rw [← leNat_drop (Nat.le_of_lt h), hcons, leNat_drop h]

/-- One more low byte: the byte at `i` above the low `i` bytes. -/
theorem leNat_mod_succ {bs : Bytes} {i : Nat} (h : i < bs.length) :
    leNat bs % 256 ^ (i + 1)
      = 256 ^ i * bs[i].toNat + leNat bs % 256 ^ i := by
  have hbyte : leNat bs / 256 ^ i % 256 = bs[i].toNat := by
    have hdigit := leNat_getElem h
    have hlt : bs[i].toNat < 256 := bs[i].isLt
    omega
  rw [Nat.mod_pow_succ, hbyte, Nat.add_comm]

theorem leNat_replicate_zero (n : Nat) : leNat (List.replicate n 0) = 0 := by
  induction n with
  | zero => rfl
  | succ n ih =>
      rw [List.replicate_succ, leNat, ih]
      rfl

/-- Writing a byte over a zero byte adds it at its place. -/
theorem leNat_set {bs : Bytes} {i : Nat} (h : i < bs.length)
    (hz : bs[i] = 0) (b : BitVec 8) :
    leNat (bs.set i b) = leNat bs + 256 ^ i * b.toNat := by
  induction bs generalizing i with
  | nil => cases h
  | cons x xs ih =>
      cases i with
      | zero =>
          have hx : x = 0 := hz
          rw [List.set_cons_zero, leNat, leNat, hx]
          show b.toNat + _ = 0 + _ + _
          omega
      | succ i =>
          have hi : i < xs.length := Nat.lt_of_succ_lt_succ h
          have hzi : xs[i] = 0 := hz
          rw [List.set_cons_succ, leNat, leNat, ih hi hzi, Nat.pow_succ,
            Nat.mul_add, Nat.mul_comm (256 ^ i) 256, Nat.mul_assoc]
          omega

/-- Shifting a byte in, below the bytes already there. -/
theorem toNat_push {w : Nat} (v : BitVec w) (b : BitVec 8)
    (h : v.toNat * 256 + b.toNat < 2 ^ w) :
    ((v <<< 8) ||| b.setWidth w).toNat = v.toNat * 256 + b.toNat := by
  have hv : v.toNat * 2 ^ 8 < 2 ^ w :=
    Nat.lt_of_le_of_lt (Nat.le_add_right _ _) h
  have hb : b.toNat < 2 ^ w := Nat.lt_of_le_of_lt (Nat.le_add_left _ _) h
  rw [BitVec.toNat_or, BitVec.toNat_shiftLeft, BitVec.toNat_setWidth,
    Nat.shiftLeft_eq, Nat.mod_eq_of_lt hv, Nat.mod_eq_of_lt hb,
    ← Nat.shiftLeft_eq, ← Nat.shiftLeft_add_eq_or_of_lt b.isLt,
    Nat.shiftLeft_eq]
