/-
Decimal numbers written with digits and a point.

# Digits

The value of a row of digits is `Nat.ofDigitChars`, of which the lemmas
here only place zeros before and after.

# The point

A number is written with digits, at least one, and at most one point among
them. Its value is a rational; scaled by a power of ten that its fraction
fits in, it is a row of digits again (`number_scaled`). `shortest` is the
form without zeros at the end of the fraction.
-/
import M1n3Protocol.Lib.Hex
import Mathlib.Data.List.DropRight
import Mathlib.Data.Rat.Cast.Order
import Mathlib.Tactic.FieldSimp
import Mathlib.Tactic.Ring

namespace Decimal

-- ================================================================== digits

abbrev value (ds : Text) : ℕ := Nat.ofDigitChars 10 ds 0

def Digits (ds : Text) : Prop := ∀ c ∈ ds, c.isDigit

theorem value_append (ds es : Text) :
    value (ds ++ es) = value ds * 10 ^ es.length + value es := by
  rw [value, Nat.ofDigitChars_append, Nat.ofDigitChars_eq_ofDigitChars_zero,
    mul_comm]

theorem value_zeros (n : ℕ) : value (List.replicate n '0') = 0 := by
  rw [value, Nat.ofDigitChars_replicate_zero, mul_zero]

theorem value_append_zeros (ds : Text) (n : ℕ) :
    value (ds ++ List.replicate n '0') = value ds * 10 ^ n := by
  rw [value_append, List.length_replicate, value_zeros, add_zero]

theorem value_zeros_append (n : ℕ) (ds : Text) :
    value (List.replicate n '0' ++ ds) = value ds := by
  rw [value_append, value_zeros, zero_mul, zero_add]

theorem Digits.nil : Digits [] := fun _ hc => absurd hc List.not_mem_nil

theorem Digits.append {ds es : Text} (hds : Digits ds) (hes : Digits es) :
    Digits (ds ++ es) := fun c hc =>
  (List.mem_append.mp hc).elim (hds c) (hes c)

theorem Digits.zeros (n : ℕ) : Digits (List.replicate n '0') := by
  intro c hc
  rw [(List.mem_replicate.mp hc).2]
  decide

theorem Digits.toDigits (n : ℕ) : Digits (Nat.toDigits 10 n) := fun _ hc =>
  Nat.isDigit_of_mem_toDigits (by decide) le_rfl hc

theorem Digits.no_point {ds : Text} (h : Digits ds) : '.' ∉ ds := fun hin =>
  absurd (h '.' hin) (by decide)

-- =============================================================== the point

structure Written (t whole frac : Text) : Prop where
  whole_digits : Digits whole
  frac_digits : Digits frac
  some_digit : whole ++ frac ≠ []
  shape : (t = whole ∧ frac = []) ∨ t = whole ++ '.' :: frac

def number (whole frac : Text) : ℚ :=
  value whole + value frac / 10 ^ frac.length

theorem number_scaled {whole frac : Text} {d : ℕ} (h : frac.length ≤ d) :
    number whole frac * 10 ^ d
      = (value (whole ++ frac) * 10 ^ (d - frac.length) : ℕ) := by
  have hsplit : (10 : ℚ) ^ d = 10 ^ frac.length * 10 ^ (d - frac.length) := by
    rw [← pow_add, Nat.add_sub_cancel' h]
  rw [number, hsplit, value_append]
  push_cast
  field_simp

theorem number_eq_zero_iff {whole frac : Text} :
    number whole frac = 0 ↔ value (whole ++ frac) = 0 := by
  have hscaled : number whole frac * 10 ^ frac.length = _ :=
    number_scaled le_rfl
  rw [Nat.sub_self, pow_zero, mul_one] at hscaled
  have hpow : (10 : ℚ) ^ frac.length ≠ 0 := pow_ne_zero _ (by norm_num)
  rw [← Nat.cast_eq_zero (R := ℚ), ← hscaled, mul_eq_zero, or_iff_left hpow]

theorem Written.mem {t whole frac : Text} (h : Written t whole frac) :
    ∀ c ∈ t, c.isDigit ∨ c = '.' := by
  intro c hc
  rcases h.shape with ⟨rfl, -⟩ | rfl
  · exact Or.inl (h.whole_digits c hc)
  · rcases List.mem_append.mp hc with hc | hc
    · exact Or.inl (h.whole_digits c hc)
    · rcases List.mem_cons.mp hc with hc | hc
      · exact Or.inr hc
      · exact Or.inl (h.frac_digits c hc)

theorem Written.frac_eq_nil {t whole frac : Text} (h : Written t whole frac)
    (hpoint : '.' ∉ t) : frac = [] := by
  rcases h.shape with ⟨-, hfrac⟩ | rfl
  · exact hfrac
  · exact absurd (List.mem_append_right _ List.mem_cons_self) hpoint

theorem Written.digits {t whole frac : Text} (h : Written t whole frac) :
    Digits (whole ++ frac) :=
  h.whole_digits.append h.frac_digits

-- ======================================================= the shortest form

/-- The last digits of a number, without zeros at the end. -/
def fraction (x d : ℕ) : Text :=
  (List.leftpad d '0' (Nat.toDigits 10 (x % 10 ^ d))).rdropWhile (· == '0')

/-- A number scaled by `10 ^ d`, written with a point. -/
def shortest (x d : ℕ) : Text :=
  if x % 10 ^ d = 0 then Nat.toDigits 10 (x / 10 ^ d)
  else Nat.toDigits 10 (x / 10 ^ d) ++ '.' :: fraction x d

theorem fraction_digits (x d : ℕ) : Digits (fraction x d) := by
  intro c hc
  have hin := ((List.rdropWhile_prefix (· == '0') _).subset hc)
  exact (Digits.zeros _).append (Digits.toDigits _) c hin

/-- What was dropped are zeros. -/
theorem fraction_zeros {x d : ℕ} (h : x % 10 ^ d ≠ 0) :
    (fraction x d).length ≤ d ∧
      value (fraction x d) * 10 ^ (d - (fraction x d).length)
        = x % 10 ^ d := by
  have hd : 0 < d := by
    rcases Nat.eq_zero_or_pos d with rfl | hd
    · exact absurd (Nat.mod_one x) h
    · exact hd
  have hpad : List.leftpad d '0' (Nat.toDigits 10 (x % 10 ^ d))
      = fraction x d
        ++ List.rtakeWhile (· == '0')
            (List.leftpad d '0' (Nat.toDigits 10 (x % 10 ^ d))) :=
    List.rdropWhile_append_rtakeWhile.symm
  generalize hzeros : List.rtakeWhile (· == '0')
    (List.leftpad d '0' (Nat.toDigits 10 (x % 10 ^ d))) = zeros at hpad
  have hall : zeros = List.replicate zeros.length '0' := by
    rw [List.eq_replicate_iff]
    refine ⟨rfl, fun c hc => ?_⟩
    rw [← hzeros] at hc
    have hzero : (c == '0') = true :=
      List.mem_rtakeWhile_imp (p := (· == '0')) hc
    exact beq_iff_eq.mp hzero
  have hlength : (Nat.toDigits 10 (x % 10 ^ d)).length ≤ d :=
    (Nat.length_toDigits_le_iff (by decide) hd).mpr
      (Nat.mod_lt _ (Nat.pow_pos (by decide)))
  have hsum : (fraction x d).length + zeros.length = d := by
    rw [← List.length_append, ← hpad, List.length_leftpad, max_eq_left hlength]
  refine ⟨Nat.le.intro hsum, ?_⟩
  calc value (fraction x d) * 10 ^ (d - (fraction x d).length)
      = value (fraction x d ++ List.replicate zeros.length '0') := by
        rw [value_append_zeros, Nat.sub_eq_of_eq_add' hsum.symm]
    _ = value (List.leftpad d '0' (Nat.toDigits 10 (x % 10 ^ d))) := by
        rw [← hall, ← hpad]
    _ = x % 10 ^ d := by
        rw [List.leftpad, value_zeros_append, value,
          Nat.ofDigitChars_ten_toDigits]

theorem fraction_eq_nil_iff {x d : ℕ} :
    fraction x d = [] ↔ x % 10 ^ d = 0 := by
  constructor
  · intro hnil
    by_contra hfrac
    have hvalue := (fraction_zeros hfrac).2
    rw [hnil, value, Nat.ofDigitChars_nil, zero_mul] at hvalue
    exact hfrac hvalue.symm
  · intro hzero
    rw [fraction, hzero, List.rdropWhile_eq_nil_iff]
    intro c hc
    rw [beq_iff_eq]
    rcases List.mem_append.mp hc with hc | hc
    · exact (List.mem_replicate.mp hc).2
    · exact List.mem_singleton.mp hc

/-- The shortest form is a way to write the number, and none is lost. -/
theorem shortest_written (x d : ℕ) :
    ∃ whole frac, Written (shortest x d) whole frac ∧ frac.length ≤ d ∧
      value (whole ++ frac) * 10 ^ (d - frac.length) = x := by
  have hwhole : value (Nat.toDigits 10 (x / 10 ^ d)) = x / 10 ^ d :=
    Nat.ofDigitChars_ten_toDigits
  by_cases hfrac : x % 10 ^ d = 0
  · refine ⟨Nat.toDigits 10 (x / 10 ^ d), [], ⟨Digits.toDigits _, .nil, ?_,
      Or.inl ⟨if_pos hfrac, rfl⟩⟩, Nat.zero_le d, ?_⟩
    · rw [List.append_nil]
      exact Nat.toDigits_ne_nil
    · rw [List.append_nil, hwhole, List.length_nil, Nat.sub_zero,
        Nat.div_mul_cancel (Nat.dvd_of_mod_eq_zero hfrac)]
  · obtain ⟨hlength, hvalue⟩ := fraction_zeros hfrac
    refine ⟨Nat.toDigits 10 (x / 10 ^ d), fraction x d,
      ⟨Digits.toDigits _, fraction_digits x d, ?_, Or.inr (if_neg hfrac)⟩,
      hlength, ?_⟩
    · exact List.append_ne_nil_of_left_ne_nil Nat.toDigits_ne_nil _
    · rw [value_append, hwhole, add_mul, mul_assoc, ← pow_add,
        Nat.add_sub_cancel' hlength, hvalue, Nat.div_add_mod']

end Decimal
