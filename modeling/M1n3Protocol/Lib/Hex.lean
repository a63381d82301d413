/-
Bytes and numbers as text, in base 16.

# Reading and writing

`encode` writes two lower-case digits a byte, the high half first.
`decode` takes either case, and only whole bytes. A single number has two
forms of its own: `padded` writes it with leading zeros up to a width, and
`ofRadix` reads one of any length that fits, after an optional plus sign.

# Characters and bytes

A text is its list of characters. A slice of it is counted in the bytes
of its UTF-8 form, and there is none that cuts a character in two. Where
every character is a digit the two counts are one (`length_of_digits`).
-/
import M1n3Protocol.Lib.Bytes
import Mathlib.Tactic.IntervalCases

abbrev Text := List Char

instance : LawfulBEq Text := inferInstance

namespace Hex

-- =============================================================== digits

/-- The value of a digit, in either case. -/
def value (c : Char) : Option Nat :=
  if '0' ≤ c ∧ c ≤ '9' then some (c.toNat - 48)
  else if 'a' ≤ c ∧ c ≤ 'f' then some (c.toNat - 87)
  else if 'A' ≤ c ∧ c ≤ 'F' then some (c.toNat - 55)
  else none

theorem value_digitChar {n : Nat} (h : n < 16) :
    value n.digitChar = some n := by
  interval_cases n <;> decide

theorem value_lt {c : Char} {n : Nat} (h : value c = some n) : n < 16 := by
  simp only [value, Char.le_def] at h
  simp only [UInt32.le_iff_toNat_le] at h
  have hc : c.toNat = c.val.toNat := rfl
  have hd : ('0'.val.toNat = 48 ∧ '9'.val.toNat = 57)
      ∧ ('a'.val.toNat = 97 ∧ 'f'.val.toNat = 102)
      ∧ ('A'.val.toNat = 65 ∧ 'F'.val.toNat = 70) := by decide
  split at h
  · cases h
    omega
  · split at h
    · cases h
      omega
    · split at h
      · cases h
        omega
      · cases h

/-- A digit is of seven bits, also before it is lowered. -/
theorem ascii_of_digit {c : Char} (h : (value c.toLower).isSome) :
    c.val ≤ 0x7f := by
  unfold Char.toLower at h
  split at h
  case isTrue hupper =>
      have := hupper.2
      simp only [UInt32.le_iff_toNat_le] at this ⊢
      exact Nat.le_trans this (by decide)
  case isFalse =>
      simp only [value, Char.le_def] at h
      simp only [UInt32.le_iff_toNat_le] at h ⊢
      split at h
      case isTrue hd => exact Nat.le_trans hd.2 (by decide)
      case isFalse =>
          split at h
          case isTrue hd => exact Nat.le_trans hd.2 (by decide)
          case isFalse =>
              split at h
              case isTrue hd => exact Nat.le_trans hd.2 (by decide)
              case isFalse => cases h

/-- A digit takes one byte, also before it is lowered. -/
theorem utf8Size_of_digit {c : Char} (h : (value c.toLower).isSome) :
    c.utf8Size = 1 :=
  if_pos (ascii_of_digit h)

/-- Lowered, a digit is the one of its value. -/
theorem toLower_eq_digitChar {c : Char} {n : Nat}
    (h : value c.toLower = some n) : c.toLower = n.digitChar := by
  have hall : ∀ k < 128, ∀ v ∈ value (Char.ofNat k).toLower,
      (Char.ofNat k).toLower = v.digitChar := by
    decide +kernel
  have hlt : c.toNat < 128 := by
    have hle := ascii_of_digit (Option.isSome_iff_exists.mpr ⟨n, h⟩)
    exact Nat.lt_succ_of_le (UInt32.le_iff_toNat_le.mp hle)
  have hc := hall c.toNat hlt n
  rw [Char.ofNat_toNat] at hc
  exact hc h

-- ================================================================ bytes

def encode (bs : Bytes) : Text :=
  bs.flatMap fun b => [(b.toNat / 16).digitChar, (b.toNat % 16).digitChar]

def decode : Text → Option Bytes
  | [] => some []
  | [_] => none
  | c :: d :: rest => do
      let hi ← value c
      let lo ← value d
      let bs ← decode rest
      return BitVec.ofNat 8 (16 * hi + lo) :: bs

/-- What is written reads back. -/
theorem decode_encode (bs : Bytes) : decode (encode bs) = some bs := by
  induction bs with
  | nil => rfl
  | cons b bs ih =>
      have hb : b.toNat < 256 := b.isLt
      have hbyte : BitVec.ofNat 8 (16 * (b.toNat / 16) + b.toNat % 16) = b := by
        rw [Nat.div_add_mod, BitVec.ofNat_toNat, BitVec.setWidth_eq]
      show decode (_ :: _ :: encode bs) = _
      rw [decode, value_digitChar (by omega), value_digitChar (by omega), ih]
      show some (_ :: bs) = _
      rw [hbyte]

/-- Two digits a byte, and nothing but digits. -/
theorem of_decode {cs : Text} {bs : Bytes} (h : decode cs = some bs) :
    cs.length = 2 * bs.length ∧ ∀ c ∈ cs, (value c).isSome := by
  induction cs using decode.induct generalizing bs with
  | case1 =>
      cases h
      exact ⟨rfl, fun c hc => by cases hc⟩
  | case2 => cases h
  | case3 c d rest ih =>
      obtain ⟨hi, hhi, h⟩ := Option.bind_eq_some_iff.mp h
      obtain ⟨lo, hlo, h⟩ := Option.bind_eq_some_iff.mp h
      obtain ⟨tail, htail, h⟩ := Option.bind_eq_some_iff.mp h
      cases h
      obtain ⟨hlen, hall⟩ := ih htail
      refine ⟨by simp only [List.length_cons, hlen]; omega, ?_⟩
      intro e he
      rcases List.mem_cons.mp he with rfl | he
      · rw [hhi]
        rfl
      · rcases List.mem_cons.mp he with rfl | he
        · rw [hlo]
          rfl
        · exact hall e he

theorem encode_cons (b : BitVec 8) (bs : Bytes) :
    encode (b :: bs) = (b.toNat / 16).digitChar
      :: (b.toNat % 16).digitChar :: encode bs := rfl

theorem encode_append (as bs : Bytes) :
    encode (as ++ bs) = encode as ++ encode bs :=
  List.flatMap_append

theorem length_encode (bs : Bytes) : (encode bs).length = 2 * bs.length :=
  (of_decode (decode_encode bs)).1

/-- Every digit in it is written in lower case. -/
def Lower (cs : Text) : Prop :=
  ∀ c ∈ cs, ∀ n, value c = some n → c = n.digitChar

/-- In lower case bytes have one text. -/
theorem encode_of_decode {cs : Text} {bs : Bytes} (hlower : Lower cs)
    (h : decode cs = some bs) : encode bs = cs := by
  induction cs using decode.induct generalizing bs with
  | case1 =>
      cases h
      rfl
  | case2 c => cases h
  | case3 c d rest ih =>
      simp only [decode, Option.bind_eq_bind, Option.bind_eq_some_iff,
        Option.pure_def, Option.some.injEq] at h
      obtain ⟨hi, hhi, lo, hlo, bs', hrest, rfl⟩ := h
      have hhi' : hi < 16 := value_lt hhi
      have hlo' : lo < 16 := value_lt hlo
      have hbs : encode bs' = rest :=
        ih (fun e he => hlower e (by simp [he])) hrest
      have hn : (BitVec.ofNat 8 (16 * hi + lo)).toNat = 16 * hi + lo :=
        BitVec.toNat_ofNat .. |>.trans (Nat.mod_eq_of_lt (by omega))
      have hdiv : (16 * hi + lo) / 16 = hi := by omega
      have hmod : (16 * hi + lo) % 16 = lo := by omega
      rw [encode, List.flatMap_cons, hn, hdiv, hmod,
        ← hlower c (by simp) hi hhi, ← hlower d (by simp) lo hlo]
      exact congrArg (fun tail => c :: d :: tail) hbs

theorem lower_encode (bs : Bytes) : Lower (encode bs) := by
  intro c hc n hn
  obtain ⟨b, -, hb⟩ := List.mem_flatMap.mp hc
  have hlt : b.toNat < 256 := b.isLt
  have hdigit : ∃ d < 16, c = d.digitChar := by
    rcases List.mem_cons.mp hb with rfl | hb
    · exact ⟨b.toNat / 16, by omega, rfl⟩
    · exact ⟨b.toNat % 16, by omega, List.mem_singleton.mp hb⟩
  obtain ⟨d, hd, rfl⟩ := hdigit
  rw [value_digitChar hd] at hn
  injection hn with hn
  rw [hn]

theorem lower_map_toLower (cs : Text) : Lower (cs.map Char.toLower) := by
  intro c hc n hn
  obtain ⟨d, -, rfl⟩ := List.mem_map.mp hc
  exact toLower_eq_digitChar hn

/-- `n` bytes exactly. -/
def decodeFixed (n : Nat) (cs : Text) : Option Bytes :=
  (decode cs).filter fun bs => bs.length = n

theorem decodeFixed_eq_some {n : Nat} {cs : Text} {bs : Bytes} :
    decodeFixed n cs = some bs ↔ decode cs = some bs ∧ bs.length = n := by
  rw [decodeFixed, Option.filter_eq_some_iff, decide_eq_true_eq]

-- ============================================================== numbers

/-- The digits of a number that has some. -/
def digits : Nat → Text → Option Nat
  | n, [] => some n
  | n, c :: cs => do
      let d ← value c
      digits (16 * n + d) cs

/-- A number below `2 ^ w`. -/
def ofRadix (w : Nat) (cs : Text) : Option (BitVec w) :=
  let ds := match cs with
    | '+' :: ds => ds
    | _ => cs
  if ds = [] then none
  else ((digits 0 ds).filter fun n => n < 2 ^ w).map (BitVec.ofNat w)

/-- At least `width` digits. -/
def padded (width n : Nat) : Text :=
  let ds := Nat.toDigits 16 n
  List.replicate (width - ds.length) '0' ++ ds

theorem length_toDigits_le {k n : Nat} (h : n < 16 ^ (k + 1)) :
    (Nat.toDigits 16 n).length ≤ k + 1 := by
  induction k generalizing n with
  | zero =>
      rw [Nat.toDigits_of_lt_base (by omega)]
      exact Nat.le_refl 1
  | succ k ih =>
      rw [Nat.toDigits_eq_if (by decide)]
      split
      case isTrue => exact Nat.le_add_left 1 (k + 1)
      case isFalse =>
          have hq : n / 16 < 16 ^ (k + 1) := by
            rw [Nat.pow_succ] at h
            omega
          rw [List.length_append]
          exact Nat.add_le_add_right (ih hq) 1

theorem toDigits_lower (n : Nat) :
    ∀ c ∈ Nat.toDigits 16 n, ∃ d < 16, c = d.digitChar := by
  induction n using Nat.strongRecOn with
  | ind n ih =>
      intro c hc
      rw [Nat.toDigits_eq_if (by decide)] at hc
      split at hc
      case isTrue hlt =>
          exact ⟨n, hlt, List.mem_singleton.mp hc⟩
      case isFalse hge =>
          rcases List.mem_append.mp hc with hc | hc
          · exact ih (n / 16) (Nat.div_lt_self (by omega) (by decide)) c hc
          · exact ⟨n % 16, Nat.mod_lt n (by decide),
              List.mem_singleton.mp hc⟩

/-- A number is written in lower case. -/
theorem lower_padded (width n : Nat) : Lower (padded width n) := by
  have hdigit : ∀ c ∈ padded width n, ∃ d < 16, c = d.digitChar := by
    intro c hc
    rcases List.mem_append.mp hc with hc | hc
    · exact ⟨0, by decide, (List.mem_replicate.mp hc).2⟩
    · exact toDigits_lower n c hc
  intro c hc v hv
  obtain ⟨d, hd, rfl⟩ := hdigit c hc
  rw [value_digitChar hd] at hv
  injection hv with hv
  rw [hv]

/-- A number of `width` digits is written with `width` digits. -/
theorem length_padded {k n : Nat} (h : n < 16 ^ (k + 1)) :
    (padded (k + 1) n).length = k + 1 := by
  have hle := length_toDigits_le h
  rw [padded, List.length_append, List.length_replicate]
  omega

theorem digits_append (n : Nat) (cs ds : Text) :
    digits n (cs ++ ds) = (digits n cs).bind fun m => digits m ds := by
  induction cs generalizing n with
  | nil => rfl
  | cons c cs ih =>
      rw [List.cons_append, digits, digits]
      cases value c with
      | none => rfl
      | some d => exact ih (16 * n + d)

theorem digits_toDigits (n : Nat) :
    digits 0 (Nat.toDigits 16 n) = some n := by
  induction n using Nat.strongRecOn with
  | ind n ih =>
      rw [Nat.toDigits_eq_if (by decide)]
      split
      case isTrue hlt =>
          rw [digits, value_digitChar hlt]
          show some (16 * 0 + n) = some n
          rw [Nat.mul_zero, Nat.zero_add]
      case isFalse hge =>
          rw [digits_append,
            ih (n / 16) (Nat.div_lt_self (by omega) (by decide))]
          show digits (n / 16) [(n % 16).digitChar] = some n
          rw [digits, value_digitChar (Nat.mod_lt n (by decide))]
          exact congrArg some (Nat.div_add_mod n 16)

theorem digits_zeros (k : Nat) (cs : Text) :
    digits 0 (List.replicate k '0' ++ cs) = digits 0 cs := by
  induction k with
  | zero => rfl
  | succ k ih => exact ih

/-- A number that fits is read back. -/
theorem ofRadix_padded {w : Nat} (width : Nat) (v : BitVec w) :
    ofRadix w (padded width v.toNat) = some v := by
  have hdigits : digits 0 (padded width v.toNat) = some v.toNat := by
    rw [padded, digits_zeros, digits_toDigits]
  have hne : padded width v.toNat ≠ [] := by
    intro hnil
    have hdig := (List.append_eq_nil_iff.mp hnil).2
    exact Nat.toDigits_ne_nil hdig
  have hplus : ∀ ds, padded width v.toNat ≠ '+' :: ds := by
    intro ds hds
    rw [hds] at hdigits
    cases hdigits
  generalize padded width v.toNat = cs at hdigits hne hplus
  cases cs with
  | nil => exact absurd rfl hne
  | cons c cs =>
      have hfit : v.toNat < 2 ^ w := v.isLt
      simp [ofRadix, hdigits, hfit]

-- =============================================================== slices

def utf8Length (cs : Text) : Nat := (cs.map Char.utf8Size).sum

/-- The first `n` bytes, where a character ends there. -/
def utf8Take : Nat → Text → Option Text
  | 0, _ => some []
  | _ + 1, [] => none
  | n + 1, c :: cs =>
      if c.utf8Size ≤ n + 1 then (utf8Take (n + 1 - c.utf8Size) cs).map (c :: ·)
      else none

theorem utf8Length_of_take {n : Nat} {cs ds : Text}
    (h : utf8Take n cs = some ds) : utf8Length ds = n := by
  induction cs generalizing n ds with
  | nil =>
      cases n with
      | zero =>
          cases h
          rfl
      | succ n => cases h
  | cons c cs ih =>
      cases n with
      | zero =>
          cases h
          rfl
      | succ n =>
          rw [utf8Take] at h
          split at h
          case isTrue hle =>
              obtain ⟨es, hes, rfl⟩ := Option.map_eq_some_iff.mp h
              have := ih hes
              unfold utf8Length at this ⊢
              rw [List.map_cons, List.sum_cons, this]
              omega
          case isFalse => cases h

/-- Digits are bytes, also where the text was lowered to get them. -/
theorem length_of_digits {cs : Text}
    (h : ∀ c ∈ cs, (value c.toLower).isSome) : cs.length = utf8Length cs := by
  induction cs with
  | nil => rfl
  | cons c cs ih =>
      have hc := utf8Size_of_digit (h c List.mem_cons_self)
      have hcs := ih fun d hd => h d (List.mem_cons_of_mem c hd)
      unfold utf8Length at hcs ⊢
      rw [List.length_cons, List.map_cons, List.sum_cons, hc, ← hcs,
        Nat.add_comm]

end Hex
