/-
What the JavaScript sources here use of their language.

# Numbers

A number is an integer: every value computed from here on stays far below
2^53. The bitwise operators first take it to 32 bits with a sign, and so
does every further one with their result; `>>>` is the one that reads the
bits without a sign. A `bigint` has no width.

# Byte arrays

Storing a number in a `Uint8Array` keeps its low eight bits, and stores 0
for what is not a number. `set` throws where the source does not fit.

# Texts

A string is its characters, which are its code units as long as none is
above U+FFFF.

The shift counts that occur are below 32.
-/
import M1n3Protocol.Lib.Hex

namespace Js

-- ================================================================= numbers

def toInt32 (x : Int) : BitVec 32 := BitVec.ofInt 32 x

/-- `x & y` -/
def bitAnd (x y : Int) : Int := (toInt32 x &&& toInt32 y).toInt

/-- `x >> k` -/
def shiftRight (x : Int) (k : Nat) : Int := ((toInt32 x).sshiftRight k).toInt

/-- `x >>> k` -/
def shiftRightZero (x : Int) (k : Nat) : Int := (toInt32 x >>> k).toNat

/-- `Number((x >> k) & 0xffn)` of a `bigint`. -/
def bigByte (x : Int) (k : Nat) : Int := (x >>> k) % 256

theorem toInt32_natCast (n : Nat) : toInt32 n = BitVec.ofNat 32 n :=
  BitVec.ofInt_natCast 32 n

/-- A byte of 32 bits is the same with a sign shifted in as without. -/
theorem sshiftRight_and_byte (x : BitVec 32) {k : Nat} (hk : k ≤ 24) :
    x.sshiftRight k &&& 0xff = x >>> k &&& 0xff := by
  apply BitVec.eq_of_getLsbD_eq
  intro i hi
  rw [BitVec.getLsbD_and, BitVec.getLsbD_and]
  by_cases hbyte : i < 8
  · rw [BitVec.getLsbD_sshiftRight, BitVec.getLsbD_ushiftRight,
      if_pos (by omega), decide_eq_false (by omega), Bool.not_false,
      Bool.true_and]
  · have hmask : (0xff : BitVec 32).getLsbD i = false := by
      have hall : ∀ j < 32, 8 ≤ j → (0xff : BitVec 32).getLsbD j = false := by
        decide
      exact hall i hi (Nat.not_lt.mp hbyte)
    rw [hmask, Bool.and_false, Bool.and_false]

theorem toInt_and_byte (x : BitVec 32) :
    (x &&& 0xff).toInt = (x.toNat % 256 : Nat) := by
  have hmask : (0xff : BitVec 32).toNat = 2 ^ 8 - 1 := rfl
  have hnat : (x &&& 0xff).toNat = x.toNat % 256 := by
    rw [BitVec.toNat_and, hmask, Nat.and_two_pow_sub_one_eq_mod]
  rw [BitVec.toInt_eq_toNat_of_lt (by rw [hnat]; omega), hnat]

theorem bitAnd_byte {n : Nat} (h : n < 2 ^ 32) :
    bitAnd n 0xff = (n % 256 : Nat) := by
  show (toInt32 n &&& 0xff).toInt = _
  rw [toInt32_natCast, toInt_and_byte, BitVec.toNat_ofNat,
    Nat.mod_eq_of_lt h]

theorem shiftRight_byte {n k : Nat} (h : n < 2 ^ 32) (hk : k ≤ 24) :
    bitAnd (shiftRight n k) 0xff = (n / 2 ^ k % 256 : Nat) := by
  unfold bitAnd shiftRight
  show (BitVec.ofInt 32 _ &&& 0xff).toInt = _
  rw [BitVec.ofInt_toInt, sshiftRight_and_byte _ hk, toInt_and_byte,
    toInt32_natCast, BitVec.toNat_ushiftRight, BitVec.toNat_ofNat,
    Nat.mod_eq_of_lt h, Nat.shiftRight_eq_div_pow]

theorem shiftRightZero_natCast {n : Nat} (h : n < 2 ^ 32) (k : Nat) :
    shiftRightZero n k = (n / 2 ^ k : Nat) := by
  unfold shiftRightZero
  rw [toInt32_natCast, BitVec.toNat_ushiftRight, BitVec.toNat_ofNat,
    Nat.mod_eq_of_lt h, Nat.shiftRight_eq_div_pow]

theorem shiftRightZero_lt {x : Int} (h : 0 < x) :
    (shiftRightZero x 8).toNat < x.toNat := by
  obtain ⟨n, rfl⟩ := Int.eq_ofNat_of_zero_le (Int.le_of_lt h)
  unfold shiftRightZero
  rw [Int.toNat_natCast, Int.toNat_natCast, toInt32_natCast,
    BitVec.toNat_ushiftRight, BitVec.toNat_ofNat, Nat.shiftRight_eq_div_pow]
  have hmod : n % 2 ^ 32 ≤ n := Nat.mod_le _ _
  omega

theorem bigByte_natCast (n k : Nat) :
    bigByte n k = (n / 2 ^ k % 256 : Nat) := by
  unfold bigByte
  rw [Int.shiftRight_eq_div_pow]
  norm_cast

-- ============================================================= byte arrays

/-- What a number is stored as. -/
def uint8 (x : Int) : BitVec 8 := BitVec.ofInt 8 x

/-- `new Uint8Array(xs)` -/
def uint8Array (xs : List Int) : Bytes := xs.map uint8

/-- `...bs` -/
def spread (bs : Bytes) : List Int := bs.map fun b => (b.toNat : Int)

theorem uint8_natCast (n : Nat) : uint8 n = BitVec.ofNat 8 n :=
  BitVec.ofInt_natCast 8 n

theorem uint8Array_spread (bs : Bytes) : uint8Array (spread bs) = bs := by
  unfold uint8Array spread
  rw [List.map_map]
  apply List.map_id''
  intro b
  show uint8 (b.toNat : Int) = b
  rw [uint8_natCast, BitVec.ofNat_toNat, BitVec.setWidth_eq]

/-- `target.set(source, offset)` -/
def setAt (target source : Bytes) (offset : Nat) : Option Bytes :=
  if offset + source.length ≤ target.length then
    some (target.take offset ++ source
      ++ target.drop (offset + source.length))
  else none

-- =================================================================== texts

/-- White space and line ends. -/
def isSpace (c : Char) : Bool :=
  [0x09, 0x0a, 0x0b, 0x0c, 0x0d, 0x20, 0xa0, 0x1680, 0x2028, 0x2029, 0x202f,
    0x205f, 0x3000, 0xfeff].contains c.toNat
  || decide (0x2000 ≤ c.toNat ∧ c.toNat ≤ 0x200a)

def stripSign : Text → Bool × Text
  | '-' :: s => (true, s)
  | '+' :: s => (false, s)
  | s => (false, s)

def stripHexPrefix : Text → Text
  | '0' :: 'x' :: s => s
  | '0' :: 'X' :: s => s
  | s => s

/-- `parseInt(s, 16)`, where `none` is not a number: the digits there are
in front, after white space, a sign and a prefix. -/
def parseInt16 (s : Text) : Option Int :=
  let (negative, s) := stripSign (s.dropWhile isSpace)
  let digits := (stripHexPrefix s).map Hex.value
    |>.takeWhile Option.isSome |>.filterMap id
  if digits.isEmpty then none
  else
    let n : Int := digits.foldl (fun n d => 16 * n + d) 0
    some (if negative then -n else n)

theorem digit_lt {c : Char} {v : Nat} (h : Hex.value c = some v) :
    c.toNat < 128 := by
  by_contra hbig
  have hlast : '9'.toNat < 128 ∧ 'f'.toNat < 128 ∧ 'F'.toNat < 128 := by
    decide
  have hle : ∀ d : Char, c ≤ d → c.toNat ≤ d.toNat := fun d hcd =>
    UInt32.le_iff_toNat_le.mp hcd
  unfold Hex.value at h
  rw [if_neg fun h => absurd (hle _ h.2) (by omega),
    if_neg fun h => absurd (hle _ h.2) (by omega),
    if_neg fun h => absurd (hle _ h.2) (by omega)] at h
  cases h

/-- A digit begins no white space, sign or prefix. -/
theorem digit_plain {c : Char} {v : Nat} (h : Hex.value c = some v) :
    isSpace c = false ∧ c ≠ '-' ∧ c ≠ '+' ∧ c ≠ 'x' ∧ c ≠ 'X' := by
  have hall : ∀ k < 128, (Hex.value (Char.ofNat k)).isSome →
      isSpace (Char.ofNat k) = false ∧ Char.ofNat k ≠ '-'
        ∧ Char.ofNat k ≠ '+' ∧ Char.ofNat k ≠ 'x' ∧ Char.ofNat k ≠ 'X' := by
    decide +kernel
  have hc := hall c.toNat (digit_lt h)
  rw [Char.ofNat_toNat] at hc
  apply hc
  rw [h]
  rfl

/-- Two digits are the number they spell. -/
theorem parseInt16_pair {c d : Char} {hi lo : Nat}
    (hc : Hex.value c = some hi) (hd : Hex.value d = some lo) :
    parseInt16 [c, d] = some ((16 * hi + lo : Nat) : Int) := by
  obtain ⟨hspace, hminus, hplus, -, -⟩ := digit_plain hc
  obtain ⟨-, -, -, hlower, hupper⟩ := digit_plain hd
  have hdrop : [c, d].dropWhile isSpace = [c, d] := by
    rw [List.dropWhile_cons, hspace]
    rfl
  have hsign : stripSign [c, d] = (false, [c, d]) := by
    unfold stripSign
    split
    case h_1 s heq => exact absurd (List.cons.inj heq).1 hminus
    case h_2 s heq => exact absurd (List.cons.inj heq).1 hplus
    case h_3 => rfl
  have hplain : stripHexPrefix [c, d] = [c, d] := by
    unfold stripHexPrefix
    split
    case h_1 s heq => exact absurd (List.cons.inj (List.cons.inj heq).2).1 hlower
    case h_2 s heq => exact absurd (List.cons.inj (List.cons.inj heq).2).1 hupper
    case h_3 => rfl
  have hdigits : (([c, d].map Hex.value).takeWhile Option.isSome).filterMap id
      = [hi, lo] := by
    rw [List.map_cons, List.map_cons, hc, hd]
    rfl
  unfold parseInt16
  rw [hdrop, hsign]
  dsimp only
  rw [hplain, hdigits]
  simp

end Js
