/-
The two texts of a target on the page, and the target the contract has.

# Big-endian hex

A number of `2 * len` hex digits is its bytes in hex, the highest first.
Both decoders write 32 bytes of some number that way, so their texts are
compared as numbers.

# Where they part

`nbitsToTarget` drops the bytes of the mantissa that fall off either end,
as the contract's shifts do. `decodeNbits` drops what is above 256 bits
and nothing below: an exponent under 3 leaves its mantissa where it was.
-/
import M1n3Protocol.Proofs.CompactTargets
import M1n3Protocol.Web.Explorer

namespace M1n3Protocol.Web.Explorer

open Js
open Hex (encode_append length_encode)

-- ============================================================== big-endian

/-- The bytes of a number, the highest first. -/
def bigEndian (len n : Nat) : Bytes := (leBytes len n).reverse

theorem length_bigEndian (len n : Nat) : (bigEndian len n).length = len := by
  rw [bigEndian, List.length_reverse, length_leBytes]

theorem bigEndian_succ (len n : Nat) :
    bigEndian (len + 1) n = bigEndian len (n / 256) ++ [BitVec.ofNat 8 n] :=
  List.reverse_cons

theorem bigEndian_leNat {bs : Bytes} {len : Nat} (h : bs.length = len) :
    bigEndian len (leNat bs.reverse) = bs := by
  rw [bigEndian, ← h, ← List.length_reverse, leBytes_leNat,
    List.reverse_reverse]

theorem leNat_leBytes_mod (len n : Nat) :
    leNat (leBytes len n) = n % 256 ^ len := by
  induction len generalizing n with
  | zero => rw [Nat.pow_zero, Nat.mod_one, leBytes, leNat]
  | succ len ih =>
      have hpow : 256 ^ (len + 1) = 256 * 256 ^ len := Nat.pow_succ'
      rw [leBytes, leNat, ih, BitVec.toNat_ofNat, hpow, Nat.mod_mul]

/-- What is above the bytes is dropped. -/
theorem bigEndian_mod (len n : Nat) :
    bigEndian len (n % 256 ^ len) = bigEndian len n := by
  rw [← leNat_leBytes_mod, bigEndian, bigEndian]
  congr 1
  have hbytes := leBytes_leNat (leBytes len n)
  rw [length_leBytes] at hbytes
  exact hbytes

theorem bigEndian_inj {len m n : Nat} (hm : m < 256 ^ len)
    (hn : n < 256 ^ len) (h : bigEndian len m = bigEndian len n) : m = n := by
  have hbytes := congrArg leNat (List.reverse_inj.mp h)
  rw [leNat_leBytes hm, leNat_leBytes hn] at hbytes
  exact hbytes

theorem bigEndian_mul (len n s : Nat) :
    bigEndian (len + s) (n * 256 ^ s)
      = bigEndian len n ++ List.replicate s 0 := by
  induction s with
  | zero => rw [Nat.pow_zero, Nat.mul_one, Nat.add_zero]; simp
  | succ s ih =>
      have hdiv : n * 256 ^ (s + 1) / 256 = n * 256 ^ s := by
        rw [Nat.pow_succ, ← Nat.mul_assoc, Nat.mul_div_cancel _ (by decide)]
      have hlow : BitVec.ofNat 8 (n * 256 ^ (s + 1)) = 0 := by
        rw [← BitVec.toNat_inj, BitVec.toNat_ofNat, Nat.pow_succ,
          ← Nat.mul_assoc]
        exact Nat.mul_mod_left _ 256
      rw [← Nat.add_assoc, bigEndian_succ, hdiv, ih, hlow,
        List.replicate_succ', List.append_assoc]

theorem bigEndian_zeros {len n : Nat} (h : n < 256 ^ len) (s : Nat) :
    bigEndian (s + len) n = List.replicate s 0 ++ bigEndian len n := by
  have hvalue : leNat (List.replicate s 0 ++ bigEndian len n).reverse
      = n := by
    rw [List.reverse_append, List.reverse_replicate, bigEndian,
      List.reverse_reverse, leNat_append, leNat_leBytes h,
      leNat_replicate_zero]
    rfl
  have hlen : (List.replicate s 0 ++ bigEndian len n).length = s + len := by
    rw [List.length_append, List.length_replicate, length_bigEndian]
  have hback := bigEndian_leNat hlen
  rw [hvalue] at hback
  exact hback

theorem bigEndian_drop (s len n : Nat) :
    (bigEndian (s + len) n).drop s = bigEndian len n := by
  rw [bigEndian, List.drop_reverse, length_leBytes, Nat.add_sub_cancel_left,
    take_leBytes n (Nat.le_add_left len s), bigEndian]

theorem encode_zeros (s : Nat) :
    Hex.encode (List.replicate s 0) = zeros s := by
  induction s with
  | zero => rfl
  | succ s ih =>
      rw [List.replicate_succ, Hex.encode_cons, ih]
      rfl

theorem encode_drop (s : Nat) (bs : Bytes) (h : s ≤ bs.length) :
    (Hex.encode bs).drop (2 * s) = Hex.encode (bs.drop s) := by
  have hsplit : Hex.encode bs
      = Hex.encode (bs.take s) ++ Hex.encode (bs.drop s) := by
    rw [← encode_append, List.take_append_drop]
  have hlen : (Hex.encode (bs.take s)).length = 2 * s := by
    rw [length_encode, List.length_take, Nat.min_eq_left h]
  rw [hsplit, ← hlen, List.drop_left]

-- ============================================================== the digits

/-- One more digit than one digit at least. -/
theorem padded_succ (k n : Nat) :
    Hex.padded (k + 2) n
      = Hex.padded (k + 1) (n / 16) ++ [(n % 16).digitChar] := by
  unfold Hex.padded
  dsimp only
  rw [Nat.toDigits_eq_if (by decide)]
  split
  case isTrue h =>
      rw [Nat.div_eq_of_lt h, Nat.mod_eq_of_lt h]
      show List.replicate (k + 1) '0' ++ [n.digitChar]
        = (List.replicate k '0' ++ ['0']) ++ [n.digitChar]
      rw [List.replicate_succ']
  case isFalse =>
      rw [List.length_append, List.length_singleton, ← List.append_assoc]
      congr 3
      omega

theorem encode_byte (n : Nat) : Hex.encode [BitVec.ofNat 8 n]
    = [(n / 16 % 16).digitChar, (n % 16).digitChar] := by
  have hn : (BitVec.ofNat 8 n).toNat = n % 256 := BitVec.toNat_ofNat ..
  show [((BitVec.ofNat 8 n).toNat / 16).digitChar,
    ((BitVec.ofNat 8 n).toNat % 16).digitChar] = _
  rw [hn, show n % 256 / 16 = n / 16 % 16 by omega,
    show n % 256 % 16 = n % 16 by omega]

/-- A number that fits is written byte by byte. -/
theorem padded_eq_encode {len n : Nat} (h : n < 256 ^ (len + 1)) :
    Hex.padded (2 * len + 2) n = Hex.encode (bigEndian (len + 1) n) := by
  induction len generalizing n with
  | zero =>
      have hsmall : n / 16 < 16 := by omega
      rw [padded_succ, bigEndian_succ, encode_append, encode_byte,
        Nat.mod_eq_of_lt hsmall, Hex.padded,
        Nat.toDigits_of_lt_base hsmall]
      rfl
  | succ len ih =>
      have hhigh : n / 256 < 256 ^ (len + 1) := by
        rw [Nat.div_lt_iff_lt_mul (by decide), ← Nat.pow_succ]
        exact h
      have hsplit : n / 16 / 16 = n / 256 := Nat.div_div_eq_div_mul n 16 16
      show Hex.padded (2 * len + 1 + 1 + 2) n = _
      rw [padded_succ, padded_succ, hsplit, ih hhigh,
        bigEndian_succ (len + 1) n, encode_append, encode_byte,
        List.append_assoc]
      rfl

-- ============================================================ as they stand

/-- Mantissa and exponent as the page reads them. -/
theorem bitAnd_mantissa {n : Nat} (h : n < 2 ^ 32) :
    bitAnd n 0xffffff = (n % 2 ^ 24 : Nat) := by
  have hmask : (toInt32 0xffffff).toNat = 2 ^ 24 - 1 := by decide
  have hnat : (toInt32 n &&& toInt32 0xffffff).toNat = n % 2 ^ 24 := by
    rw [BitVec.toNat_and, hmask, Nat.and_two_pow_sub_one_eq_mod,
      toInt32_natCast, BitVec.toNat_ofNat, Nat.mod_eq_of_lt h]
  unfold bitAnd
  rw [BitVec.toInt_eq_toNat_of_lt (by rw [hnat]; omega), hnat]

theorem exponent_eq {n : Nat} (h : n < 2 ^ 32) :
    bitAnd (shiftRightZero n 24) 0xff = (n / 2 ^ 24 : Nat) := by
  rw [shiftRightZero_natCast h, bitAnd_byte (by omega)]
  congr 1
  omega

/-- The mantissa behind as many zeros as the exponent says, cut to 32
bytes. -/
theorem decodeNbits_eq {n : Nat} (h : n < 2 ^ 32) :
    decodeNbits n = Hex.encode
      (bigEndian 32 (n % 2 ^ 24 * 256 ^ (n / 2 ^ 24 - 3))) := by
  generalize hm : n % 2 ^ 24 = m
  generalize hs : n / 2 ^ 24 - 3 = s
  have hmlt : m < 256 ^ (2 + 1) := by omega
  have hdigits : padStart 6 (Nat.toDigits 16 ((m : Nat) : Int).toNat)
      = Hex.encode (bigEndian 3 m) := padded_eq_encode hmlt
  have hshift : (if (0 : Int) < (n / 2 ^ 24 : Nat) - 3 then
      Hex.encode (bigEndian 3 m)
        ++ zeros (((n / 2 ^ 24 : Nat) : Int) - 3).toNat
      else Hex.encode (bigEndian 3 m))
        = Hex.encode (bigEndian (3 + s) (m * 256 ^ s)) := by
    rw [bigEndian_mul, encode_append, encode_zeros]
    split
    case isTrue =>
        rw [show (((n / 2 ^ 24 : Nat) : Int) - 3).toNat = s by omega]
    case isFalse =>
        have hzero : s = 0 := by omega
        rw [hzero, zeros, List.replicate_zero, List.append_nil]
  have hlen : (Hex.encode (bigEndian (3 + s) (m * 256 ^ s))).length
      = 2 * (3 + s) := by
    rw [length_encode, length_bigEndian]
  have hfit : m * 256 ^ s < 256 ^ (3 + s) := by
    rw [Nat.pow_add]
    exact Nat.mul_lt_mul_of_pos_right hmlt (Nat.pow_pos (by decide))
  unfold decodeNbits
  rw [exponent_eq h, bitAnd_mantissa h, hm]
  dsimp only
  rw [hdigits, hshift, hlen]
  split
  case isTrue hlong =>
      have hsplit : 3 + s = s - 29 + 32 := by omega
      rw [show 2 * (3 + s) - 64 = 2 * (s - 29) by omega, encode_drop _ _
        (by rw [length_bigEndian]; omega), hsplit, bigEndian_drop]
  case isFalse hshort =>
      have hsplit : 32 = 29 - s + (3 + s) := by omega
      have hpad : 64 - 2 * (3 + s) = 2 * (29 - s) := by omega
      rw [padStart, hlen, hpad, hsplit, bigEndian_zeros hfit, encode_append,
        encode_zeros, zeros]

-- =========================================================== byte by byte

/-- What a byte is worth at an index, in 32 bytes. -/
def worth (i : Int) : Nat := if 0 ≤ i ∧ i < 32 then 256 ^ (31 - i.toNat) else 0

theorem length_store (target : Bytes) (i x : Int) :
    (store target i x).length = target.length := by
  unfold store
  split
  case isTrue => exact List.length_set
  case isFalse => rfl

theorem getD_store {target : Bytes} {i : Int} {j : Nat} (x : Int)
    (h : i ≠ j) : (store target i x).getD j 0 = target.getD j 0 := by
  unfold store
  split
  case isTrue hin =>
      rw [List.getD_eq_getElem?_getD, List.getElem?_set_ne (by omega),
        List.getD_eq_getElem?_getD]
  case isFalse => rfl

theorem reverse_set {target : Bytes} {i : Nat} (h : i < target.length)
    (b : BitVec 8) :
    (target.set i b).reverse
      = target.reverse.set (target.length - 1 - i) b := by
  refine List.ext_getElem ?_ fun j hj _ => ?_
  · simp only [List.length_reverse, List.length_set]
  · rw [List.length_reverse, List.length_set] at hj
    rw [List.getElem_reverse, List.getElem_set, List.getElem_set,
      List.getElem_reverse]
    simp only [List.length_set]
    by_cases hji : i = target.length - 1 - j
    · rw [if_pos hji, if_pos (by omega)]
    · rw [if_neg hji, if_neg (by omega)]

/-- A store over a zero byte. -/
theorem leNat_store {target : Bytes} (hlen : target.length = 32) {i : Int}
    (hz : 0 ≤ i → target.getD i.toNat 0 = 0) (x : Nat) :
    leNat (store target i x).reverse
      = leNat target.reverse + worth i * (x % 256) := by
  unfold store worth
  split
  case isTrue hin =>
      have hlt : i.toNat < target.length := by omega
      have hrev : 31 - i.toNat < target.reverse.length := by
        rw [List.length_reverse]
        omega
      have hzero : target.reverse[31 - i.toNat] = 0 := by
        have hget := hz hin.1
        rw [List.getD_eq_getElem?_getD, List.getElem?_eq_getElem hlt] at hget
        rw [List.getElem_reverse, ← hget, Option.getD_some]
        congr 1
        omega
      rw [reverse_set hlt, hlen, leNat_set hrev hzero, uint8_natCast,
        BitVec.toNat_ofNat]
  case isFalse => rw [Nat.zero_mul, Nat.add_zero]

/-- Three bytes at an exponent are a mantissa placed there. -/
theorem worth_bytes {m e : Nat} (hm : m < 2 ^ 24) (hpos : 0 < e)
    (he : e ≤ 34) :
    worth (32 - e) * (m / 2 ^ 16 % 256)
        + worth (32 - e + 1) * (m / 2 ^ 8 % 256)
        + worth (32 - e + 2) * (m % 256)
      = placed m e := by
  unfold placed
  by_cases hsmall : e ≤ 3
  · have hcases : e = 1 ∨ e = 2 ∨ e = 3 := by omega
    rw [if_pos hsmall]
    rcases hcases with rfl | rfl | rfl
    · show 1 * _ + 0 * _ + 0 * _ = m / 65536
      omega
    · show 256 * _ + 1 * _ + 0 * _ = m / 256
      omega
    · show 65536 * _ + 256 * _ + 1 * _ = m / 1
      omega
  · rw [if_neg hsmall]
    by_cases hlarge : e ≤ 32
    · generalize hp : 256 ^ (e - 3) = p
      have hbound : m * p < 2 ^ 256 := by
        have hple : 256 ^ (e - 3) ≤ 256 ^ 29 :=
          Nat.pow_le_pow_right (by decide) (by omega)
        rw [hp] at hple
        calc m * p < 2 ^ 24 * 256 ^ 29 :=
              Nat.mul_lt_mul_of_lt_of_le hm hple (by decide)
          _ = 2 ^ 256 := by decide
      have hworth : ∀ j : Nat, j ≤ 2 →
          worth (32 - e + j) = p * 256 ^ (2 - j) := by
        intro j hj
        rw [worth, if_pos (by omega), ← hp, ← Nat.pow_add]
        congr 1
        omega
      have htop := hworth 0 (by omega)
      have hmid := hworth 1 (by omega)
      have hlow := hworth 2 (by omega)
      rw [Int.natCast_zero, Int.add_zero] at htop
      rw [htop, show (32 - e + 1 : Int) = 32 - e + (1 : Nat) from rfl, hmid,
        show (32 - e + 2 : Int) = 32 - e + (2 : Nat) from rfl, hlow,
        Nat.mod_eq_of_lt hbound, Nat.mul_assoc, Nat.mul_assoc,
        Nat.mul_assoc, ← Nat.mul_add, ← Nat.mul_add, Nat.mul_comm m p]
      congr 1
      omega
    · have hcases : e = 33 ∨ e = 34 := by omega
      rcases hcases with rfl | rfl
      · show 0 * _ + 256 ^ 31 * _ + 256 ^ 30 * _ = m * 256 ^ 30 % 2 ^ 256
        omega
      · show 0 * _ + 0 * _ + 256 ^ 31 * _ = m * 256 ^ 31 % 2 ^ 256
        omega

theorem nbitsToTarget_eq {n : Nat} (h : n < 2 ^ 32) (he : n / 2 ^ 24 ≤ 34) :
    nbitsToTarget n = Hex.encode
      (bigEndian 32 (placed (n % 2 ^ 24) (n / 2 ^ 24))) := by
  have hm : n % 2 ^ 24 < 2 ^ 24 := Nat.mod_lt n (by decide)
  unfold nbitsToTarget
  rw [exponent_eq h, bitAnd_mantissa h]
  generalize n % 2 ^ 24 = m at hm
  generalize n / 2 ^ 24 = e at he
  dsimp only
  by_cases hnone : m = 0 ∨ e = 0
  · have hzero : placed m e = 0 := by
      rcases hnone with rfl | rfl
      · exact placed_zero e
      · exact Nat.div_eq_of_lt hm
    rw [if_pos (by omega), hzero]
    rfl
  · rw [if_neg (by omega), shiftRight_byte (by omega) (by decide),
      shiftRight_byte (by omega) (by decide), bitAnd_byte (by omega)]
    have hlen : (List.replicate 32 0 : Bytes).length = 32 := rfl
    have hblank : ∀ j, (List.replicate 32 0 : Bytes).getD j 0 = 0 := by
      intro j
      rw [List.getD_eq_getElem?_getD, List.getElem?_replicate]
      split <;> rfl
    generalize ht : store (List.replicate 32 0) (32 - e) _ = first
    generalize hu : store first (32 - e + 1) _ = second
    have hlen₁ : first.length = 32 := by rw [← ht, length_store, hlen]
    have hlen₂ : second.length = 32 := by rw [← hu, length_store, hlen₁]
    have hzero₁ : 0 ≤ (32 - e + 1 : Int) →
        first.getD (32 - e + 1 : Int).toNat 0 = 0 := by
      intro hpos
      rw [← ht, getD_store _ (by omega), hblank]
    have hzero₂ : 0 ≤ (32 - e + 2 : Int) →
        second.getD (32 - e + 2 : Int).toNat 0 = 0 := by
      intro hpos
      rw [← hu, getD_store _ (by omega), ← ht, getD_store _ (by omega),
        hblank]
    have hlast := leNat_store hlen₂ hzero₂ (m % 256)
    have hmid := leNat_store hlen₁ hzero₁ (m / 2 ^ 8 % 256)
    have hfirst := leNat_store hlen (i := 32 - e)
      (fun _ => hblank _) (m / 2 ^ 16 % 256)
    rw [hu] at hmid
    rw [ht] at hfirst
    have hblankNat : leNat (List.replicate 32 0 : Bytes).reverse = 0 := by
      rw [List.reverse_replicate, leNat_replicate_zero]
    have hvalue : leNat (store second (32 - e + 2) ((m % 256 : Nat) :
        Int)).reverse = placed m e := by
      rw [hlast, hmid, hfirst, hblankNat, Nat.zero_add, Nat.mod_mod,
        Nat.mod_mod, Nat.mod_mod, worth_bytes hm (by omega) he]
    rw [← hvalue, bigEndian_leNat (by rw [length_store, hlen₂])]

-- ============================================================ the contract

theorem toNat_parts (nbits : U32) :
    nbits.toNat % 2 ^ 24 = signedCoefficient nbits
      ∧ nbits.toNat / 2 ^ 24 = CompactTarget.size nbits := by
  have hmask : (0x00FFFFFF : U32).toNat = 2 ^ 24 - 1 := rfl
  constructor
  · rw [signedCoefficient, BitVec.toNat_and, hmask,
      Nat.and_two_pow_sub_one_eq_mod]
  · rw [CompactTarget.size, BitVec.toNat_ushiftRight,
      Nat.shiftRight_eq_div_pow]

/-- A text of 32 bytes is that of a target if they are the same number. -/
theorem encode_eq_padded {n : Nat} (hn : n < 256 ^ 32) (t : U256) :
    Hex.encode (bigEndian 32 n) = Hex.padded 64 t.toNat ↔ n = t.toNat := by
  have ht : t.toNat < 256 ^ (31 + 1) := t.isLt
  rw [show 64 = 2 * 31 + 2 from rfl, padded_eq_encode ht]
  constructor
  · intro h
    have hbytes := congrArg Hex.decode h
    rw [Hex.decode_encode, Hex.decode_encode] at hbytes
    exact bigEndian_inj hn ht (Option.some.inj hbytes)
  · rintro rfl
    rfl

/-- The sign bit moves a target unless it falls off an end. -/
theorem placed_sign {m e : Nat} (hm : m < 2 ^ 23) :
    placed (m + 2 ^ 23) e = placed m e ↔ e = 0 ∨ 33 ≤ e := by
  rcases Nat.lt_or_ge 32 e with hhi | hhi
  · exact iff_of_true (placed_overflow hhi) (.inr hhi)
  · unfold placed
    by_cases hsmall : e ≤ 3
    · rw [if_pos hsmall, if_pos hsmall]
      have hcases : e = 0 ∨ e = 1 ∨ e = 2 ∨ e = 3 := by omega
      rcases hcases with rfl | rfl | rfl | rfl <;> omega
    · have hple : 256 ^ (e - 3) ≤ 256 ^ 29 :=
        Nat.pow_le_pow_right (by decide) (by omega)
      have hppos : 0 < 256 ^ (e - 3) := Nat.pow_pos (by decide)
      have hfit : ∀ {k}, k < 2 ^ 24 → k * 256 ^ (e - 3) < 2 ^ 256 := by
        intro k hk
        calc k * 256 ^ (e - 3) < 2 ^ 24 * 256 ^ 29 :=
              Nat.mul_lt_mul_of_lt_of_le hk hple (by decide)
          _ = 2 ^ 256 := by decide
      rw [if_neg hsmall, if_neg hsmall, Nat.mod_eq_of_lt (hfit (by omega)),
        Nat.mod_eq_of_lt (hfit (by omega)), Nat.mul_left_inj hppos.ne']
      omega

/-- A text is the contract's target if there is one and it is this
number. -/
theorem shows_target_iff {nbits : U32} {n : Nat} (hn : n < 256 ^ 32) :
    (∃ t, bitsToTarget nbits = .ok t
        ∧ Hex.encode (bigEndian 32 n) = Hex.padded 64 t.toNat)
      ↔ CompactTarget.size nbits ≤ 34
        ∧ n = placed (coefficient nbits) (CompactTarget.size nbits) := by
  rcases Nat.lt_or_ge 34 (CompactTarget.size nbits) with hwide | hle
  · refine iff_of_false ?_ (fun h => by omega)
    rintro ⟨t, ht, -⟩
    rw [bitsToTarget_of_wide hwide] at ht
    cases ht
  · obtain ⟨t, ht, hval⟩ := bitsToTarget_spec hle
    constructor
    · rintro ⟨u, hu, htext⟩
      rw [ht] at hu
      cases hu
      exact ⟨hle, ((encode_eq_padded hn t).mp htext).trans hval⟩
    · rintro ⟨-, hn'⟩
      exact ⟨t, ht, (encode_eq_padded hn t).mpr (hn'.trans hval.symm)⟩

theorem nbitsToTarget_shows_iff (nbits : U32) :
    (∃ t, bitsToTarget nbits = .ok t
        ∧ nbitsToTarget nbits.toNat = Hex.padded 64 t.toNat)
      ↔ CompactTarget.size nbits ≤ 34
        ∧ (nbits &&& 0x00800000 = 0 ∨ CompactTarget.size nbits = 0
          ∨ 33 ≤ CompactTarget.size nbits) := by
  have hlt : nbits.toNat < 2 ^ 32 := nbits.isLt
  obtain ⟨hmantissa, hexponent⟩ := toNat_parts nbits
  have hsigned := signedCoefficient_eq nbits
  have hcoeff := coefficient_lt nbits
  have hsignedLt := signedCoefficient_lt nbits
  rcases Nat.lt_or_ge 34 (CompactTarget.size nbits) with hwide | hle
  · refine iff_of_false ?_ (fun h => by omega)
    rintro ⟨t, ht, -⟩
    rw [bitsToTarget_of_wide hwide] at ht
    cases ht
  · have hfit : placed (signedCoefficient nbits)
        (CompactTarget.size nbits) < 256 ^ 32 := by
      unfold placed
      split
      case isTrue =>
          exact Nat.lt_of_le_of_lt (Nat.div_le_self _ _)
            (Nat.lt_trans hsignedLt (by decide))
      case isFalse => exact Nat.mod_lt _ (by decide)
    rw [nbitsToTarget_eq hlt (by omega), hmantissa, hexponent,
      shows_target_iff hfit]
    refine and_congr_right fun _ => ?_
    rw [hsigned]
    split
    case isTrue hsign => exact iff_of_true rfl (.inl hsign)
    case isFalse hsign =>
        rw [placed_sign hcoeff]
        exact (or_iff_right hsign).symm

theorem decodeNbits_shows_iff (nbits : U32) :
    (∃ t, bitsToTarget nbits = .ok t
        ∧ decodeNbits nbits.toNat = Hex.padded 64 t.toNat)
      ↔ CompactTarget.size nbits ≤ 34
        ∧ (nbits &&& 0x00FFFFFF = 0 ∨ 3 ≤ CompactTarget.size nbits
          ∧ (nbits &&& 0x00800000 = 0
            ∨ 33 ≤ CompactTarget.size nbits)) := by
  have hlt : nbits.toNat < 2 ^ 32 := nbits.isLt
  obtain ⟨hmantissa, hexponent⟩ := toNat_parts nbits
  have hsigned := signedCoefficient_eq nbits
  have hcoeff := coefficient_lt nbits
  have hsignedLt := signedCoefficient_lt nbits
  have hwrapped : signedCoefficient nbits
      * 256 ^ (CompactTarget.size nbits - 3) % 256 ^ 32 < 256 ^ 32 :=
    Nat.mod_lt _ (by decide)
  rw [decodeNbits_eq hlt, hmantissa, hexponent, ← bigEndian_mod,
    shows_target_iff hwrapped]
  refine and_congr_right fun hle => ?_
  have hzero : nbits &&& 0x00FFFFFF = 0 ↔ signedCoefficient nbits = 0 := by
    rw [signedCoefficient, ← BitVec.toNat_inj]
    rfl
  rw [hzero]
  rcases Nat.lt_or_ge (CompactTarget.size nbits) 3 with hlo | hlo
  · -- the mantissa is not moved, and the contract's is
    have hshift : CompactTarget.size nbits - 3 = 0 := by omega
    have hplaced : placed (coefficient nbits) (CompactTarget.size nbits)
        ≤ coefficient nbits / 256 := by
      rw [placed, if_pos (by omega)]
      exact Nat.div_le_div_left
        (Nat.pow_le_pow_right (n := 256) (by decide)
          (show 1 ≤ 3 - CompactTarget.size nbits by omega)) (by decide)
    have hle' : coefficient nbits ≤ signedCoefficient nbits := by omega
    rw [hshift, Nat.pow_zero, Nat.mul_one,
      Nat.mod_eq_of_lt (Nat.lt_trans hsignedLt (by decide))]
    constructor
    · intro h
      left
      omega
    · rintro (h | ⟨h, -⟩)
      · have hnone : coefficient nbits = 0 := by omega
        rw [h, hnone, placed_zero]
      · omega
  · have hplaced : signedCoefficient nbits
        * 256 ^ (CompactTarget.size nbits - 3) % 256 ^ 32
          = placed (signedCoefficient nbits) (CompactTarget.size nbits) := by
      unfold placed
      split
      case isTrue h =>
          have hthree : CompactTarget.size nbits = 3 := by omega
          rw [hthree]
          show signedCoefficient nbits * 1 % 256 ^ 32
            = signedCoefficient nbits / 1
          omega
      case isFalse => rfl
    rw [hplaced, hsigned]
    split
    case isTrue hsign =>
        exact iff_of_true rfl (.inr ⟨hlo, .inl hsign⟩)
    case isFalse hsign =>
        rw [placed_sign hcoeff]
        constructor
        · rintro (h | h)
          · omega
          · exact .inr ⟨hlo, .inr h⟩
        · rintro (h | ⟨-, h | h⟩)
          · omega
          · exact absurd h hsign
          · exact .inr h

/-- Byte by byte the page has the contract's target exactly where the sign
bit is clear or falls off an end; by zeros, where moreover the exponent is
at least 3, or the mantissa zero. -/
theorem page_targets (nbits : U32) :
    ((∃ t, bitsToTarget nbits = .ok t
        ∧ nbitsToTarget nbits.toNat = Hex.padded 64 t.toNat)
      ↔ CompactTarget.size nbits ≤ 34
        ∧ (nbits &&& 0x00800000 = 0 ∨ CompactTarget.size nbits = 0
          ∨ 33 ≤ CompactTarget.size nbits))
    ∧ ((∃ t, bitsToTarget nbits = .ok t
        ∧ decodeNbits nbits.toNat = Hex.padded 64 t.toNat)
      ↔ CompactTarget.size nbits ≤ 34
        ∧ (nbits &&& 0x00FFFFFF = 0 ∨ 3 ≤ CompactTarget.size nbits
          ∧ (nbits &&& 0x00800000 = 0
            ∨ 33 ≤ CompactTarget.size nbits))) :=
  ⟨nbitsToTarget_shows_iff nbits, decodeNbits_shows_iff nbits⟩

end M1n3Protocol.Web.Explorer
