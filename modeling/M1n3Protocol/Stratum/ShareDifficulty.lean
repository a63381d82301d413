/-
The stratum server's difficulty of a hash, as a number.

The server reads the eight top bytes of a hash and divides the
difficulty-1 target by them at their place, and where the quotient is too
large for its arithmetic it answers the greatest number there is. So it
never answers more than the contract does, up to the contract's cap.
-/
import M1n3Protocol.Stratum.Submit

namespace M1n3Protocol

-- ============================================================ the top bytes

theorem significantBytes_succ (hash : Bytes32) {i : Nat} (hi : i + 1 ≤ 32) :
    significantBytes hash (i + 1) hi
      = if hash[i] = 0 then significantBytes hash i (Nat.le_of_succ_le hi)
        else i + 1 := rfl

theorem significantBytes_spec (hash : Bytes32) : ∀ (n : Nat) (hn : n ≤ 32),
    hash.nat < 256 ^ n →
      hash.nat < 256 ^ significantBytes hash n hn
        ∧ (0 < significantBytes hash n hn →
          256 ^ (significantBytes hash n hn - 1) ≤ hash.nat) := by
  intro n
  induction n with
  | zero =>
      intro _ hlt
      exact ⟨hlt, fun h => absurd h (Nat.lt_irrefl 0)⟩
  | succ i ih =>
      intro hn hlt
      have hdigit := hash.nat_mod_succ hn
      rw [Nat.mod_eq_of_lt hlt] at hdigit
      rw [significantBytes_succ]
      split
      case isTrue hz =>
          apply ih
          rw [hdigit, hz]
          show 256 ^ i * 0 + hash.nat % 256 ^ i < 256 ^ i
          rw [Nat.mul_zero, Nat.zero_add]
          exact Nat.mod_lt _ (Nat.pow_pos (by decide))
      case isFalse hz =>
          refine ⟨hlt, fun _ => ?_⟩
          have hpos : 0 < hash[i].toNat :=
            Nat.pos_of_ne_zero fun h => hz (BitVec.eq_of_toNat_eq h)
          rw [Nat.add_sub_cancel, hdigit]
          exact Nat.le_trans (Nat.le_mul_of_pos_right _ hpos)
            (Nat.le_add_right _ _)

theorem significantBytes_le (hash : Bytes32) : ∀ (n : Nat) (hn : n ≤ 32),
    significantBytes hash n hn ≤ n := by
  intro n
  induction n with
  | zero =>
      intro _
      exact Nat.le_refl 0
  | succ i ih =>
      intro hn
      rw [significantBytes_succ]
      split
      case isTrue => exact Nat.le_succ_of_le (ih (by omega))
      case isFalse => exact Nat.le_refl _

/-- Bytes pushed one after the other are the number they spell from the
other end. -/
theorem toNat_foldl_push (bs : Bytes) (v : U64)
    (h : v.toNat * 256 ^ bs.length + leNat bs.reverse < 2 ^ 64) :
    (bs.foldl (fun (v : U64) b => (v <<< 8) ||| b.setWidth 64) v).toNat
      = v.toNat * 256 ^ bs.length + leNat bs.reverse := by
  induction bs generalizing v with
  | nil =>
      rw [List.foldl_nil, List.reverse_nil, List.length_nil]
      show v.toNat = v.toNat * 1 + 0
      rw [Nat.mul_one, Nat.add_zero]
  | cons b bs ih =>
      have hsplit : v.toNat * 256 ^ (b :: bs).length
          + leNat (b :: bs).reverse
          = (v.toNat * 256 + b.toNat) * 256 ^ bs.length
            + leNat bs.reverse := by
        rw [List.reverse_cons, leNat_append, List.length_reverse,
          List.length_cons, Nat.pow_succ]
        show v.toNat * (256 ^ bs.length * 256)
          + (leNat bs.reverse + 256 ^ bs.length * (b.toNat + 256 * 0)) = _
        rw [Nat.mul_zero, Nat.add_zero, Nat.add_mul, Nat.mul_assoc,
          Nat.mul_comm (256 ^ bs.length) 256,
          Nat.mul_comm (256 ^ bs.length) b.toNat]
        omega
      rw [hsplit] at h ⊢
      have hone : 1 ≤ 256 ^ bs.length := Nat.pow_pos (by decide)
      have hfit : v.toNat * 256 + b.toNat < 2 ^ 64 := by
        refine Nat.lt_of_le_of_lt ?_ h
        exact Nat.le_trans (Nat.le_mul_of_pos_right _ hone)
          (Nat.le_add_right _ _)
      have hpush : ((v <<< 8) ||| b.setWidth 64).toNat
          = v.toNat * 256 + b.toNat :=
        toNat_push v b (by omega)
      rw [List.foldl_cons, ih _ (by rw [hpush]; exact h), hpush]

/-- The window over the eight top bytes. -/
theorem toNat_window {hash : Bytes32} {k : Nat} (hk : k + 8 ≤ 32)
    (hlt : hash.nat < 256 ^ (k + 8)) :
    ((((hash.toList.take (k + 8)).reverse.take 8).foldl
      (fun (v : U64) b => (v <<< 8) ||| b.setWidth 64) 0).toNat)
      = hash.nat / 256 ^ k := by
  have hlen : (hash.toList.take (k + 8)).length = k + 8 := by
    rw [List.length_take, Vector.length_toList, Nat.min_eq_left hk]
  have htake : leNat (hash.toList.take (k + 8)) = hash.nat := by
    have hsplit := leNat_append (hash.toList.take (k + 8))
      (hash.toList.drop (k + 8))
    rw [List.take_append_drop, hlen] at hsplit
    have hsplit : hash.nat = leNat (hash.toList.take (k + 8))
      + 256 ^ (k + 8) * leNat (hash.toList.drop (k + 8)) := hsplit
    rcases Nat.eq_zero_or_pos (leNat (hash.toList.drop (k + 8)))
      with hz | hpos
    · rw [hz, Nat.mul_zero] at hsplit
      exact hsplit.symm
    · have hle := Nat.le_mul_of_pos_right (256 ^ (k + 8)) hpos
      omega
  have hbytes : (hash.toList.take (k + 8)).reverse.take 8
      = ((hash.toList.take (k + 8)).drop k).reverse := by
    rw [List.take_reverse, hlen, Nat.add_sub_cancel]
  have hval : leNat ((hash.toList.take (k + 8)).drop k)
      = hash.nat / 256 ^ k := by
    rw [leNat_drop (by omega), htake]
  have hfit : hash.nat / 256 ^ k < 2 ^ 64 := by
    rw [Nat.div_lt_iff_lt_mul (Nat.pow_pos (by decide)),
      show (2 : Nat) ^ 64 = 256 ^ 8 by decide, ← Nat.pow_add, Nat.add_comm 8]
    exact hlt
  rw [hbytes, toNat_foldl_push]
  · rw [List.reverse_reverse, hval]
    show 0 * _ + _ = _
    rw [Nat.zero_mul, Nat.zero_add]
  · rw [List.reverse_reverse, hval]
    show 0 * _ + _ < _
    rw [Nat.zero_mul, Nat.zero_add]
    exact hfit

/-- A large hash has more than eight bytes up to its top one. -/
theorem significantBytes_of_large {hash : Bytes32}
    (hlarge : 2 ^ 64 ≤ hash.nat) :
    ∃ k, significantBytes hash 32 Bytes32.width_le = k + 8 ∧ k + 8 ≤ 32
      ∧ 256 ^ (k + 7) ≤ hash.nat ∧ hash.nat < 256 ^ (k + 8) := by
  have hspec := significantBytes_spec hash 32 Bytes32.width_le hash.nat_lt
  have hle := significantBytes_le hash 32 Bytes32.width_le
  have hbig : 8 < significantBytes hash 32 Bytes32.width_le := by
    by_contra hsmall
    have hpow : (256 : Nat) ^ significantBytes hash 32 Bytes32.width_le
        ≤ 256 ^ 8 :=
      Nat.pow_le_pow_right (by decide) (Nat.not_lt.mp hsmall)
    have h64 : (256 : Nat) ^ 8 = 2 ^ 64 := by decide
    omega
  obtain ⟨k, hk⟩ : ∃ k, significantBytes hash 32 Bytes32.width_le = k + 8 :=
    ⟨_, (Nat.sub_add_cancel (Nat.le_of_lt hbig)).symm⟩
  rw [hk] at hspec hle
  exact ⟨k, hk, hle, hspec.2 (by omega), hspec.1⟩

/-- With few bytes below the window, the quotient is above the cap. -/
theorem quotient_of_few {k window : Nat} (hcut : 112 ≤ 208 - 8 * k)
    (hpos : 0 < window) (hlt : window < 2 ^ 64) :
    1_000_000_000_000_000 ≤ 0xFFFF * 2 ^ (208 - 8 * k) / window := by
  have hmost : (0xFFFF * 2 ^ 112 : Nat) ≤ 0xFFFF * 2 ^ (208 - 8 * k) :=
    Nat.mul_le_mul_left _ (Nat.pow_le_pow_right (by decide) hcut)
  refine Nat.le_trans ?_ (Nat.div_le_div_left (Nat.le_of_lt hlt) hpos)
  refine Nat.le_trans ?_ (Nat.div_le_div_right hmost)
  decide

section Answer

variable {hash : Bytes32} {k : Nat}

/-- What the server makes of the window, whose place is `208 - 8 * k`. -/
theorem calculateDifficulty_window
    (hk : significantBytes hash 32 Bytes32.width_le = k + 8)
    (hle : k + 8 ≤ 32) (hlt : hash.nat < 256 ^ (k + 8))
    (hpos : 0 < hash.nat / 256 ^ k) :
    calculateDifficultyFromHash hash
      = if 112 ≤ 208 - 8 * k then BitVec.allOnes 64
        else if 2 ^ 64 ≤ 0xFFFF * 2 ^ (208 - 8 * k) / (hash.nat / 256 ^ k)
          then BitVec.allOnes 64
        else BitVec.ofNat 64
          (0xFFFF * 2 ^ (208 - 8 * k) / (hash.nat / 256 ^ k)) := by
  have hwindow := toNat_window hle hlt
  have hexp : (208 : Int) - 8 * ((k + 8 - 8 : Nat) : Int)
      = (208 - 8 * k : Nat) := by
    omega
  have hmin : min 8 (k + 8) = 8 := Nat.min_eq_left (by omega)
  simp only [calculateDifficultyFromHash, hk, hmin]
  generalize ((hash.toList.take (k + 8)).reverse.take 8).foldl
    (fun (v : U64) b => (v <<< 8) ||| b.setWidth 64) 0 = hashVal at hwindow
  have hne : hashVal ≠ 0 := by
    intro hz
    rw [← hwindow, hz] at hpos
    exact Nat.lt_irrefl 0 hpos
  rw [if_neg (by omega), if_neg hne, hexp, Int.toNat_natCast, hwindow]
  by_cases hcut : 112 ≤ 208 - 8 * k
  · rw [if_pos hcut, if_pos (by omega)]
  · rw [if_neg hcut, if_neg (by omega), if_pos (by omega)]

/-- The server's quotient, exactly or as the largest number there is. -/
theorem calculateDifficulty_spec (hlarge : 2 ^ 64 ≤ hash.nat) :
    ∃ k, 256 ^ (k + 7) ≤ hash.nat ∧ hash.nat < 256 ^ (k + 8)
      ∧ ((calculateDifficultyFromHash hash).toNat
            = 0xFFFF * 2 ^ 208 / (hash.nat / 256 ^ k * 256 ^ k)
          ∨ (calculateDifficultyFromHash hash = BitVec.allOnes 64
            ∧ 1_000_000_000_000_000
              ≤ 0xFFFF * 2 ^ 208 / (hash.nat / 256 ^ k * 256 ^ k))) := by
  obtain ⟨k, hk, hle, hge, hlt⟩ := significantBytes_of_large hlarge
  have hpow : (256 : Nat) ^ k * 2 ^ (208 - 8 * k) = 2 ^ 208 := by
    rw [show (256 : Nat) = 2 ^ 8 by rfl, ← Nat.pow_mul, ← Nat.pow_add,
      show 8 * k + (208 - 8 * k) = 208 by omega]
  -- the quotient without the bytes below the window
  have hquot : 0xFFFF * 2 ^ 208 / (hash.nat / 256 ^ k * 256 ^ k)
      = 0xFFFF * 2 ^ (208 - 8 * k) / (hash.nat / 256 ^ k) := by
    rw [← hpow, Nat.mul_left_comm, Nat.mul_comm (hash.nat / 256 ^ k),
      Nat.mul_div_mul_left _ _ (Nat.pow_pos (by decide))]
  have hpos : 0 < hash.nat / 256 ^ k :=
    Nat.div_pos (Nat.le_trans (Nat.pow_le_pow_right (by decide)
      (Nat.le_add_right k 7)) hge) (Nat.pow_pos (by decide))
  refine ⟨k, hge, hlt, ?_⟩
  rw [hquot, calculateDifficulty_window hk hle hlt hpos]
  by_cases hcut : 112 ≤ 208 - 8 * k
  · rw [if_pos hcut]
    refine Or.inr ⟨rfl, quotient_of_few hcut hpos ?_⟩
    rw [← toNat_window hle hlt]
    exact BitVec.isLt _
  · rw [if_neg hcut]
    by_cases hover : 2 ^ 64
        ≤ 0xFFFF * 2 ^ (208 - 8 * k) / (hash.nat / 256 ^ k)
    · rw [if_pos hover]
      exact Or.inr ⟨rfl, Nat.le_trans (by decide) hover⟩
    · rw [if_neg hover, BitVec.toNat_ofNat,
        Nat.mod_eq_of_lt (Nat.not_le.mp hover)]
      exact Or.inl rfl

end Answer

end M1n3Protocol
