/-
The difficulty of a hash, in the contract and in the stratum server, for
every hash.

# The window

Both read the eight top bytes of the hash and divide the difficulty-1
target by them at their place, that is by the hash cut to those bytes.
What is cut off is less than one part in 2^56, and a difficulty has less
than 2^50, so the quotient is off by one at most; and cutting is monotone
where the window moves, since it moves at a power of 256.

# Below eight bytes

The contract reads a hash of fewer bytes whole and then computes where
the window ends from the left, so the subtraction underflows. A hash
below 2^64 is the one kind it does not rate (`difficulty_tight_iff`), and
the one kind the two disagree on (`same_difficulty_iff`).
-/
import M1n3Protocol.Lib.Leading
import M1n3Protocol.Proofs.Target
import M1n3Protocol.Stratum.ShareDifficulty

namespace M1n3Protocol

open Checked Leading

-- =============================================================== clamping

theorem clampDifficulty_succ (a : Nat) :
    clampDifficulty (a + 1) ≤ clampDifficulty a + 1 := by
  unfold clampDifficulty
  rw [if_neg (Nat.succ_ne_zero a)]
  split
  case isTrue ha => omega
  case isFalse => omega

theorem clampDifficulty_of_ge {a : Nat} (h : 1_000_000_000_000_000 ≤ a) :
    clampDifficulty a = 1_000_000_000_000_000 := by
  unfold clampDifficulty
  rw [if_neg (by omega), Nat.min_eq_right h]

-- ============================================================= the window

theorem scanMsb_le {h : Bytes} {i : Nat} :
    ∀ {n}, scanMsb h n = .ok i → i ≤ n := by
  intro n
  induction n with
  | zero =>
      intro hok
      cases hok
      exact Nat.le_refl 0
  | succ n ih =>
      intro hok
      obtain ⟨b, -, hok⟩ := bind_eq_ok.mp hok
      split at hok
      case isTrue => exact Nat.le_succ_of_le (ih hok)
      case isFalse =>
          cases hok
          exact Nat.le_refl _

/-- Wherever the window ends, it is not above the byte the exponent turns
negative at. -/
theorem window_low {h : Bytes} {msb : Nat} {lsb : U64}
    (hmsb : scanMsb h 31 = .ok msb)
    (hlsb : lowByte msb (if 7 ≤ msb then 8 else msb + 1) = .ok lsb) :
    lsb ≤ 26 := by
  have hle := scanMsb_le hmsb
  by_cases h8 : 8 ≤ msb
  · rw [if_pos (by omega)] at hlsb
    obtain ⟨k, hk, hval⟩ := lowByte_of_le h8 (by omega)
    rw [hk] at hlsb
    cases hlsb
    rw [BitVec.le_def, hval]
    show msb - 8 + 1 ≤ 26
    omega
  · have hshort : msb < if 7 ≤ msb then 8 else msb + 1 := by
      split <;> omega
    exact absurd hlsb (lowByte_of_lt hshort (by split <;> omega))

/-- The quotient by the hash cut to its window. -/
theorem difficultyFromHash_cut {h : Bytes} (hlen : h.length = 32)
    (hlarge : 2 ^ 64 ≤ leNat h) :
    ∃ k d, difficultyFromHash h = .ok d ∧ 256 ^ (k + 7) ≤ leNat h
      ∧ leNat h < 256 ^ (k + 8)
      ∧ d.toNat = clampDifficulty (diffOne / cut (256 ^ k) (leNat h)) := by
  obtain ⟨k, d, hd, -, hge, hlt, hval⟩ :=
    difficultyFromHash_of_large hlen hlarge
  exact ⟨k, d, hd, hge, hlt, hval⟩

theorem window_le_cut {k n : Nat} (h : 256 ^ (k + 7) ≤ n) :
    256 ^ 7 * 256 ^ k ≤ cut (256 ^ k) n := by
  apply le_cut (Nat.dvd_mul_left ..)
  rw [← Nat.pow_add, Nat.add_comm 7]
  exact h

/-- The window answers the clamped quotient, or one more. -/
theorem quotient_tight {k n : Nat} (h : 256 ^ (k + 7) ≤ n) :
    clampDifficulty (diffOne / n) ≤ clampDifficulty (diffOne / cut (256 ^ k) n)
      ∧ clampDifficulty (diffOne / cut (256 ^ k) n)
        ≤ clampDifficulty (diffOne / n) + 1 := by
  have hunit : 0 < 256 ^ k := Nat.pow_pos (by decide)
  have hkept := window_le_cut h
  have hpos : 0 < cut (256 ^ k) n :=
    Nat.lt_of_lt_of_le (Nat.mul_pos (by decide) hunit) hkept
  refine ⟨clampDifficulty_mono (div_le_div_cut hpos), ?_⟩
  by_cases hbig : 1_000_000_000_000_000 ≤ diffOne / n
  · rw [clampDifficulty_of_ge hbig]
    exact Nat.le_succ_of_le (clampDifficulty_le _)
  · -- a quotient of 50 bits against the 56 below the top byte kept
    have hsmall : (diffOne / n + 1) * 256 ^ k ≤ cut (256 ^ k) n := by
      refine Nat.le_trans (Nat.mul_le_mul_right _ ?_) hkept
      have hpow : (1_000_000_000_000_000 : Nat) ≤ 256 ^ 7 := by decide
      omega
    exact Nat.le_trans (clampDifficulty_mono (div_cut_le hunit hsmall))
      (clampDifficulty_succ _)

/-- A larger hash leaves a larger number in its window. -/
theorem window_mono {j k m n : Nat} (hle : m ≤ n) (hm : 256 ^ (j + 7) ≤ m)
    (hmlt : m < 256 ^ (j + 8)) (hn : 256 ^ (k + 7) ≤ n)
    (hnlt : n < 256 ^ (k + 8)) :
    cut (256 ^ j) m ≤ cut (256 ^ k) n := by
  have hjk : j ≤ k := by
    by_contra hlt
    have hpow : (256 : Nat) ^ (k + 8) ≤ 256 ^ (j + 7) :=
      Nat.pow_le_pow_right (by decide) (by omega)
    omega
  rcases Nat.lt_or_eq_of_le hjk with hlt | rfl
  · have hpow : (256 : Nat) ^ (j + 8) ≤ 256 ^ (k + 7) :=
      Nat.pow_le_pow_right (by decide) (by omega)
    exact cut_mono_across (by omega)
      (Nat.pow_dvd_pow 256 (Nat.le_add_right k 7)) hn
  · exact cut_mono hle

theorem difficultyFromHash_antitone {h h' : Bytes} {d : U64}
    (hlen : h.length = 32) (hlen' : h'.length = 32)
    (hlarge : 2 ^ 64 ≤ leNat h) (hle : leNat h ≤ leNat h')
    (hd : difficultyFromHash h = .ok d) :
    ∃ d', difficultyFromHash h' = .ok d' ∧ d' ≤ d := by
  obtain ⟨j, d0, hd0, hge, hlt, hval⟩ := difficultyFromHash_cut hlen hlarge
  rw [hd] at hd0
  cases hd0
  obtain ⟨k, d', hd', hge', hlt', hval'⟩ :=
    difficultyFromHash_cut hlen' (Nat.le_trans hlarge hle)
  refine ⟨d', hd', ?_⟩
  rw [BitVec.le_def, hval, hval']
  have hkept := window_le_cut hge
  have hpos : 0 < cut (256 ^ j) (leNat h) :=
    Nat.lt_of_lt_of_le
      (Nat.mul_pos (by decide) (Nat.pow_pos (by decide))) hkept
  exact clampDifficulty_mono
    (Nat.div_le_div_left (window_mono hle hge hlt hge' hlt') hpos)

/-- A hash is rated within one of its exact difficulty, and no larger
hash above it, exactly when it has more than eight bytes. -/
theorem difficulty_tight_iff {h : Bytes} (hlen : h.length = 32)
    (hpos : 0 < leNat h) :
    ((∃ d, difficultyFromHash h = .ok d
        ∧ clampDifficulty (diffOne / leNat h) ≤ d.toNat
        ∧ d.toNat ≤ clampDifficulty (diffOne / leNat h) + 1
        ∧ ∀ h' : Bytes, h'.length = 32 → leNat h ≤ leNat h' →
          ∃ d', difficultyFromHash h' = .ok d' ∧ d' ≤ d)
      ∧ ∀ msb lsb, scanMsb h 31 = .ok msb →
        lowByte msb (if 7 ≤ msb then 8 else msb + 1) = .ok lsb → lsb ≤ 26)
      ↔ 2 ^ 64 ≤ leNat h := by
  constructor
  · rintro ⟨⟨d, hd, -⟩, -⟩
    by_contra hsmall
    exact difficultyFromHash_of_small hlen hpos (Nat.not_le.mp hsmall) d hd
  · intro hlarge
    refine ⟨?_, fun _ _ => window_low⟩
    obtain ⟨k, d, hd, hge, -, hval⟩ := difficultyFromHash_cut hlen hlarge
    obtain ⟨hlow, hhigh⟩ := quotient_tight hge
    refine ⟨d, hd, hval ▸ hlow, hval ▸ hhigh, ?_⟩
    intro h' hlen' hle
    exact difficultyFromHash_antitone hlen hlen' hlarge hle hd

theorem difficulty_tight_diffOne :
    ∃ d, difficultyFromHash (leBytes 32 diffOne) = .ok d ∧ 1 ≤ d.toNat := by
  have hnat : leNat (leBytes 32 diffOne) = diffOne :=
    leNat_leBytes (by unfold diffOne; decide)
  have hlarge : 2 ^ 64 ≤ leNat (leBytes 32 diffOne) := by
    rw [hnat]
    unfold diffOne
    decide
  obtain ⟨⟨d, hd, hlow, -⟩, -⟩ := (difficulty_tight_iff (length_leBytes ..)
    (Nat.lt_of_lt_of_le (by decide) hlarge)).mpr hlarge
  rw [hnat, Nat.div_self (by unfold diffOne; decide)] at hlow
  exact ⟨d, hd, hlow⟩

/-- The hash 1. -/
theorem hash_one_aborts :
    0 < leNat (leBytes 32 1)
      ∧ difficultyFromHash (leBytes 32 1) = .error .arithmetic :=
  ⟨by decide, by decide⟩

-- ============================================================= the server

/-- The server's answer for a zero hash is the largest number there is. -/
theorem calculateDifficulty_of_zero {hash : Bytes32} (hz : hash.nat = 0) :
    calculateDifficultyFromHash hash = BitVec.allOnes 64 := by
  have hnone : significantBytes hash 32 Bytes32.width_le = 0 := by
    have hspec := significantBytes_spec hash 32 Bytes32.width_le hash.nat_lt
    by_contra hne
    have hle := hspec.2 (Nat.pos_of_ne_zero hne)
    have hpow : 0 < 256 ^ (significantBytes hash 32 Bytes32.width_le - 1) :=
      Nat.pow_pos (by decide)
    omega
  unfold calculateDifficultyFromHash
  dsimp only
  rw [if_pos hnone]

/-- The contract clamps what the server computes, where it answers at
all. -/
theorem difficultyFromHash_server {hash : Bytes32}
    (hread : hash.nat = 0 ∨ 2 ^ 64 ≤ hash.nat) :
    ∃ d, difficultyFromHash hash.toList = .ok d
      ∧ d.toNat = clampDifficulty (calculateDifficultyFromHash hash).toNat := by
  have hlen : hash.toList.length = 32 := Vector.length_toList
  have hmost : clampDifficulty (BitVec.allOnes 64).toNat
      = 1_000_000_000_000_000 := by decide
  rcases hread with hz | hlarge
  · refine ⟨_, difficultyFromHash_of_zero hlen hz, ?_⟩
    rw [calculateDifficulty_of_zero hz, hmost]
    rfl
  · obtain ⟨k, d, hd, hge, hlt, hval⟩ :=
      difficultyFromHash_cut hlen hlarge
    obtain ⟨k', hge', hlt', hserver⟩ := calculateDifficulty_spec hlarge
    obtain rfl : k' = k := by
      have hup : k' + 7 < k + 8 :=
        (Nat.pow_lt_pow_iff_right (by decide : 1 < 256)).mp
          (Nat.lt_of_le_of_lt hge' hlt)
      have hdown : k + 7 < k' + 8 :=
        (Nat.pow_lt_pow_iff_right (by decide : 1 < 256)).mp
          (Nat.lt_of_le_of_lt hge hlt')
      omega
    refine ⟨d, hd, hval.trans ?_⟩
    rcases hserver with hexact | ⟨hcapped, hbig⟩
    · rw [hexact]
      rfl
    · rw [hcapped, hmost]
      exact clampDifficulty_of_ge hbig

/-- The contract records the difficulty the server computes, clamped,
exactly for a zero hash and for one of more than eight bytes. -/
theorem same_difficulty_iff (hash : Bytes32) :
    (∃ d, difficultyFromHash hash.toList = .ok d
        ∧ d.toNat = clampDifficulty (calculateDifficultyFromHash hash).toNat)
      ↔ hash.nat = 0 ∨ 2 ^ 64 ≤ hash.nat := by
  constructor
  · rintro ⟨d, hd, -⟩
    by_contra hread
    have hsmall : 0 < hash.nat ∧ hash.nat < 2 ^ 64 := by omega
    exact difficultyFromHash_of_small Vector.length_toList hsmall.1 hsmall.2
      d hd
  · exact difficultyFromHash_server

/-- The hash 1: the server answers, the contract aborts. -/
theorem hash_one_differs :
    calculateDifficultyFromHash ((Vector.replicate 32 0).set 0 1)
        = BitVec.allOnes 64
      ∧ difficultyFromHash
        ((Vector.replicate 32 0 : Bytes32).set 0 1).toList
        = .error .arithmetic :=
  ⟨by decide, by decide⟩

end M1n3Protocol
