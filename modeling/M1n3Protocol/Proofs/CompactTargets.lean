/-
What the compact encoder and decoder make of each other, and what the
network difficulty makes of the decoder's target.

# The round trip

Encoding keeps the three highest bytes of a target, or the two highest
where the third would set the sign bit, and decoding puts them back where
they were (`Leading.leading`). So a target loses less than one of its
lowest byte kept, and loses nothing the second time.

# Two decoders

`bits_to_target` masks the sign bit out and aborts from exponent 35 on;
`nbits_to_difficulty` reads the sign bit as part of the mantissa and
answers 1 there. Registration takes any `nbits`, so the two meet on the
same values, and `network_difficulty_iff` says on which they agree.
-/
import M1n3Protocol.Contract.Compact
import M1n3Protocol.Proofs.Target

namespace M1n3Protocol

open Checked Leading

-- ========================================================== the round trip

/-- Size and mantissa are read back from the word they were packed in. -/
theorem unpacked {bits : U32} {m e : Nat} (hm : m < 2 ^ 23)
    (h : bits.toNat = m + e * 2 ^ 24) :
    CompactTarget.size bits = e ∧ coefficient bits = m
      ∧ bits &&& 0x00800000 = 0 := by
  refine ⟨?_, ?_, ?_⟩
  · unfold CompactTarget.size
    rw [BitVec.toNat_ushiftRight, Nat.shiftRight_eq_div_pow, h]
    omega
  · have hmask : (0x007fffff : U32).toNat = 2 ^ 23 - 1 := rfl
    unfold coefficient
    rw [BitVec.toNat_and, hmask, Nat.and_two_pow_sub_one_eq_mod, h]
    omega
  · have hbit := and_bit_eq_zero bits (show 23 < 32 by decide)
    have hmask : ((1 : U32) <<< 23) = 0x00800000 := by decide
    rw [hmask] at hbit
    apply hbit.mpr
    rw [Nat.testBit_eq_decide_div_mod_eq, decide_eq_false_iff_not, h]
    omega

theorem signedSize_le (t : U256) : signedSize t.toNat ≤ 33 := by
  have hlog := log2_lt t
  unfold signedSize
  omega

theorem mantissa_lt (n : Nat) : mantissa n < 2 ^ 23 := by
  have hlt := two_mul_mantissa_lt (n := n)
  omega

/-- Put back, the bytes kept are the target's highest. -/
theorem placed_mantissa {n : Nat} (h : n < 2 ^ 256) :
    placed (mantissa n) (signedSize n) = leading n := by
  unfold placed
  by_cases hsmall : signedSize n ≤ 3
  · rw [if_pos hsmall, mantissa_small hsmall, leading_small hsmall]
    exact Nat.mul_div_cancel _ (Nat.pow_pos (by decide))
  · rw [if_neg hsmall, mantissa_large (by omega)]
    exact Nat.mod_eq_of_lt (Nat.lt_of_le_of_lt leading_le h)

/-- Encoding and decoding a target. -/
theorem encoded (t : U256) :
    ∃ b v, targetToBits t = .ok b ∧ bitsToTarget b = .ok v
      ∧ v.toNat = leading t.toNat ∧ CompactTarget.size b = signedSize t.toNat
      ∧ b &&& 0x00800000 = 0 := by
  obtain ⟨b, hb, hbits⟩ := targetToBits_spec t
  obtain ⟨hsize, hcoeff, hsign⟩ := unpacked (mantissa_lt t.toNat) hbits
  have hle := signedSize_le t
  obtain ⟨v, hv, hval⟩ := bitsToTarget_spec
    (show CompactTarget.size b ≤ 34 by omega)
  rw [hcoeff, hsize, placed_mantissa t.isLt] at hval
  exact ⟨b, v, hb, hv, hval, hsize, hsign⟩

/-- What decoding answers is encoded as it was. -/
theorem encoded_again {t v : U256} (h : v.toNat = leading t.toNat) :
    targetToBits v = targetToBits t := by
  obtain ⟨b, hb, hbits⟩ := targetToBits_spec t
  obtain ⟨b', hb', hbits'⟩ := targetToBits_spec v
  rw [h, mantissa_leading, signedSize_leading, ← hbits] at hbits'
  rw [hb, hb', BitVec.eq_of_toNat_eq hbits']

/-- Above a target with bytes cut off there is room in 256 bits. -/
theorem leading_lt (t : U256) : leading t.toNat + 1 < 2 ^ 256 := by
  have ht := t.isLt
  by_cases hsmall : signedSize t.toNat ≤ 3
  · rw [leading_small hsmall]
    have hlt := lt_of_signedSize (n := t.toNat)
    have hpow : (256 : Nat) ^ signedSize t.toNat ≤ 256 ^ 3 :=
      Nat.pow_le_pow_right (by decide) hsmall
    omega
  · have hunit : 256 ^ 1 ∣ unit t.toNat := Nat.pow_dvd_pow 256 (by omega)
    have hdvd : 256 ^ 1 ∣ leading t.toNat := Nat.dvd_trans hunit dvd_cut
    have hle : leading t.toNat ≤ t.toNat := leading_le
    obtain ⟨q, hq⟩ := hdvd
    omega

/-- The work of a target, in 256 bits. -/
theorem calcWorkFromBits_spec {b : U32} {v : U256}
    (hv : bitsToTarget b = .ok v) (hpos : 0 < v.toNat)
    (hlt : v.toNat + 1 < 2 ^ 256) :
    ∃ work, calcWorkFromBits b = .ok work
      ∧ work.toNat = 2 ^ 256 / (v.toNat + 1) := by
  have hone : (1 : U256).toNat = 1 := rfl
  have hne : v ≠ 0 := by
    intro hz
    rw [hz] at hpos
    exact absurd hpos (by decide)
  obtain ⟨next, hnext, hnextval⟩ := add_of_lt Abort.arithmetic (a := v)
    (b := 1) hlt
  have hquot : (~~~v / next).toNat + 1 = 2 ^ 256 / (v.toNat + 1) := by
    rw [BitVec.toNat_udiv, BitVec.toNat_not, hnextval, hone,
      ← Nat.add_div_right _ (Nat.succ_pos _)]
    congr 1
    omega
  have hfit : (~~~v / next).toNat + (1 : U256).toNat < 2 ^ 256 := by
    rw [hone, hquot]
    exact Nat.div_lt_self (by decide) (by omega)
  obtain ⟨work, hwork, hworkval⟩ := add_of_lt Abort.arithmetic hfit
  refine ⟨work, ?_, hworkval.trans hquot⟩
  unfold calcWorkFromBits
  refine bind_eq_ok.mpr ⟨v, hv, ?_⟩
  rw [if_neg hne]
  exact bind_eq_ok.mpr ⟨next, hnext, hwork⟩

/-- Encoded and decoded, a target loses less than its lowest byte kept;
what was encoded once is encoded the same again; decoding what was encoded
is monotone; and the work is that of the target decoded. -/
theorem compact_round_trip :
    (∀ t : U256, t ≠ 0 → ∃ b v, targetToBits t = .ok b
      ∧ b &&& 0x00800000 = 0 ∧ bitsToTarget b = .ok v ∧ 0 < v.toNat
      ∧ v.toNat ≤ t.toNat
      ∧ t.toNat < v.toNat + 256 ^ (CompactTarget.size b - 3))
    ∧ (∀ (t : U256) (b : U32), targetToBits t = .ok b →
      ∃ v, bitsToTarget b = .ok v ∧ targetToBits v = .ok b)
    ∧ (∀ t t' : U256, t ≤ t' → ∃ v v',
      (targetToBits t >>= bitsToTarget) = .ok v
      ∧ (targetToBits t' >>= bitsToTarget) = .ok v' ∧ v ≤ v')
    ∧ ∀ (t : U256) (b : U32) (v : U256), targetToBits t = .ok b →
      bitsToTarget b = .ok v → 0 < v.toNat →
      ∃ work, calcWorkFromBits b = .ok work
        ∧ work.toNat = 2 ^ 256 / (v.toNat + 1) := by
  refine ⟨?_, ?_, ?_, ?_⟩
  · intro t ht
    obtain ⟨b, v, hb, hv, hval, hsize, hsign⟩ := encoded t
    have hne : t.toNat ≠ 0 := fun h => ht (BitVec.eq_of_toNat_eq h)
    refine ⟨b, v, hb, hsign, hv, ?_, ?_, ?_⟩
    · rw [hval]
      exact leading_pos hne
    · rw [hval]
      exact leading_le
    · rw [hval, hsize]
      exact lt_leading_add
  · intro t b hb
    obtain ⟨b', v, hb', hv, hval, -, -⟩ := encoded t
    rw [hb] at hb'
    cases hb'
    exact ⟨v, hv, (encoded_again hval).trans hb⟩
  · intro t t' hle
    obtain ⟨b, v, hb, hv, hval, -, -⟩ := encoded t
    obtain ⟨b', v', hb', hv', hval', -, -⟩ := encoded t'
    refine ⟨v, v', bind_eq_ok.mpr ⟨b, hb, hv⟩,
      bind_eq_ok.mpr ⟨b', hb', hv'⟩, ?_⟩
    rw [BitVec.le_def, hval, hval']
    exact leading_mono hle
  · intro t b v hb hv hpos
    obtain ⟨b', v', hb', hv', hval, -, -⟩ := encoded t
    rw [hb] at hb'
    cases hb'
    rw [hv] at hv'
    cases hv'
    exact calcWorkFromBits_spec hv hpos (hval ▸ leading_lt t)

/-- A target whose highest bit is a sign bit: `0x00800000` is encoded with
two bytes, and takes four of the size. -/
theorem compact_round_trip_signBit :
    (targetToBits 0x800000).toOption = some 0x04008000
      ∧ (∃ v, bitsToTarget 0x04008000 = .ok v
        ∧ targetToBits v = .ok 0x04008000)
      ∧ ∃ work, calcWorkFromBits 0x04008000 = .ok work
        ∧ work.toNat = 2 ^ 256 / ((0x800000 : U256).toNat + 1) := by
  have hb : targetToBits 0x800000 = .ok 0x04008000 := by decide +kernel
  have hv : bitsToTarget 0x04008000 = .ok 0x800000 := by decide +kernel
  refine ⟨by rw [hb]; rfl, compact_round_trip.2.1 _ _ hb, ?_⟩
  exact compact_round_trip.2.2.2 _ _ _ hb hv (by decide)

-- ============================================================ two decoders

/-- The decoder answers, and the network difficulty is its target's. -/
def NetworkDifficultyAgrees (nbits : U32) : Prop :=
  ∃ t, bitsToTarget nbits = .ok t
    ∧ (nbitsToDifficulty nbits).toNat = targetDifficulty t.toNat

-- ------------------------------------------- what a sign bit does to both

theorem placed_lt {m : Nat} (hm : m < 2 ^ 24) (e : Nat) :
    placed m e < 256 ^ e := by
  have hthree : (2 : Nat) ^ 24 = 256 ^ 3 := by decide
  unfold placed
  split
  case isTrue h =>
      rw [Nat.div_lt_iff_lt_mul (Nat.pow_pos (by decide)), ← Nat.pow_add,
        show e + (3 - e) = 3 by omega, ← hthree]
      exact hm
  case isFalse h =>
      refine Nat.lt_of_le_of_lt (Nat.mod_le _ _) ?_
      have hsplit : 256 ^ e = 256 ^ 3 * 256 ^ (e - 3) := by
        rw [← Nat.pow_add, show 3 + (e - 3) = e by omega]
      rw [hsplit, ← hthree]
      exact Nat.mul_lt_mul_of_pos_right hm (Nat.pow_pos (by decide))

/-- A target of 21 bytes is worth the cap. -/
theorem targetDifficulty_small {t : Nat} (h : t < 256 ^ 21) :
    targetDifficulty t = 1_000_000_000_000_000 := by
  unfold targetDifficulty
  split
  case isTrue => rfl
  case isFalse hne =>
      have hquot : 1_000_000_000_000_000 ≤ diffOne / t := by
        refine Nat.le_trans ?_ (Nat.div_le_div_left (Nat.le_of_lt h)
          (Nat.pos_of_ne_zero hne))
        unfold diffOne
        decide
      unfold clampDifficulty
      rw [if_neg (by omega), Nat.min_eq_right hquot]

/-- A target more than twice as large has another difficulty, unless both
have the least there is. -/
theorem targetDifficulty_doubled {t u : Nat} (hu : 2 ^ 175 ≤ u)
    (h : 2 * t < u) :
    targetDifficulty u = targetDifficulty t ↔ diffOne < 2 * t := by
  have hupos : 0 < u := Nat.lt_of_lt_of_le (by decide) hu
  have hquot : diffOne / u < 1_000_000_000_000_000 := by
    refine Nat.lt_of_le_of_lt (Nat.div_le_div_left hu (by decide)) ?_
    unfold diffOne
    decide
  unfold targetDifficulty
  rw [if_neg (Nat.ne_of_gt hupos)]
  by_cases hz : t = 0
  · subst hz
    rw [if_pos rfl, clampDifficulty]
    constructor
    · intro heq
      split at heq <;> omega
    · intro hlt
      exact absurd hlt (Nat.not_lt_zero _)
  · have htpos : 0 < t := Nat.pos_of_ne_zero hz
    rw [if_neg hz]
    constructor
    · intro heq
      by_contra hle
      have htwo : 2 ≤ diffOne / t :=
        (Nat.le_div_iff_mul_le htpos).mpr (Nat.not_lt.mp hle)
      have htwice : diffOne / u * 2 ≤ diffOne / t := by
        rw [Nat.le_div_iff_mul_le htpos, Nat.mul_assoc]
        exact Nat.le_trans (Nat.mul_le_mul_left _ (Nat.le_of_lt h))
          (Nat.div_mul_le_self _ _)
      unfold clampDifficulty at heq
      rw [if_neg (show ¬ diffOne / t = 0 by omega)] at heq
      split at heq <;> omega
    · intro hlt
      have hnone : diffOne / u = 0 := Nat.div_eq_of_lt (by omega)
      have hone : diffOne / t < 2 :=
        (Nat.div_lt_iff_lt_mul htpos).mpr hlt
      unfold clampDifficulty
      rw [if_pos hnone]
      generalize diffOne / t = q at hone ⊢
      split <;> omega

/-- With its sign bit set, the two readings of a target of 22 to 32 bytes
are more than a factor of two apart. -/
theorem placed_signed {m e : Nat} (hm : m < 2 ^ 23) (hlo : 22 ≤ e)
    (hhi : e ≤ 32) :
    placed m e = m * 256 ^ (e - 3) ∧ 2 ^ 175 ≤ placed (m + 2 ^ 23) e
      ∧ 2 * placed m e < placed (m + 2 ^ 23) e := by
  have hpow : 256 ^ 19 ≤ 256 ^ (e - 3) :=
    Nat.pow_le_pow_right (by decide) (by omega)
  have hmost : (256 : Nat) ^ (e - 3) ≤ 256 ^ 29 :=
    Nat.pow_le_pow_right (by decide) (by omega)
  have hfit : (m + 2 ^ 23) * 256 ^ (e - 3) < 2 ^ 256 := by
    calc (m + 2 ^ 23) * 256 ^ (e - 3) ≤ (2 ^ 24 - 1) * 256 ^ 29 :=
          Nat.mul_le_mul (by omega) hmost
      _ < 2 ^ 256 := by decide
  have hsigned : placed (m + 2 ^ 23) e = (m + 2 ^ 23) * 256 ^ (e - 3) := by
    rw [placed, if_neg (by omega), Nat.mod_eq_of_lt hfit]
  have hplain : placed m e = m * 256 ^ (e - 3) := by
    rw [placed, if_neg (by omega)]
    apply Nat.mod_eq_of_lt
    exact Nat.lt_of_le_of_lt (Nat.mul_le_mul_right _ (by omega)) hfit
  refine ⟨hplain, ?_, ?_⟩
  · rw [hsigned]
    calc 2 ^ 175 = 2 ^ 23 * 256 ^ 19 := by decide
      _ ≤ (m + 2 ^ 23) * 256 ^ (e - 3) :=
          Nat.mul_le_mul (Nat.le_add_left _ _) hpow
  · rw [hplain, hsigned, ← Nat.mul_assoc]
    exact Nat.mul_lt_mul_of_pos_right (by omega) (Nat.pow_pos (by decide))

/-- Above 32 bytes the sign bit is shifted out. -/
theorem placed_overflow {m e : Nat} (hlo : 33 ≤ e) :
    placed (m + 2 ^ 23) e = placed m e := by
  have hdvd : 2 ^ 256 ∣ 2 ^ 23 * 256 ^ (e - 3) := by
    rw [pow256, ← Nat.pow_add]
    exact Nat.pow_dvd_pow 2 (by omega)
  rw [placed, placed, if_neg (by omega), if_neg (by omega), Nat.add_mul,
    Nat.add_mod, Nat.mod_eq_zero_of_dvd hdvd, Nat.add_zero, Nat.mod_mod]

theorem networkDifficultyAgrees_of_le {nbits : U32}
    (hle : CompactTarget.size nbits ≤ 34) :
    NetworkDifficultyAgrees nbits
      ↔ (nbitsToDifficulty nbits).toNat = targetDifficulty
        (placed (coefficient nbits) (CompactTarget.size nbits)) := by
  obtain ⟨t, ht, htval⟩ := bitsToTarget_spec hle
  unfold NetworkDifficultyAgrees
  rw [ht, ← htval]
  constructor
  · rintro ⟨t', heq, h⟩
    cases heq
    exact h
  · intro h
    exact ⟨t, rfl, h⟩

/-- The network difficulty of an `nbits` is that of its target exactly up
to exponent 34 where its sign bit is clear, or counts for nothing: since
both targets are worth the cap, or it is shifted out, or both are above
half the difficulty-1 target. -/
theorem network_difficulty_iff (nbits : U32) :
    NetworkDifficultyAgrees nbits
      ↔ CompactTarget.size nbits ≤ 34
        ∧ (nbits &&& 0x00800000 = 0 ∨ CompactTarget.size nbits ≤ 21
          ∨ 33 ≤ CompactTarget.size nbits
          ∨ diffOne < 2 * ((nbits &&& 0x007fffff).toNat
            * 256 ^ (CompactTarget.size nbits - 3))) := by
  show _ ↔ _ ∧ (_ ∨ _ ∨ _ ∨ diffOne < 2 * (coefficient nbits * _))
  have hcoeff := coefficient_lt nbits
  by_cases hwide : 34 < CompactTarget.size nbits
  · constructor
    · rintro ⟨t, ht, -⟩
      rw [bitsToTarget_of_wide hwide] at ht
      cases ht
    · rintro ⟨hle, -⟩
      omega
  · have hle : CompactTarget.size nbits ≤ 34 := Nat.not_lt.mp hwide
    rw [networkDifficultyAgrees_of_le hle]
    by_cases hzero : CompactTarget.size nbits = 0
    · have hcap : placed (coefficient nbits) 0 < 256 ^ 21 :=
        Nat.lt_trans (placed_lt (by omega) 0) (by decide)
      rw [nbitsToDifficulty_of_zero hzero, hzero, targetDifficulty_small hcap]
      exact ⟨fun _ => ⟨by omega, .inr (.inl (by omega))⟩, fun _ => rfl⟩
    · rw [nbitsToDifficulty_spec hzero hle, signedCoefficient_eq]
      by_cases hsign : nbits &&& 0x00800000 = 0
      · rw [if_pos hsign, Nat.add_zero]
        exact ⟨fun _ => ⟨hle, .inl hsign⟩, fun _ => rfl⟩
      · rw [if_neg hsign]
        rcases Nat.lt_or_ge (CompactTarget.size nbits) 22 with hlo | hlo
        · have hpow : (256 : Nat) ^ CompactTarget.size nbits ≤ 256 ^ 21 :=
            Nat.pow_le_pow_right (by decide) (by omega)
          have hcap : ∀ {m}, m < 2 ^ 24 →
              targetDifficulty (placed m (CompactTarget.size nbits))
                = 1_000_000_000_000_000 := fun hm =>
            targetDifficulty_small (Nat.lt_of_lt_of_le (placed_lt hm _) hpow)
          rw [hcap (by omega), hcap (by omega)]
          exact ⟨fun _ => ⟨hle, .inr (.inl (by omega))⟩, fun _ => rfl⟩
        · rcases Nat.lt_or_ge 32 (CompactTarget.size nbits) with hhi | hhi
          · rw [placed_overflow hhi]
            exact ⟨fun _ => ⟨hle, .inr (.inr (.inl hhi))⟩, fun _ => rfl⟩
          · obtain ⟨hplain, hbig, htwice⟩ := placed_signed hcoeff hlo hhi
            rw [targetDifficulty_doubled hbig htwice, hplain]
            constructor
            · intro h
              exact ⟨hle, .inr (.inr (.inr h))⟩
            · rintro ⟨-, h | h | h | h⟩
              · exact absurd h hsign
              · omega
              · omega
              · exact h

/-- Anyone registers a template of exponent 35, and one whose sign bit is
set. -/
def hostileTemplates : List Call :=
  [.beginTx 7 0 0,
   .mining (.registerTemplatePublic Const.permissionlessTemplateFeeMist
     { block125552 with nbits := 0x23000001 }),
   .mining (.registerTemplatePublic Const.permissionlessTemplateFeeMist
     { block125552 with nbits := 0x1b8404cb })]

/-- The first one's target aborts and its difficulty is 1; the second
one's difficulty is not that of its target. -/
theorem hostile_nbits :
    ∃ w, Machine.Reach (contract sha256 0) w
      ∧ (∃ job, w.mining.job (.direct 0) = some job
        ∧ job.cachedNetworkDifficulty = 1
        ∧ bitsToTarget job.nbits = .error .arithmetic)
      ∧ ∃ job t, w.mining.job (.direct 1) = some job
        ∧ bitsToTarget job.nbits = .ok t
        ∧ job.cachedNetworkDifficulty.toNat ≠ targetDifficulty t.toNat := by
  have hrun : (contract sha256 0).endsIn hostileTemplates (fun w =>
      (w.mining.job (.direct 0)).any (fun job => decide
        (job.cachedNetworkDifficulty = 1
          ∧ bitsToTarget job.nbits = .error .arithmetic))
      && (w.mining.job (.direct 1)).any fun job =>
        (bitsToTarget job.nbits).toOption.any fun t => decide
          (job.cachedNetworkDifficulty.toNat ≠ targetDifficulty t.toNat))
      = true := by
    decide +kernel
  obtain ⟨w, hw, hcheck⟩ := Machine.reach_of_endsIn hrun
  obtain ⟨hfirst, hsecond⟩ := (Bool.and_eq_true_iff ..).mp hcheck
  obtain ⟨job, hjob, hcheck⟩ := (Option.any_eq_true ..).mp hfirst
  obtain ⟨job', hjob', hcheck'⟩ := (Option.any_eq_true ..).mp hsecond
  obtain ⟨t, ht, hcheck'⟩ := (Option.any_eq_true ..).mp hcheck'
  exact ⟨w, hw, ⟨job, hjob, of_decide_eq_true hcheck⟩,
    job', t, hjob', toOption_eq_some.mp ht, of_decide_eq_true hcheck'⟩

end M1n3Protocol
