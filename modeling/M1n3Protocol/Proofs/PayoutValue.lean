/-
The value of a payout transaction: who is paid what, and how much of the
total is not paid out.

The loop over the miners keeps what it has paid below the share of the net
work it has gone through (`PaidBooks`), so the total can neither overflow
nor be exceeded. Every share is rounded down, and shares that are dust are
left out; both end up in the change, which is lost only where it is dust
itself.
-/
import M1n3Protocol.Lib.ProRata
import M1n3Protocol.Operator.PayoutTx

namespace M1n3Protocol.Operator

open Checked
open BitcoinTx (Tx TxIn TxOut)

-- =================================================================== sums

/-- A sum that fits its width is no overflow. -/
theorem checkedSum_ok {w : Nat} (xs : List (BitVec w))
    (h : (xs.map BitVec.toNat).sum < 2 ^ w) :
    ∃ s, checkedSum xs = .ok s ∧ s.toNat = (xs.map BitVec.toNat).sum := by
  have hfold : ∀ (xs : List (BitVec w)) (acc : BitVec w),
      acc.toNat + (xs.map BitVec.toNat).sum < 2 ^ w →
      ∃ s, xs.foldlM (add PayoutError.overflow) acc = .ok s
        ∧ s.toNat = acc.toNat + (xs.map BitVec.toNat).sum := by
    intro xs
    induction xs with
    | nil =>
        intro acc _
        exact ⟨acc, rfl, rfl⟩
    | cons x xs ih =>
        intro acc hlt
        rw [List.map_cons, List.sum_cons] at hlt ⊢
        obtain ⟨next, hadd, hnext⟩ := add_of_lt PayoutError.overflow
          (show acc.toNat + x.toNat < 2 ^ w by omega)
        obtain ⟨s, hrest, hs⟩ := ih next (by omega)
        refine ⟨s, ?_, by omega⟩
        rw [List.foldlM_cons, hadd]
        exact hrest
  obtain ⟨s, hs, hval⟩ := hfold xs 0 (by simpa using h)
  exact ⟨s, hs, by simpa using hval⟩

-- =============================================================== one miner

/-- What a miner's net work comes to, rounded down. -/
def floorPay (totalSats : U64) (totalNetWork : Nat)
    (miner : MinerRoundEntry) : Nat :=
  ProRata.share miner.netWork.toNat totalSats.toNat totalNetWork

/-- Whether that is no dust. -/
def isPaid (totalSats : U64) (totalNetWork : Nat)
    (miner : MinerRoundEntry) : Bool :=
  Const.dustSats.toNat ≤ floorPay totalSats totalNetWork miner

def minerOutput (H : HashFn) (totalSats : U64) (totalNetWork : Nat)
    (miner : MinerRoundEntry) : TxOut where
  value := floorPay totalSats totalNetWork miner
  scriptPubKey := p2wshFromAddressBytes H (hexTo32Bytes miner.miner)

variable {H : HashFn} {totalSats : U64} {totalNetWork : U128}
  {paid : Paid} {miner : MinerRoundEntry}

theorem floorPay_of_zero (h : miner.netWork = 0) (work : Nat) :
    floorPay totalSats work miner = 0 := by
  rw [floorPay, h]
  exact ProRata.share_zero ..

/-- The quotient the source computes, at the width it keeps it in. -/
theorem payout_eq (totalNetWork : U128) {product : U128}
    (hproduct : product.toNat = miner.netWork.toNat * totalSats.toNat)
    (hfit : floorPay totalSats totalNetWork.toNat miner < 2 ^ 64) :
    ((product / totalNetWork).setWidth 64 : U64).toNat
      = floorPay totalSats totalNetWork.toNat miner := by
  have hquot : (product / totalNetWork).toNat
      = floorPay totalSats totalNetWork.toNat miner := by
    rw [BitVec.toNat_udiv, hproduct]
    rfl
  rw [BitVec.toNat_setWidth, hquot]
  exact Nat.mod_eq_of_lt hfit

/-- A turn of the loop pays a miner its share, unless it is dust. -/
theorem payMiner_ok (totalNetWork : U128)
    (hproduct : miner.netWork.toNat * totalSats.toNat < 2 ^ 128)
    (hroom : paid.2.toNat + floorPay totalSats totalNetWork.toNat miner
      < 2 ^ 64) :
    ∃ paid', payMiner H totalSats totalNetWork paid miner = .ok paid'
      ∧ paid'.1 = paid.1
        ++ (if isPaid totalSats totalNetWork.toNat miner
          then [minerOutput H totalSats totalNetWork.toNat miner] else [])
      ∧ paid'.2.toNat = paid.2.toNat
        + (if isPaid totalSats totalNetWork.toNat miner
          then floorPay totalSats totalNetWork.toNat miner else 0) := by
  unfold payMiner
  dsimp only
  by_cases hzero : miner.netWork = 0
  · have hdust : isPaid totalSats totalNetWork.toNat miner = false := by
      rw [isPaid, floorPay_of_zero hzero]
      rfl
    rw [if_pos hzero, hdust]
    exact ⟨paid, rfl, (List.append_nil _).symm, rfl⟩
  · have hwide : (totalSats.setWidth 128 : U128).toNat = totalSats.toNat := by
      rw [BitVec.toNat_setWidth]
      exact Nat.mod_eq_of_lt (Nat.lt_trans totalSats.isLt (by decide))
    obtain ⟨product, hmul, hval⟩ : ∃ product : U128,
        mul PayoutError.overflow miner.netWork (totalSats.setWidth 128)
          = .ok product
        ∧ product.toNat = miner.netWork.toNat * totalSats.toNat := by
      refine ⟨miner.netWork * totalSats.setWidth 128, if_pos ?_, ?_⟩
      · rwa [hwide]
      · rw [BitVec.toNat_mul, hwide, Nat.mod_eq_of_lt hproduct]
    have hpayout := payout_eq totalNetWork hval (by omega)
    rw [if_neg hzero, hmul]
    simp only [bind, Except.bind, BitVec.lt_def, hpayout]
    by_cases hpaid : isPaid totalSats totalNetWork.toNat miner = true
    · have hle : Const.dustSats.toNat
          ≤ floorPay totalSats totalNetWork.toNat miner :=
        of_decide_eq_true hpaid
      obtain ⟨distributed, hadd, hsum⟩ := add_of_lt PayoutError.overflow
        (a := paid.2) (b := (product / totalNetWork).setWidth 64)
        (by rw [hpayout]; exact hroom)
      rw [if_neg (Nat.not_lt.mpr hle), hadd, if_pos hpaid, if_pos hpaid]
      refine ⟨_, rfl, ?_, ?_⟩
      · rfl
      · exact hsum.trans (by rw [hpayout])
    · have hlt : floorPay totalSats totalNetWork.toNat miner
          < Const.dustSats.toNat :=
        Nat.lt_of_not_le fun h => hpaid (decide_eq_true h)
      rw [if_pos hlt, if_neg hpaid, if_neg hpaid]
      exact ⟨paid, rfl, (List.append_nil _).symm, rfl⟩

-- ============================================================== all of them

theorem product_lt {work : Nat} (hsats : totalSats.toNat < 2 ^ 51)
    (hwork : work < 2 ^ 77) : work * totalSats.toNat < 2 ^ 128 := by
  calc work * totalSats.toNat
      ≤ 2 ^ 77 * totalSats.toNat := Nat.mul_le_mul_right _ hwork.le
    _ < 2 ^ 77 * 2 ^ 51 := Nat.mul_lt_mul_of_pos_left hsats (by decide)
    _ = 2 ^ 128 := by decide

/-- The outputs of the miners that are paid, the first one's apart. -/
theorem outputs_cons (work : Nat) (rest : List MinerRoundEntry) :
    (if isPaid totalSats work miner then [minerOutput H totalSats work miner]
      else [])
        ++ (rest.filter (isPaid totalSats work)).map
          (minerOutput H totalSats work)
      = ((miner :: rest).filter (isPaid totalSats work)).map
          (minerOutput H totalSats work) := by
  by_cases hpaid : isPaid totalSats work miner = true
  · rw [if_pos hpaid, List.filter_cons_of_pos hpaid]
    rfl
  · rw [if_neg hpaid, List.filter_cons_of_neg hpaid]
    rfl

/-- The loop over the miners left, from what is paid so far to those it has
gone through, with `work` between them: everyone left is paid a share or
left out for dust, and what is paid stays a share of the net work. -/
theorem payMiners_ok (hsats : totalSats.toNat < 2 ^ 51)
    (htotal : totalNetWork.toNat < 2 ^ 77) :
    ∀ (miners : List MinerRoundEntry) (paid : Paid) (work : Nat),
      work + (miners.map fun m => m.netWork.toNat).sum ≤ totalNetWork.toNat →
      paid.2.toNat = (paid.1.map TxOut.value).sum →
      paid.2.toNat ≤ ProRata.share work totalSats.toNat totalNetWork.toNat →
      ∃ paid', miners.foldlM (payMiner H totalSats totalNetWork) paid
          = .ok paid'
        ∧ paid'.1 = paid.1
          ++ (miners.filter (isPaid totalSats totalNetWork.toNat)).map
            (minerOutput H totalSats totalNetWork.toNat)
        ∧ paid'.2.toNat = (paid'.1.map TxOut.value).sum
        ∧ paid'.2.toNat ≤ totalSats.toNat := by
  intro miners
  induction miners with
  | nil =>
      intro paid work hwork hsum hshare
      refine ⟨paid, rfl, (List.append_nil _).symm, hsum, hshare.trans ?_⟩
      exact ProRata.share_le (by simpa using hwork) _
  | cons miner rest ih =>
      intro paid work hwork hsum hshare
      rw [List.map_cons, List.sum_cons] at hwork
      have hproduct := product_lt hsats
        (show miner.netWork.toNat < 2 ^ 77 by omega)
      have hadd := ProRata.share_add_le work miner.netWork.toNat
        totalSats.toNat totalNetWork.toNat
      have hnext : ProRata.share (work + miner.netWork.toNat)
          totalSats.toNat totalNetWork.toNat ≤ totalSats.toNat :=
        ProRata.share_le (by omega) _
      have hfloor : floorPay totalSats totalNetWork.toNat miner
          = ProRata.share miner.netWork.toNat totalSats.toNat
            totalNetWork.toNat := rfl
      obtain ⟨paid', hpay, houts, hval⟩ := payMiner_ok (H := H) totalNetWork hproduct
        (show paid.2.toNat + floorPay totalSats totalNetWork.toNat miner
          < 2 ^ 64 by omega)
      have hsum₁ : paid'.2.toNat = (paid'.1.map TxOut.value).sum := by
        rw [hval, houts, List.map_append, List.sum_append, hsum]
        split
        · simp [minerOutput]
        · rfl
      have hshare₁ : paid'.2.toNat ≤ ProRata.share
          (work + miner.netWork.toNat) totalSats.toNat totalNetWork.toNat := by
        rw [hval]
        split <;> omega
      obtain ⟨paid'', hrest, houts', hsum', hle⟩ :=
        ih paid' (work + miner.netWork.toNat) (by omega) hsum₁ hshare₁
      refine ⟨paid'', ?_, ?_, hsum', hle⟩
      · rw [List.foldlM_cons, hpay]
        exact hrest
      · rw [houts', houts, List.append_assoc, outputs_cons]

-- ================================================================== the claim

/-- The change takes up what the miners are not paid, but for dust. -/
theorem changeOutput_spec {distributed : U64} (changeScript : Bytes)
    (h : distributed.toNat ≤ totalSats.toNat) :
    ∃ rest, distributed.toNat
        + ((changeOutput totalSats distributed changeScript).map
          TxOut.value).sum + rest = totalSats.toNat
      ∧ rest ≤ Const.dustSats.toNat
      ∧ ∀ o ∈ changeOutput totalSats distributed changeScript,
        Const.dustSats.toNat < o.value ∧ o.scriptPubKey = changeScript := by
  have hchange : (totalSats - distributed).toNat
      = totalSats.toNat - distributed.toNat := BitVec.toNat_sub_of_le h
  unfold changeOutput
  dsimp only
  rw [if_pos (BitVec.le_def.mpr h)]
  split
  case isTrue hlt =>
    refine ⟨0, ?_, Nat.zero_le _, ?_⟩
    · simp only [List.map_cons, List.map_nil, List.sum_cons, List.sum_nil,
        hchange]
      omega
    · intro o ho
      obtain rfl := List.mem_singleton.mp ho
      exact ⟨BitVec.lt_def.mp hlt, rfl⟩
  case isFalse hle =>
    rw [BitVec.lt_def, hchange] at hle
    refine ⟨totalSats.toNat - distributed.toNat, ?_, by omega, ?_⟩
    · simp only [List.map_nil, List.sum_nil]
      omega
    · intro o ho
      cases ho

/-- The checks and the loop, when nothing fails. -/
theorem buildPayoutTx_eq {utxos : List (Bytes × U64)}
    {miners : List MinerRoundEntry} (changeScript : Bytes)
    {totalInput : U64} {totalNetWork : U128} (hminers : miners ≠ [])
    (hin : checkedSum (utxos.map Prod.snd) = .ok totalInput)
    (hworth : totalSats ≤ totalInput)
    (hnet : checkedSum (miners.map MinerRoundEntry.netWork)
      = .ok totalNetWork)
    (hne : totalNetWork ≠ 0)
    (hpay : miners.foldlM (payMiner H totalSats totalNetWork) ([], 0)
      = .ok paid) :
    buildPayoutTx H totalSats utxos miners changeScript
      = .ok ⟨2, utxos.map fun utxo => ⟨utxo.1, [], enableRbfNoLocktime⟩,
        paid.1 ++ changeOutput totalSats paid.2 changeScript, 0⟩ := by
  unfold buildPayoutTx
  rw [require_of hminers, hin, hnet]
  simp only [bind, Except.bind]
  rw [require_of hworth, require_of hne, hpay]
  rfl

/-- A payout of less than 2^51 sats over any miners with some net work
between them, out of inputs that are worth it, goes through. Its outputs
are the miners' shares, rounded down, of all whose share is no dust, and
the change if it is more than dust; none of them is dust, and they come to
the total but for at most one dust limit. -/
theorem build_payout_tx_value {utxos : List (Bytes × U64)}
    {miners : List MinerRoundEntry} {changeScript : Bytes}
    (hsats : totalSats.toNat < 2 ^ 51) (hminers : miners ≠ [])
    (hpos : 0 < (miners.map fun m => m.netWork.toNat).sum)
    (hwork : (miners.map fun m => m.netWork.toNat).sum < 2 ^ 77)
    (hworth : totalSats.toNat ≤ (utxos.map fun u => u.2.toNat).sum)
    (hinputs : (utxos.map fun u => u.2.toNat).sum < 2 ^ 64) :
    ∃ tx change, buildPayoutTx H totalSats utxos miners changeScript = .ok tx
      ∧ tx.outputs = (miners.filter fun m =>
            546 ≤ m.netWork.toNat * totalSats.toNat
              / (miners.map fun m => m.netWork.toNat).sum).map
          (fun m => ⟨m.netWork.toNat * totalSats.toNat
              / (miners.map fun m => m.netWork.toNat).sum,
            p2wshFromAddressBytes H (hexTo32Bytes m.miner)⟩) ++ change
      ∧ (∀ o ∈ change, o.scriptPubKey = changeScript)
      ∧ (∀ o ∈ tx.outputs, 546 ≤ o.value)
      ∧ (tx.outputs.map TxOut.value).sum ≤ totalSats.toNat
      ∧ totalSats.toNat - (tx.outputs.map TxOut.value).sum ≤ 546 := by
  have hmapin : (utxos.map Prod.snd).map BitVec.toNat
      = utxos.map fun u => u.2.toNat := List.map_map
  have hmapwork : (miners.map MinerRoundEntry.netWork).map BitVec.toNat
      = miners.map fun m => m.netWork.toNat := List.map_map
  obtain ⟨totalInput, hin, hinval⟩ :=
    checkedSum_ok (utxos.map Prod.snd) (by rw [hmapin]; exact hinputs)
  obtain ⟨totalNetWork, hnet, hnetval⟩ :=
    checkedSum_ok (miners.map MinerRoundEntry.netWork)
      (by rw [hmapwork]; omega)
  rw [hmapin] at hinval
  rw [hmapwork] at hnetval
  have hne : totalNetWork ≠ 0 := by
    rintro rfl
    have hzero : (0 : U128).toNat = 0 := rfl
    omega
  obtain ⟨paid, hpay, houts, hsum, hle⟩ :=
    payMiners_ok (H := H) hsats (hnetval ▸ hwork) miners ([], 0) 0
      (by omega) rfl (Nat.zero_le _)
  obtain ⟨rest, hrest, hdust, hchange⟩ :=
    changeOutput_spec changeScript hle
  have hbuild := buildPayoutTx_eq changeScript hminers hin
    (BitVec.le_def.mpr (hinval ▸ hworth)) hnet hne hpay
  have hdustval : Const.dustSats.toNat = 546 := rfl
  refine ⟨_, _, hbuild, ?_, fun o ho => (hchange o ho).2, ?_, ?_, ?_⟩
  · rw [houts, ← hnetval]
    rfl
  · intro o ho
    rcases List.mem_append.mp ho with ho | ho
    · rw [houts, List.nil_append] at ho
      obtain ⟨m, hm, rfl⟩ := List.mem_map.mp ho
      exact of_decide_eq_true (List.mem_filter.mp hm).2
    · have := (hchange o ho).1
      omega
  · simp only [List.map_append, List.sum_append, ← hsum]
    omega
  · simp only [List.map_append, List.sum_append, ← hsum]
    omega

/-- Of 100000 sats the smaller of two shares is dust, and so is what is
left over. -/
theorem build_payout_tx_value_twoMiners :
    ∃ tx change, buildPayoutTx sha256 100000 [([], 100000)]
        [⟨"0x1".toList, 1⟩, ⟨"0x2".toList, 200⟩] [0x51] = .ok tx
      ∧ tx.outputs = ([⟨"0x1".toList, 1⟩, ⟨"0x2".toList, 200⟩].filter
            fun m : MinerRoundEntry => 546 ≤ m.netWork.toNat * 100000 / 201).map
          (fun m => ⟨m.netWork.toNat * 100000 / 201,
            p2wshFromAddressBytes sha256 (hexTo32Bytes m.miner)⟩) ++ change
      ∧ (∀ o ∈ change, o.scriptPubKey = [0x51])
      ∧ (∀ o ∈ tx.outputs, 546 ≤ o.value)
      ∧ (tx.outputs.map TxOut.value).sum ≤ 100000
      ∧ 100000 - (tx.outputs.map TxOut.value).sum ≤ 546 :=
  build_payout_tx_value (by decide) (by decide) (by decide) (by decide)
    (by decide) (by decide)

end M1n3Protocol.Operator
