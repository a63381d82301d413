/-
`hashi_rewards.move`: the reward batch of a finalized round, funded from
the vault, claimed against `MinerWorkRecord`s, and swept back after its
deadline.
-/
import M1n3Protocol.Contract.HashiPool
import M1n3Protocol.Contract.HashiVault
import M1n3Protocol.Contract.Round

namespace M1n3Protocol

open Checked

def Const.trustlessClaimWindowMs : U64 := 2_592_000_000

inductive BatchStatus
  | pending
  | funded
  | completed
  | expired
  deriving DecidableEq, Repr

structure HashiRewardRegistry where
  totalBatches : U64
  totalSatsDistributed : U128
  totalSatsExpired : U128

/-- `init`. -/
def HashiRewardRegistry.init : HashiRewardRegistry where
  totalBatches := 0
  totalSatsDistributed := 0
  totalSatsExpired := 0

structure HashiRewardBatch where
  roundId : U64
  totalSats : U64
  claimedSats : U64
  balance : U64
  status : BatchStatus
  createdAtMs : U64
  fundedAtMs : Option U64
  claimDeadlineMs : U64
  completedAtMs : Option U64

/-- What opening a batch leaves behind. -/
structure BatchOpened where
  registry : HashiRewardRegistry
  vault : HashiVault
  record : BlockDepositRecord
  batch : HashiRewardBatch

/-- `batchId` is the id the new batch gets. -/
def openAndFundRoundBatch (registry : HashiRewardRegistry)
    (vault : HashiVault) (history : RoundHistory)
    (record : BlockDepositRecord) (batchId : ID) (ctx : TxContext) :
    Except Abort BatchOpened := do
  require (record.roundId = history.roundId) (.rewards .ERoundMismatch)
  require (record.isConfirmed = true) (.rewards .EDepositNotConfirmed)
  let totalSats := record.amountSats
  require (0 < totalSats) (.rewards .EZeroBalance)
  let vault ← takeExactHbtc vault totalSats
  let claimDeadlineMs ← addU ctx.timestampMs Const.trustlessClaimWindowMs
  let totalBatches ← addU registry.totalBatches 1
  let record ← markFunded record (.batch batchId)
  return {
    registry := { registry with totalBatches }
    vault, record
    batch := {
      roundId := history.roundId
      totalSats
      claimedSats := 0
      balance := totalSats
      status := .funded
      createdAtMs := ctx.timestampMs
      fundedAtMs := some ctx.timestampMs
      claimDeadlineMs
      completedAtMs := none } }

/-- The residue of a sweep goes back to the vault, unless it is nothing.
Shared by the two recycle paths. -/
def sweepToVault (vault : HashiVault) (residual : U64) :
    Except Abort HashiVault :=
  if 0 < residual then depositHbtc vault residual else pure vault

def recycleExpiredToVault (registry : HashiRewardRegistry)
    (batch : HashiRewardBatch) (vault : HashiVault) (ctx : TxContext) :
    Except Abort (HashiRewardRegistry × HashiRewardBatch × HashiVault) := do
  require (batch.status = .funded) (.rewards .EInvalidStatus)
  require (batch.claimDeadlineMs ≤ ctx.timestampMs)
    (.rewards .EDeadlineNotReached)
  let reclaimed := batch.balance
  let vault ← sweepToVault vault reclaimed
  let totalSatsDistributed ←
    addU registry.totalSatsDistributed (batch.claimedSats.setWidth 128)
  let totalSatsExpired ←
    addU registry.totalSatsExpired (reclaimed.setWidth 128)
  return ({ registry with totalSatsDistributed, totalSatsExpired },
    { batch with balance := 0, status := .expired }, vault)

/-- The tail of a claim: a drained batch is completed and its payouts are
booked. -/
def completeIfDrained (registry : HashiRewardRegistry)
    (batch : HashiRewardBatch) (ctx : TxContext) :
    Except Abort (HashiRewardRegistry × HashiRewardBatch) :=
  if batch.balance = 0 then do
    let totalSatsDistributed ←
      addU registry.totalSatsDistributed (batch.claimedSats.setWidth 128)
    return ({ registry with totalSatsDistributed },
      { batch with status := .completed
                   completedAtMs := some ctx.timestampMs })
  else
    pure (registry, batch)

/-- The last component is the coin sent to the miner. -/
def claimReward (registry : HashiRewardRegistry) (batch : HashiRewardBatch)
    (record : MinerWorkRecord) (history : RoundHistory) (ctx : TxContext) :
    Except Abort (HashiRewardRegistry × HashiRewardBatch × U64) := do
  require (batch.status = .funded) (.rewards .EInvalidStatus)
  require (ctx.timestampMs < batch.claimDeadlineMs)
    (.rewards .EClaimDeadlinePassed)
  require (record.roundId = batch.roundId) (.rewards .ERoundMismatch)
  require (record.roundId = history.roundId) (.rewards .ERoundMismatch)
  require (record.miner = ctx.sender) (.rewards .EWrongMiner)
  require (0 < history.totalWork) (.rewards .EZeroWork)
  let quotient ←
    mulDivDown record.netWork (batch.totalSats.setWidth 128) history.totalWork
  let amount ← cast (v := 64) Abort.arithmetic quotient
  let claimedSats ← addU batch.claimedSats amount
  let balance ← balanceSplit batch.balance amount
  let (registry, batch) ←
    completeIfDrained registry { batch with claimedSats, balance } ctx
  return (registry, batch, amount)

-- ======================================================= what they do

/-- Opening a batch spends the confirmed, unspent record on it: the vault
pays exactly the record's amount, the batch holds exactly that. -/
structure OpenedBatch (registry : HashiRewardRegistry) (vault : HashiVault)
    (history : RoundHistory) (record : BlockDepositRecord) (batchId : ID)
    (out : BatchOpened) : Prop where
  round : record.roundId = history.roundId
  confirmed : record.status = .confirmed
  unfunded : record.fundedBatchId = none
  take_ok : takeExactHbtc vault record.amountSats = .ok out.vault
  record_eq : out.record = { record with
    fundedBatchId := some (.batch batchId) }
  batches : out.registry.totalBatches.toNat = registry.totalBatches.toNat + 1
  distributed : out.registry.totalSatsDistributed
    = registry.totalSatsDistributed
  expired : out.registry.totalSatsExpired = registry.totalSatsExpired
  batch_round : out.batch.roundId = history.roundId
  batch_total : out.batch.totalSats = record.amountSats
  batch_claimed : out.batch.claimedSats = 0
  batch_balance : out.batch.balance = record.amountSats
  batch_status : out.batch.status = .funded

theorem openAndFundRoundBatch_ok {registry : HashiRewardRegistry}
    {vault : HashiVault} {history : RoundHistory}
    {record : BlockDepositRecord} {batchId : ID} {ctx : TxContext}
    {out : BatchOpened}
    (hok : openAndFundRoundBatch registry vault history record batchId ctx
      = .ok out) :
    OpenedBatch registry vault history record batchId out := by
  simp only [openAndFundRoundBatch, bind_eq_ok, require_eq_ok, pure_eq_ok,
    add_eq_ok, markFunded_eq_ok] at hok
  obtain ⟨-, hround, -, hconf, -, -, v, hv, dl, -, n, hn, rec', ⟨hnone, hrec⟩,
    heq⟩ := hok
  subst heq
  exact {
    round := hround
    confirmed := of_decide_eq_true hconf
    unfunded := hnone
    take_ok := hv
    record_eq := hrec.symm
    batches := hn
    distributed := rfl
    expired := rfl
    batch_round := rfl
    batch_total := rfl
    batch_claimed := rfl
    batch_balance := rfl
    batch_status := rfl }

/-- A confirmed record that is not spent opens its round's batch, where
vault, clock and registry have room. -/
theorem openAndFundRoundBatch_of_confirmed {registry : HashiRewardRegistry}
    {vault : HashiVault} {history : RoundHistory}
    {record : BlockDepositRecord} {batchId : ID} {ctx : TxContext}
    (hround : record.roundId = history.roundId)
    (hconfirmed : record.status = .confirmed)
    (hunfunded : record.fundedBatchId = none)
    (hpos : 0 < record.amountSats)
    (hheld : record.amountSats.toNat ≤ vault.hbtc.toNat)
    (hwithdrawn : vault.totalWithdrawnHbtc.toNat + record.amountSats.toNat
      < 2 ^ 64)
    (hclock : ctx.timestampMs.toNat + Const.trustlessClaimWindowMs.toNat
      < 2 ^ 64)
    (hbatches : registry.totalBatches.toNat + 1 < 2 ^ 64) :
    ∃ out, openAndFundRoundBatch registry vault history record batchId ctx
      = .ok out := by
  obtain ⟨v, hv⟩ := takeExactHbtc_of_le hpos hheld hwithdrawn
  obtain ⟨d, hd, -⟩ := add_of_lt Abort.arithmetic hclock
  obtain ⟨n, hn, -⟩ := add_of_lt Abort.arithmetic
    (a := registry.totalBatches) (b := 1) hbatches
  exact ⟨_, bind_eq_ok.mpr ⟨(), require_eq_ok.mpr hround,
    bind_eq_ok.mpr ⟨(), require_eq_ok.mpr (decide_eq_true hconfirmed),
    bind_eq_ok.mpr ⟨(), require_eq_ok.mpr hpos,
    bind_eq_ok.mpr ⟨v, hv, bind_eq_ok.mpr ⟨d, hd, bind_eq_ok.mpr ⟨n, hn,
    bind_eq_ok.mpr ⟨_, markFunded_eq_ok.mpr ⟨hunfunded, rfl⟩,
    rfl⟩⟩⟩⟩⟩⟩⟩⟩

/-- A sweep moves exactly the residue. -/
theorem sweepToVault_ok {v v' : HashiVault} {a : U64}
    (hok : sweepToVault v a = .ok v') :
    v'.hbtc.toNat = v.hbtc.toNat + a.toNat
      ∧ v'.totalReceivedHbtc.toNat = v.totalReceivedHbtc.toNat + a.toNat
      ∧ v'.totalWithdrawnHbtc = v.totalWithdrawnHbtc := by
  unfold sweepToVault at hok
  split at hok
  case isTrue => exact depositHbtc_ok hok
  case isFalse hz =>
    rw [pure_eq_ok] at hok
    have hzero : a.toNat = 0 := by
      rw [BitVec.lt_def] at hz
      exact Nat.eq_zero_of_not_pos hz
    rw [← hok, hzero]
    exact ⟨rfl, rfl, rfl⟩

theorem recycleExpiredToVault_ok {reg reg' : HashiRewardRegistry}
    {b b' : HashiRewardBatch} {v v' : HashiVault} {ctx : TxContext}
    (hok : recycleExpiredToVault reg b v ctx = .ok (reg', b', v')) :
    b.status = .funded ∧ b.claimDeadlineMs ≤ ctx.timestampMs
      ∧ sweepToVault v b.balance = .ok v'
      ∧ b' = { b with balance := 0, status := .expired }
      ∧ reg'.totalBatches = reg.totalBatches
      ∧ reg'.totalSatsDistributed.toNat
          = reg.totalSatsDistributed.toNat + b.claimedSats.toNat
      ∧ reg'.totalSatsExpired.toNat
          = reg.totalSatsExpired.toNat + b.balance.toNat := by
  simp only [recycleExpiredToVault, bind_eq_ok, require_eq_ok, pure_eq_ok,
    add_eq_ok, toNat_widen] at hok
  obtain ⟨-, hs, -, hdl, w, hw, d, hd, e, he, heq⟩ := hok
  injection heq with hreg heq
  injection heq with hb hv
  subst hreg hb hv
  exact ⟨hs, hdl, hw, rfl, rfl, hd, he⟩

/-- A claim pays the floor of the record's share, out of the batch's
balance; a batch it drains is completed. -/
structure Claimed (reg : HashiRewardRegistry) (b : HashiRewardBatch)
    (record : MinerWorkRecord) (history : RoundHistory) (ctx : TxContext)
    (reg' : HashiRewardRegistry) (b' : HashiRewardBatch) (amount : U64) :
    Prop where
  was_funded : b.status = .funded
  in_time : ctx.timestampMs < b.claimDeadlineMs
  round_batch : record.roundId = b.roundId
  round_history : record.roundId = history.roundId
  miner : record.miner = ctx.sender
  amount_eq : amount.toNat
    = record.netWork.toNat * b.totalSats.toNat / history.totalWork.toNat
  claimed_eq : b'.claimedSats.toNat = b.claimedSats.toNat + amount.toNat
  balance_eq : b'.balance.toNat + amount.toNat = b.balance.toNat
  round_eq : b'.roundId = b.roundId
  total_eq : b'.totalSats = b.totalSats
  batches_eq : reg'.totalBatches = reg.totalBatches
  expired_eq : reg'.totalSatsExpired = reg.totalSatsExpired
  ending : (b'.balance.toNat = 0 ∧ b'.status = .completed
      ∧ reg'.totalSatsDistributed.toNat
          = reg.totalSatsDistributed.toNat + b'.claimedSats.toNat)
    ∨ (0 < b'.balance.toNat ∧ b'.status = .funded
      ∧ reg'.totalSatsDistributed = reg.totalSatsDistributed)

theorem claimReward_ok {reg reg' : HashiRewardRegistry}
    {b b' : HashiRewardBatch} {record : MinerWorkRecord}
    {history : RoundHistory} {ctx : TxContext} {amount : U64}
    (hok : claimReward reg b record history ctx = .ok (reg', b', amount)) :
    Claimed reg b record history ctx reg' b' amount := by
  simp only [claimReward, bind_eq_ok, require_eq_ok, pure_eq_ok,
    add_eq_ok, cast_eq_ok, mulDivDown_eq_ok, balanceSplit_eq_ok,
    toNat_widen] at hok
  obtain ⟨-, hs, -, hdl, -, hrb, -, hrh, -, hm, -, -, q, ⟨-, hq⟩, a, ha, c, hc,
    bal, hbal, ⟨r, b1⟩, hend, heq⟩ := hok
  injection heq with hreg heq
  injection heq with hb hamount
  subst hreg hb hamount
  unfold completeIfDrained at hend
  split at hend
  case isTrue hz =>
    simp only [bind_eq_ok, pure_eq_ok, add_eq_ok, toNat_widen] at hend
    obtain ⟨d, hd, heq⟩ := hend
    injection heq with hreg hb
    subst hreg hb
    have hz' : bal.toNat = 0 := by rw [show bal = 0 from hz]; rfl
    exact {
      was_funded := hs, in_time := hdl, round_batch := hrb
      round_history := hrh, miner := hm, amount_eq := ha.trans hq
      claimed_eq := hc, balance_eq := hbal, round_eq := rfl, total_eq := rfl
      batches_eq := rfl, expired_eq := rfl, ending := .inl ⟨hz', rfl, hd⟩ }
  case isFalse hz =>
    rw [pure_eq_ok] at hend
    injection hend with hreg hb
    subst hreg hb
    have hz' : 0 < bal.toNat :=
      Nat.pos_of_ne_zero fun h => hz (BitVec.eq_of_toNat_eq h)
    exact {
      was_funded := hs, in_time := hdl, round_batch := hrb
      round_history := hrh, miner := hm, amount_eq := ha.trans hq
      claimed_eq := hc, balance_eq := hbal, round_eq := rfl, total_eq := rfl
      batches_eq := rfl, expired_eq := rfl, ending := .inr ⟨hz', hs, rfl⟩ }

/-- A claim that meets the checks succeeds where its amount still fits in
the batch's total and the registry can book the batch. -/
theorem claimReward_of_fits {reg : HashiRewardRegistry}
    {b : HashiRewardBatch} {record : MinerWorkRecord}
    {history : RoundHistory} {ctx : TxContext}
    (hs : b.status = .funded) (hdl : ctx.timestampMs < b.claimDeadlineMs)
    (hrb : record.roundId = b.roundId)
    (hrh : record.roundId = history.roundId)
    (hm : record.miner = ctx.sender) (hW : 0 < history.totalWork.toNat)
    (hheld : b.balance.toNat + b.claimedSats.toNat = b.totalSats.toNat)
    (hfits : b.claimedSats.toNat
      + record.netWork.toNat * b.totalSats.toNat / history.totalWork.toNat
        ≤ b.totalSats.toNat)
    (hreg : reg.totalSatsDistributed.toNat + b.totalSats.toNat < 2 ^ 128) :
    ∃ out, claimReward reg b record history ctx = .ok out := by
  have htotal : b.totalSats.toNat < 2 ^ 64 := b.totalSats.isLt
  generalize hn : record.netWork.toNat * b.totalSats.toNat
    / history.totalWork.toNat = n at hfits
  -- Each value of the run, as the exact natural it stands for.
  have hq : (BitVec.ofNat 128 n).toNat = n := by
    rw [BitVec.toNat_ofNat]
    exact Nat.mod_eq_of_lt (by omega)
  have ha : (BitVec.ofNat 64 n).toNat = n := by
    rw [BitVec.toNat_ofNat]
    exact Nat.mod_eq_of_lt (by omega)
  obtain ⟨claimed, -, hclaimed⟩ := add_of_lt Abort.arithmetic
    (a := b.claimedSats) (b := BitVec.ofNat 64 n) (by rw [ha]; omega)
  obtain ⟨balance, -, hbalance⟩ := sub_of_le Abort.arithmetic
    (a := b.balance) (b := BitVec.ofNat 64 n) (by rw [ha]; omega)
  have hend : ∃ out, completeIfDrained reg
      { b with claimedSats := claimed, balance } ctx = .ok out := by
    unfold completeIfDrained
    split
    case isFalse => exact ⟨_, rfl⟩
    case isTrue =>
      obtain ⟨d, hd, -⟩ := add_of_lt Abort.arithmetic
        (a := reg.totalSatsDistributed) (b := claimed.setWidth 128)
        (by rw [toNat_widen]; omega)
      exact ⟨_, bind_eq_ok.mpr ⟨d, hd, rfl⟩⟩
  obtain ⟨⟨reg', b'⟩, hend⟩ := hend
  refine ⟨(reg', b', BitVec.ofNat 64 n), ?_⟩
  simp only [claimReward, bind_eq_ok, require_eq_ok, pure_eq_ok, add_eq_ok,
    cast_eq_ok, mulDivDown_eq_ok, balanceSplit_eq_ok, toNat_widen]
  exact ⟨(), hs, (), hdl, (), hrb, (), hrh, (), hm, (), hW,
    BitVec.ofNat 128 n, ⟨hW, by rw [hq, hn]⟩, BitVec.ofNat 64 n,
    by rw [ha, hq], claimed, hclaimed, balance, hbalance, (reg', b'), hend,
    rfl⟩

end M1n3Protocol
