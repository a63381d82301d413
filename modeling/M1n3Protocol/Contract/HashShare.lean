/-
`hash_share.move`: minting a share as coins of its round's slot, and the
redemption pool those coins are burned into.

A `Redemption<T, _>` carries its coin type `T`, so it can only be paired
with the cap and the coins of that type: the field `capId` is that type
parameter, and `redeem` is called on objects that agree on it.
-/
import M1n3Protocol.Contract.HashShareRegistry
import M1n3Protocol.Contract.HashiRewards

namespace M1n3Protocol

open Checked

def Const.bundleFactor : U64 := 10_000
def Const.redemptionWindowMs : U64 := 2_592_000_000

structure Redemption where
  capId : ID
  roundId : U64
  supplyAtOpen : U64
  totalSats : U64
  outstandingSupply : U64
  paidSats : U64
  balance : U64
  deadlineMs : U64
  isExpired : Bool

-- ================================================================= mint

/-- What a mint leaves behind. `feeUnits` go to the fee recipient as a
coin of their own unless they are none; the caller gets the rest. -/
structure Minted where
  cap : TreasuryCap
  roundStats : MinerRoundStats
  minerUnits : U64
  feeUnits : U64

def mintShare (registry : HashShareRegistry) (capId : ID)
    (treasuryCap : TreasuryCap) (receipt : ShareReceipt)
    (minerRoundStats : MinerRoundStats) : Except Abort Minted := do
  assertCapMatchesRound registry receipt.roundId capId
  let roundStats ← recordSoldShare minerRoundStats receipt.miner
    receipt.difficulty receipt.roundId
  let bundledUnits := receipt.difficulty / Const.bundleFactor
  let cap ← coinMint treasuryCap bundledUnits
  let feeUnits ← mulDivDown bundledUnits registry.feeBps Const.bpsDenom
  let minerUnits ← balanceSplit bundledUnits feeUnits
  return { cap, roundStats, minerUnits, feeUnits }

-- ====================================================== open redemption

structure RedemptionOpened where
  vault : HashiVault
  record : BlockDepositRecord
  redemption : Redemption

/-- `redemptionId` is the id the new redemption gets. -/
def openRedemption (registry : HashShareRegistry) (capId : ID)
    (treasuryCap : TreasuryCap) (vault : HashiVault) (history : RoundHistory)
    (record : BlockDepositRecord) (redemptionId : ID) (ctx : TxContext) :
    Except Abort RedemptionOpened := do
  require (record.roundId = history.roundId) (.hashShare .ERoundMismatch)
  require (record.isConfirmed = true) (.hashShare .EDepositNotConfirmed)
  require (record.fundedBatchId.isSome = false)
    (.hashShare .ERedemptionAlreadyOpen)
  assertCapMatchesRound registry history.roundId capId
  let supplyAtOpen := treasuryCap.totalSupply
  require (0 < supplyAtOpen) (.hashShare .EZeroSupply)
  let totalSats := record.amountSats
  require (0 < totalSats) (.hashShare .EZeroBalance)
  let vault ← takeExactHbtc vault totalSats
  let deadlineMs ← addU ctx.timestampMs Const.redemptionWindowMs
  let record ← markFunded record (.redemption redemptionId)
  return {
    vault, record
    redemption := {
      capId
      roundId := history.roundId
      supplyAtOpen
      totalSats
      outstandingSupply := supplyAtOpen
      paidSats := 0
      balance := totalSats
      deadlineMs
      isExpired := false } }

-- =============================================================== redeem

/-- What a redemption of `burnedUnits` leaves behind; `payout` is the
coin handed out. -/
structure Redeemed where
  redemption : Redemption
  cap : TreasuryCap
  payout : U64

def redeem (redemption : Redemption) (treasuryCap : TreasuryCap)
    (burnedUnits : U64) (ctx : TxContext) : Except Abort Redeemed := do
  require (redemption.isExpired = false) (.hashShare .EAlreadyExpired)
  require (ctx.timestampMs < redemption.deadlineMs)
    (.hashShare .EAlreadyExpired)
  require (0 < burnedUnits) (.hashShare .EZeroAmount)
  let payout ←
    mulDivDown burnedUnits redemption.totalSats redemption.supplyAtOpen
  let cap ← coinBurn treasuryCap burnedUnits
  let outstandingSupply ← subU redemption.outstandingSupply burnedUnits
  let paidSats ← addU redemption.paidSats payout
  let balance ← balanceSplit redemption.balance payout
  return { redemption :=
             { redemption with outstandingSupply, paidSats, balance }
           cap, payout }

def recycleExpiredRedemption (redemption : Redemption) (vault : HashiVault)
    (ctx : TxContext) : Except Abort (Redemption × HashiVault) := do
  require (redemption.isExpired = false) (.hashShare .EAlreadyExpired)
  require (redemption.deadlineMs ≤ ctx.timestampMs)
    (.hashShare .EWindowNotPassed)
  let vault ← sweepToVault vault redemption.balance
  return ({ redemption with balance := 0, isExpired := true }, vault)

-- ======================================================= what they do

/-- A mint deducts the whole difficulty from the miner's pool work and
issues its bundles, split between the miner and the fee recipient. -/
theorem mintShare_ok {reg : HashShareRegistry} {capId : ID}
    {cap : TreasuryCap} {receipt : ShareReceipt} {mrs : MinerRoundStats}
    {out : Minted} (hok : mintShare reg capId cap receipt mrs = .ok out) :
    (∃ b, reg.rounds receipt.roundId = some b ∧ b.capId = capId)
      ∧ recordSoldShare mrs receipt.miner receipt.difficulty receipt.roundId
          = .ok out.roundStats
      ∧ coinMint cap (receipt.difficulty / Const.bundleFactor) = .ok out.cap
      ∧ out.minerUnits.toNat + out.feeUnits.toNat
          = receipt.difficulty.toNat / 10_000 := by
  simp only [mintShare, bind_eq_ok, assertCapMatchesRound_eq_ok, pure_eq_ok,
    balanceSplit_eq_ok] at hok
  obtain ⟨_, hbind, mrs', hmrs, cap', hcap, fee, -, mu, hmu, heq⟩ := hok
  subst heq
  exact ⟨hbind, hmrs, hcap, hmu⟩

/-- Opening a redemption spends the confirmed, unspent record on it, and
freezes the cap's supply as the divisor. -/
structure OpenedRedemption (registry : HashShareRegistry) (capId : ID)
    (cap : TreasuryCap) (vault : HashiVault) (history : RoundHistory)
    (record : BlockDepositRecord) (redemptionId : ID)
    (out : RedemptionOpened) : Prop where
  round : record.roundId = history.roundId
  confirmed : record.status = .confirmed
  unfunded : record.fundedBatchId = none
  bound : ∃ b, registry.rounds history.roundId = some b ∧ b.capId = capId
  supply_pos : 0 < cap.totalSupply.toNat
  take_ok : takeExactHbtc vault record.amountSats = .ok out.vault
  record_eq : out.record = { record with
    fundedBatchId := some (.redemption redemptionId) }
  cap_eq : out.redemption.capId = capId
  round_eq : out.redemption.roundId = history.roundId
  supply_eq : out.redemption.supplyAtOpen = cap.totalSupply
  total_eq : out.redemption.totalSats = record.amountSats
  outstanding_eq : out.redemption.outstandingSupply = cap.totalSupply
  paid_eq : out.redemption.paidSats = 0
  balance_eq : out.redemption.balance = record.amountSats
  expired_eq : out.redemption.isExpired = false

theorem openRedemption_ok {reg : HashShareRegistry} {capId : ID}
    {cap : TreasuryCap} {vault : HashiVault} {history : RoundHistory}
    {record : BlockDepositRecord} {rid : ID} {ctx : TxContext}
    {out : RedemptionOpened}
    (hok : openRedemption reg capId cap vault history record rid ctx
      = .ok out) :
    OpenedRedemption reg capId cap vault history record rid out := by
  simp only [openRedemption, bind_eq_ok, require_eq_ok, pure_eq_ok,
    assertCapMatchesRound_eq_ok, add_eq_ok, markFunded_eq_ok] at hok
  obtain ⟨-, hround, -, hconf, -, -, _, hbind, -, hpos, -, -, v, hv, dl, -,
    rec', ⟨hnone, hrec⟩, heq⟩ := hok
  subst heq
  exact {
    round := hround
    confirmed := of_decide_eq_true hconf
    unfunded := hnone
    bound := hbind
    supply_pos := BitVec.lt_def.mp hpos
    take_ok := hv
    record_eq := hrec.symm
    cap_eq := rfl
    round_eq := rfl
    supply_eq := rfl
    total_eq := rfl
    outstanding_eq := rfl
    paid_eq := rfl
    balance_eq := rfl
    expired_eq := rfl }

/-- A redemption pays the floor of the burned units' share, burns them
and takes them off the outstanding supply. -/
structure RedeemedOk (r : Redemption) (cap : TreasuryCap) (units : U64)
    (ctx : TxContext) (out : Redeemed) : Prop where
  live : r.isExpired = false
  in_time : ctx.timestampMs < r.deadlineMs
  units_pos : 0 < units.toNat
  payout_eq : out.payout.toNat
    = units.toNat * r.totalSats.toNat / r.supplyAtOpen.toNat
  burn_ok : coinBurn cap units = .ok out.cap
  outstanding_eq : out.redemption.outstandingSupply.toNat + units.toNat
    = r.outstandingSupply.toNat
  paid_eq : out.redemption.paidSats.toNat = r.paidSats.toNat + out.payout.toNat
  balance_eq : out.redemption.balance.toNat + out.payout.toNat
    = r.balance.toNat
  cap_eq : out.redemption.capId = r.capId
  round_eq : out.redemption.roundId = r.roundId
  supply_eq : out.redemption.supplyAtOpen = r.supplyAtOpen
  total_eq : out.redemption.totalSats = r.totalSats
  live_eq : out.redemption.isExpired = false

theorem redeem_ok {r : Redemption} {cap : TreasuryCap} {units : U64}
    {ctx : TxContext} {out : Redeemed}
    (hok : redeem r cap units ctx = .ok out) :
    RedeemedOk r cap units ctx out := by
  simp only [redeem, bind_eq_ok, require_eq_ok, pure_eq_ok, add_eq_ok,
    sub_eq_ok, mulDivDown_eq_ok, balanceSplit_eq_ok] at hok
  obtain ⟨-, hlive, -, htime, -, hpos, q, ⟨-, hq⟩, cap', hcap, os, hos, ps,
    hps, bal, hbal, heq⟩ := hok
  subst heq
  exact {
    live := hlive, in_time := htime, units_pos := BitVec.lt_def.mp hpos
    payout_eq := hq, burn_ok := hcap, outstanding_eq := hos, paid_eq := hps
    balance_eq := hbal, cap_eq := rfl, round_eq := rfl, supply_eq := rfl
    total_eq := rfl, live_eq := hlive }

/-- Units the redemption still counts, and that exist, are redeemed in
time where their payout still fits in its total. -/
theorem redeem_of_counted {r : Redemption} {cap : TreasuryCap} {units : U64}
    {ctx : TxContext} (hlive : r.isExpired = false)
    (htime : ctx.timestampMs < r.deadlineMs) (hpos : 0 < units.toNat)
    (hcounted : units.toNat ≤ r.outstandingSupply.toNat)
    (hsupply : units.toNat ≤ cap.totalSupply.toNat)
    (hopen : 0 < r.supplyAtOpen.toNat)
    (hheld : r.balance.toNat + r.paidSats.toNat = r.totalSats.toNat)
    (hfits : r.paidSats.toNat
      + units.toNat * r.totalSats.toNat / r.supplyAtOpen.toNat
        ≤ r.totalSats.toNat) :
    ∃ out, redeem r cap units ctx = .ok out := by
  have htotal : r.totalSats.toNat < 2 ^ 64 := r.totalSats.isLt
  generalize hn : units.toNat * r.totalSats.toNat / r.supplyAtOpen.toNat = n
    at hfits
  have hq : (BitVec.ofNat 64 n).toNat = n := by
    rw [BitVec.toNat_ofNat]
    exact Nat.mod_eq_of_lt (by omega)
  obtain ⟨cap', hcap, -⟩ := coinBurn_of_le hsupply
  obtain ⟨outstanding, -, hout⟩ := sub_of_le Abort.arithmetic hcounted
  obtain ⟨paid, -, hpaid⟩ := add_of_lt Abort.arithmetic
    (a := r.paidSats) (b := BitVec.ofNat 64 n) (by rw [hq]; omega)
  obtain ⟨balance, -, hbalance⟩ := sub_of_le Abort.arithmetic
    (a := r.balance) (b := BitVec.ofNat 64 n) (by rw [hq]; omega)
  refine ⟨{ redemption := { r with
              outstandingSupply := outstanding, paidSats := paid, balance }
            cap := cap', payout := BitVec.ofNat 64 n }, ?_⟩
  simp only [redeem, bind_eq_ok, require_eq_ok, pure_eq_ok, add_eq_ok,
    sub_eq_ok, mulDivDown_eq_ok, balanceSplit_eq_ok]
  exact ⟨(), hlive, (), htime, (), BitVec.lt_def.mpr hpos, BitVec.ofNat 64 n,
    ⟨hopen, by rw [hq, hn]⟩, cap', hcap, outstanding, hout, paid, hpaid,
    balance, hbalance, rfl⟩

theorem recycleExpiredRedemption_ok {r r' : Redemption} {v v' : HashiVault}
    {ctx : TxContext}
    (hok : recycleExpiredRedemption r v ctx = .ok (r', v')) :
    r.isExpired = false ∧ r.deadlineMs ≤ ctx.timestampMs
      ∧ sweepToVault v r.balance = .ok v'
      ∧ r' = { r with balance := 0, isExpired := true } := by
  simp only [recycleExpiredRedemption, bind_eq_ok, require_eq_ok,
    pure_eq_ok] at hok
  obtain ⟨-, hlive, -, hdl, w, hw, heq⟩ := hok
  injection heq with hr hv
  subst hr hv
  exact ⟨hlive, hdl, hw, rfl⟩

end M1n3Protocol
