/-
`pool.move`, round close: the accumulator opened from a block claim, the
drain of a miner's round stats into it, and the frozen history.
-/
import M1n3Protocol.Contract.Share

namespace M1n3Protocol

open Checked

def Const.accumulationWindowMs : U64 := 5_000

structure RoundAccumulator where
  roundId : U64
  totalWork : U128
  totalShares : U64
  createdAtMs : U64
  blockFinder : Address
  blockFoundHeight : U64

structure RoundHistory where
  roundId : U64
  totalWork : U128
  totalShares : U64
  closedAtMs : U64
  blockFinder : Address
  blockFoundHeight : U64

structure MinerWorkRecord where
  roundId : U64
  miner : Address
  netWork : U128
  deriving DecidableEq, Repr

def MinerWorkRecord.key (r : MinerWorkRecord) : MinerRoundKey :=
  ⟨r.miner, r.roundId⟩

-- ============================================================== entries

/-- No accumulator is made when one is already open. -/
def openRoundAccumulatorFromClaim (pool : Pool) (claim : BlockFoundClaim)
    (ctx : TxContext) : Except Abort (Pool × Option RoundAccumulator) := do
  require (claim.roundId = pool.currentRound) (.pool .ERoundMismatch)
  if pool.accumulatorOpen then
    return (pool, none)
  else
    return ({ pool with accumulatorOpen := true },
      some { roundId := pool.currentRound, totalWork := 0, totalShares := 0,
             createdAtMs := ctx.timestampMs, blockFinder := claim.blockFinder,
             blockFoundHeight := claim.height })

def netWork (mrs : MinerRoundStats) : U128 :=
  if mrs.work ≤ mrs.soldWork then 0 else mrs.work - mrs.soldWork

def netShares (mrs : MinerRoundStats) : U64 :=
  if mrs.shares ≤ mrs.soldShares then 0 else mrs.shares - mrs.soldShares

/-- One pass of the loop of `accumulate_miner_stats`: the accumulator
after the object is counted, and the record sent for it. An object of
another round is consumed without being counted. -/
def accumulateStats (acc : RoundAccumulator) (mrs : MinerRoundStats)
    (caller : Address) :
    Except Abort (RoundAccumulator × Option MinerWorkRecord) := do
  require (mrs.miner = caller) (.pool .EWrongMiner)
  if mrs.roundId = acc.roundId then do
    let totalWork ← addU acc.totalWork (netWork mrs)
    let totalShares ← addU acc.totalShares (netShares mrs)
    return ({ acc with totalWork, totalShares },
      if 0 < netWork mrs then
        some { roundId := acc.roundId, miner := caller,
               netWork := netWork mrs }
      else none)
  else
    return (acc, none)

def finalizeRound (pool : Pool) (acc : RoundAccumulator) (ctx : TxContext) :
    Except Abort (Pool × RoundHistory) := do
  require (acc.roundId = pool.currentRound) (.pool .ERoundMismatch)
  let closes ← addU acc.createdAtMs Const.accumulationWindowMs
  require (closes ≤ ctx.timestampMs) (.pool .EAccumulationWindowOpen)
  let currentRound ← addU pool.currentRound 1
  let totalBlocks ← addU pool.totalBlocks 1
  let totalShares ← addU pool.totalShares acc.totalShares
  return ({ pool with accumulatorOpen := false, currentRound, totalBlocks,
                      totalShares, roundStartMs := ctx.timestampMs },
    { roundId := acc.roundId, totalWork := acc.totalWork,
      totalShares := acc.totalShares, closedAtMs := ctx.timestampMs,
      blockFinder := acc.blockFinder,
      blockFoundHeight := acc.blockFoundHeight })

-- ======================================================= what they do

/-- An opening either changes nothing, an accumulator being open, or
opens an empty one for the current round. -/
theorem openRoundAccumulatorFromClaim_ok {pool pool' : Pool}
    {claim : BlockFoundClaim} {ctx : TxContext}
    {acc : Option RoundAccumulator}
    (hok : openRoundAccumulatorFromClaim pool claim ctx = .ok (pool', acc)) :
    claim.roundId = pool.currentRound
      ∧ ((pool.accumulatorOpen = true ∧ pool' = pool ∧ acc = none)
        ∨ (pool.accumulatorOpen = false
          ∧ pool' = { pool with accumulatorOpen := true }
          ∧ acc = some { roundId := pool.currentRound, totalWork := 0,
                         totalShares := 0, createdAtMs := ctx.timestampMs,
                         blockFinder := claim.blockFinder,
                         blockFoundHeight := claim.height })) := by
  simp only [openRoundAccumulatorFromClaim, bind_eq_ok, require_eq_ok] at hok
  obtain ⟨-, hround, hok⟩ := hok
  refine ⟨hround, ?_⟩
  split at hok
  case isTrue hopen =>
    rw [pure_eq_ok] at hok
    injection hok with hpool hacc
    exact .inl ⟨hopen, hpool.symm, hacc.symm⟩
  case isFalse hopen =>
    rw [pure_eq_ok] at hok
    injection hok with hpool hacc
    exact .inr ⟨by simpa using hopen, hpool.symm, hacc.symm⟩

/-- `net_work` is the difference, cut off at zero. -/
theorem toNat_netWork (mrs : MinerRoundStats) :
    (netWork mrs).toNat = mrs.work.toNat - mrs.soldWork.toNat := by
  unfold netWork
  split
  case isTrue h =>
    have : mrs.work.toNat ≤ mrs.soldWork.toNat := h
    rw [Nat.sub_eq_zero_of_le this]
    rfl
  case isFalse h =>
    have : ¬ mrs.work.toNat ≤ mrs.soldWork.toNat := h
    exact BitVec.toNat_sub_of_le (by rw [BitVec.le_def]; omega)

/-- A counted object adds its net work to the accumulator and gets a
record for it, unless that is nothing; an uncounted one changes
nothing. -/
theorem accumulateStats_ok {acc acc' : RoundAccumulator}
    {mrs : MinerRoundStats} {caller : Address}
    {record : Option MinerWorkRecord}
    (hok : accumulateStats acc mrs caller = .ok (acc', record)) :
    mrs.miner = caller
      ∧ ((mrs.roundId ≠ acc.roundId ∧ acc' = acc ∧ record = none)
        ∨ (mrs.roundId = acc.roundId
          ∧ acc'.roundId = acc.roundId
          ∧ acc'.totalWork.toNat
              = acc.totalWork.toNat + (mrs.work.toNat - mrs.soldWork.toNat)
          ∧ acc'.createdAtMs = acc.createdAtMs
          ∧ acc'.blockFinder = acc.blockFinder
          ∧ acc'.blockFoundHeight = acc.blockFoundHeight
          ∧ record = if 0 < netWork mrs then
              some ⟨mrs.roundId, mrs.miner, netWork mrs⟩ else none)) := by
  simp only [accumulateStats, bind_eq_ok, require_eq_ok] at hok
  obtain ⟨-, hcaller, hok⟩ := hok
  refine ⟨hcaller, ?_⟩
  split at hok
  case isFalse hne =>
    rw [pure_eq_ok] at hok
    injection hok with hacc hrec
    exact .inl ⟨hne, hacc.symm, hrec.symm⟩
  case isTrue heq =>
    simp only [bind_eq_ok, pure_eq_ok, add_eq_ok] at hok
    obtain ⟨tw, htw, ts, -, hok⟩ := hok
    injection hok with hacc hrec
    subst hacc hrec
    rw [toNat_netWork] at htw
    exact .inr ⟨heq, rfl, htw, rfl, rfl, rfl, by rw [heq, hcaller]⟩

/-- Finalizing closes the accumulator of the current round, freezes its
totals, and moves the pool to the next round. -/
theorem finalizeRound_ok {pool pool' : Pool} {acc : RoundAccumulator}
    {ctx : TxContext} {rh : RoundHistory}
    (hok : finalizeRound pool acc ctx = .ok (pool', rh)) :
    acc.roundId = pool.currentRound
      ∧ pool'.accumulatorOpen = false
      ∧ pool'.currentRound.toNat = pool.currentRound.toNat + 1
      ∧ pool'.totalBlocks.toNat = pool.totalBlocks.toNat + 1
      ∧ pool'.globalMinDifficulty = pool.globalMinDifficulty
      ∧ rh.roundId = acc.roundId ∧ rh.totalWork = acc.totalWork
      ∧ rh.blockFinder = acc.blockFinder
      ∧ rh.blockFoundHeight = acc.blockFoundHeight := by
  simp only [finalizeRound, bind_eq_ok, require_eq_ok, pure_eq_ok,
    add_eq_ok] at hok
  obtain ⟨-, hround, c, -, -, -, cr, hcr, tb, htb, ts, -, heq⟩ := hok
  injection heq with hpool hrh
  subst hpool hrh
  exact ⟨hround, rfl, hcr, htb, rfl, rfl, rfl, rfl, rfl⟩

theorem finalizeRound_height {pool pool' : Pool} {acc : RoundAccumulator}
    {ctx : TxContext} {rh : RoundHistory}
    (hok : finalizeRound pool acc ctx = .ok (pool', rh)) :
    pool'.currentHeight = pool.currentHeight := by
  simp only [finalizeRound, bind_eq_ok, require_eq_ok, pure_eq_ok] at hok
  obtain ⟨-, -, c, -, -, -, cr, -, tb, -, ts, -, heq⟩ := hok
  injection heq with hpool hrh
  subst hpool
  rfl

/-- Finalizing succeeds once the window is over, where the counters have
room. -/
theorem finalizeRound_of_due {pool : Pool} {acc : RoundAccumulator}
    {ctx : TxContext} (hround : acc.roundId = pool.currentRound)
    (hdue : acc.createdAtMs.toNat + Const.accumulationWindowMs.toNat
      ≤ ctx.timestampMs.toNat)
    (hrounds : pool.currentRound.toNat + 1 < 2 ^ 64)
    (hblocks : pool.totalBlocks.toNat + 1 < 2 ^ 64)
    (hshares : pool.totalShares.toNat + acc.totalShares.toNat < 2 ^ 64) :
    ∃ r, finalizeRound pool acc ctx = .ok r := by
  have hone : (1 : U64).toNat = 1 := rfl
  have hnow := ctx.timestampMs.isLt
  obtain ⟨closes, hcloses, hval⟩ := add_of_lt Abort.arithmetic
    (a := acc.createdAtMs) (b := Const.accumulationWindowMs) (by omega)
  obtain ⟨round, hr, -⟩ := add_of_lt Abort.arithmetic
    (a := pool.currentRound) (b := 1) (by omega)
  obtain ⟨blocks, hb, -⟩ := add_of_lt Abort.arithmetic
    (a := pool.totalBlocks) (b := 1) (by omega)
  obtain ⟨shares, hs, -⟩ := add_of_lt Abort.arithmetic hshares
  have hle : closes ≤ ctx.timestampMs := by
    rw [BitVec.le_def, hval]
    exact hdue
  exact ⟨_, bind_eq_ok.mpr ⟨(), require_eq_ok.mpr hround,
    bind_eq_ok.mpr ⟨closes, hcloses, bind_eq_ok.mpr ⟨(), require_eq_ok.mpr hle,
    bind_eq_ok.mpr ⟨round, hr, bind_eq_ok.mpr ⟨blocks, hb,
    bind_eq_ok.mpr ⟨shares, hs, rfl⟩⟩⟩⟩⟩⟩⟩

end M1n3Protocol
