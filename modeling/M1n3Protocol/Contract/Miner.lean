/-
`miner.move`: a miner's lifetime and per-round statistics, and the
registry that lets each (miner, round) pair have one `MinerRoundStats`
ever.

The dynamic fields of the shared `MinerRoundRegistry` are the list of
keys present. Entries are only added.
-/
import M1n3Protocol.Contract.Base

namespace M1n3Protocol

open Checked

/-- The key of a miner's objects of one round, in both registries. -/
structure MinerRoundKey where
  miner : Address
  roundId : U64
  deriving DecidableEq, Repr

structure MinerStats where
  miner : Address
  totalShares : U64
  blocksFound : U64
  registeredAtMs : U64
  btcPayoutAddress : Bytes
  deriving DecidableEq, Repr

structure MinerRoundStats where
  roundId : U64
  miner : Address
  work : U128
  shares : U64
  soldWork : U128
  soldShares : U64
  minHeight : U64
  deriving DecidableEq, Repr

def MinerRoundStats.key (mrs : MinerRoundStats) : MinerRoundKey :=
  ⟨mrs.miner, mrs.roundId⟩

-- ============================================================== entries

def registerMiner (btcPayoutAddress : Bytes) (ctx : TxContext) :
    MinerStats where
  miner := ctx.sender
  totalShares := 0
  blocksFound := 0
  registeredAtMs := ctx.timestampMs
  btcPayoutAddress := btcPayoutAddress

def setBtcPayoutAddress (stats : MinerStats) (newAddress : Bytes)
    (ctx : TxContext) : Except Abort MinerStats := do
  require (stats.miner = ctx.sender) (.miner .ENotOwner)
  return { stats with btcPayoutAddress := newAddress }

def createRoundStats (registry : List MinerRoundKey) (roundId minHeight : U64)
    (ctx : TxContext) :
    Except Abort (List MinerRoundKey × MinerRoundStats) := do
  let key : MinerRoundKey := ⟨ctx.sender, roundId⟩
  require (key ∉ registry) (.miner .EDuplicateRoundStats)
  return (key :: registry,
    { roundId, miner := ctx.sender, work := 0, shares := 0, soldWork := 0,
      soldShares := 0, minHeight })

/-- `close_miner_round_stats`: succeeds iff the object is deleted. -/
def closeMinerRoundStats (mrs : MinerRoundStats) (ctx : TxContext) :
    Except Abort Unit :=
  require (mrs.miner = ctx.sender) (.miner .ENotOwner)

-- ===================================================== package mutators

/-- The block counter, one up when the share is a block. -/
def countBlock (isBlock : Bool) (blocksFound : U64) : Except Abort U64 :=
  if isBlock then addU blocksFound 1 else pure blocksFound

def recordShare (stats : MinerStats) (mrs : MinerRoundStats)
    (difficulty : U64) (isBlock : Bool) (expectedRound height : U64) :
    Except Abort (MinerStats × MinerRoundStats) := do
  require (mrs.roundId = expectedRound) (.miner .ERoundMismatch)
  require (mrs.miner = stats.miner) (.miner .ENotOwner)
  require (mrs.minHeight ≤ height) (.miner .EStaleTemplate)
  let totalShares ← addU stats.totalShares 1
  let blocksFound ← countBlock isBlock stats.blocksFound
  let work ← addU mrs.work (difficulty.setWidth 128)
  let shares ← addU mrs.shares 1
  return ({ stats with totalShares, blocksFound },
    { mrs with work, shares, minHeight := height })

def recordSoldShare (mrs : MinerRoundStats) (miner : Address)
    (difficulty roundId : U64) : Except Abort MinerRoundStats := do
  require (mrs.roundId = roundId) (.miner .ERoundMismatch)
  require (mrs.miner = miner) (.miner .EMinerMismatch)
  let soldWork ← addU mrs.soldWork (difficulty.setWidth 128)
  let soldShares ← addU mrs.soldShares 1
  return { mrs with soldWork, soldShares }

-- ======================================================= what they do

theorem createRoundStats_ok {reg reg' : List MinerRoundKey} {r h : U64}
    {ctx : TxContext} {mrs : MinerRoundStats}
    (hok : createRoundStats reg r h ctx = .ok (reg', mrs)) :
    mrs.key ∉ reg ∧ reg' = mrs.key :: reg
      ∧ mrs = { roundId := r, miner := ctx.sender, work := 0, shares := 0,
                soldWork := 0, soldShares := 0, minHeight := h } := by
  simp only [createRoundStats, bind_eq_ok, require_eq_ok, pure_eq_ok] at hok
  obtain ⟨-, hfresh, heq⟩ := hok
  injection heq with hreg hmrs
  subst hmrs
  exact ⟨hfresh, hreg.symm, rfl⟩

/-- A recorded share adds its difficulty and raises the height ratchet;
nothing else of the round's stats moves. -/
theorem recordShare_ok {stats stats' : MinerStats}
    {mrs mrs' : MinerRoundStats} {d r h : U64} {b : Bool}
    (hok : recordShare stats mrs d b r h = .ok (stats', mrs')) :
    mrs.roundId = r ∧ mrs.miner = stats.miner ∧ mrs.minHeight ≤ h
      ∧ stats'.miner = stats.miner
      ∧ mrs'.roundId = mrs.roundId ∧ mrs'.miner = mrs.miner
      ∧ mrs'.work.toNat = mrs.work.toNat + d.toNat
      ∧ mrs'.shares.toNat = mrs.shares.toNat + 1
      ∧ mrs'.soldWork = mrs.soldWork ∧ mrs'.soldShares = mrs.soldShares
      ∧ mrs'.minHeight = h := by
  simp only [recordShare, bind_eq_ok, require_eq_ok, pure_eq_ok, add_eq_ok,
    toNat_widen] at hok
  obtain ⟨-, hr, -, hm, -, hh, ts, -, bf, -, w, hw, n, hn, heq⟩ := hok
  injection heq with hstats hmrs
  subst hstats hmrs
  exact ⟨hr, hm, hh, rfl, rfl, rfl, hw, hn, rfl, rfl, rfl⟩

/-- A sold share adds its difficulty to the sold side only. -/
theorem recordSoldShare_ok {mrs mrs' : MinerRoundStats} {m : Address}
    {d r : U64} (hok : recordSoldShare mrs m d r = .ok mrs') :
    mrs.roundId = r ∧ mrs.miner = m
      ∧ mrs'.roundId = mrs.roundId ∧ mrs'.miner = mrs.miner
      ∧ mrs'.work = mrs.work ∧ mrs'.shares = mrs.shares
      ∧ mrs'.soldWork.toNat = mrs.soldWork.toNat + d.toNat
      ∧ mrs'.soldShares.toNat = mrs.soldShares.toNat + 1
      ∧ mrs'.minHeight = mrs.minHeight := by
  simp only [recordSoldShare, bind_eq_ok, require_eq_ok, pure_eq_ok,
    add_eq_ok, toNat_widen] at hok
  obtain ⟨-, hr, -, hm, w, hw, n, hn, heq⟩ := hok
  subst heq
  exact ⟨hr, hm, rfl, rfl, rfl, rfl, hw, hn, rfl⟩

end M1n3Protocol
