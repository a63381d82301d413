/-
The mining side of the chain: the pool, its templates, the miners'
objects and the rounds, with every call that touches nothing else.

# Objects

Every object type has its own store. A call names the objects it is
given by id and aborts when one is missing. Who owns an object is not
tracked: any sender may pass any object, which only adds runs. A
`ShareReceipt` lives until its transaction ends.

# What the contract forgets

Some facts about a run are in no object: the shares accepted so far, the
records ever issued, which claim opened an accumulator, and which entry
registered a template. The stores `shares`, `issued` and `openings`
keep them, as do the tags of `TemplateObject`, `ClaimObject` and
`ReceiptObject`. They are written here and read by no source function.
-/
import M1n3Protocol.Lib.ObjStore
import M1n3Protocol.Contract.Orders
import M1n3Protocol.Contract.Round

namespace M1n3Protocol

open Checked

-- ============================================================== objects

/-- The entry a template came in through: `register_template`, with the
admin cap, or `register_template_public`. -/
inductive Lane
  | operator
  | permissionless
  deriving DecidableEq, Repr

structure TemplateObject where
  template : Template
  lane : Lane

/-- The template a share is mined on. -/
inductive TemplateRef
  | direct (id : ID)
  | derived (id : ID)
  deriving DecidableEq, Repr

/-- A frozen claim, and the share it was frozen for. -/
structure ClaimObject where
  claim : BlockFoundClaim
  share : ID

structure ReceiptObject where
  receipt : ShareReceipt
  share : ID

/-- The order a share was paid from. -/
inductive OrderRef
  | hashpower (id : ID)
  | buyer (id : ID)
  deriving DecidableEq, Repr

structure Payment where
  order : OrderRef
  payout : U64
  deriving DecidableEq, Repr

/-- An accepted share: where it was mined, the miner and round it was
recorded under, what it was worth, the order that paid for it, and how
often it was minted as coins. -/
structure ShareEntry where
  mined : TemplateRef
  miner : Address
  roundId : U64
  height : U64
  shareHash : Bytes
  difficulty : U64
  payment : Option Payment
  mints : Nat
  deriving DecidableEq, Repr

def ShareEntry.key (e : ShareEntry) : MinerRoundKey := ⟨e.miner, e.roundId⟩

/-- An accumulator that was opened, and the claim that opened it. -/
structure Opening where
  roundId : U64
  claim : ID

structure Mining where
  pool : Pool
  templates : ObjStore TemplateObject
  derived : ObjStore DerivedTemplate
  claims : ObjStore ClaimObject
  minerStats : ObjStore MinerStats
  roundRegistry : List MinerRoundKey
  roundStats : ObjStore MinerRoundStats
  dedupRegistry : List MinerRoundKey
  dedups : ObjStore ShareDedup
  receipts : ObjStore ReceiptObject
  accumulators : ObjStore RoundAccumulator
  histories : ObjStore RoundHistory
  workRecords : ObjStore MinerWorkRecord
  shares : ObjStore ShareEntry
  issued : ObjStore MinerWorkRecord
  openings : ObjStore Opening

/-- The mining side as published by `admin`. -/
def Mining.init (admin : Address) : Mining where
  pool := Pool.init admin
  templates := .empty
  derived := .empty
  claims := .empty
  minerStats := .empty
  roundRegistry := []
  roundStats := .empty
  dedupRegistry := []
  dedups := .empty
  receipts := .empty
  accumulators := .empty
  histories := .empty
  workRecords := .empty
  shares := .empty
  issued := .empty
  openings := .empty

-- =============================================================== lookups

/-- The miner's three objects a submission is given. -/
structure ShareIds where
  stats : ID
  round : ID
  dedup : ID
  deriving DecidableEq, Repr

def Mining.minerObjects (m : Mining) (ids : ShareIds) :
    Except Abort MinerObjects := do
  let stats ← load m.minerStats ids.stats
  let round ← load m.roundStats ids.round
  let dedup ← load m.dedups ids.dedup
  return ⟨stats, round, dedup⟩

/-- The job of the template a share is mined on. -/
def Mining.job (m : Mining) : TemplateRef → Option Job
  | .direct id => (m.templates.get id).map fun t => t.template.job
  | .derived id => (m.derived.get id).map DerivedTemplate.job

-- ============================================================== updates

/-- What an accepted share writes: the miner's objects, the claim frozen
for it, and its entry. -/
def Mining.recordShare (m : Mining) (ids : ShareIds) (mined : TemplateRef)
    (height : U64) (payment : Option Payment) (out : ShareOutcome) : Mining :=
  { m with
    minerStats := m.minerStats.put ids.stats out.objects.stats
    roundStats := m.roundStats.put ids.round out.objects.round
    dedups := m.dedups.put ids.dedup out.objects.dedup
    claims := match out.claim with
      | none => m.claims
      | some claim => m.claims.alloc ⟨claim, m.shares.next⟩
    shares := m.shares.alloc {
      mined, miner := out.objects.round.miner,
      roundId := out.objects.round.roundId, height,
      shareHash := out.share.shareHash, difficulty := out.share.difficulty,
      payment, mints := 0 } }

/-- What a mint writes on this side: the receipt is gone, the stats are
updated, and the share's entry counts one more mint. -/
def Mining.recordMint (m : Mining) (receiptId statsId share : ID)
    (stats : MinerRoundStats) : Mining :=
  { m with
    receipts := m.receipts.erase receiptId
    roundStats := m.roundStats.put statsId stats
    shares := match m.shares.get share with
      | none => m.shares
      | some e => m.shares.put share { e with mints := e.mints + 1 } }

/-- One pass of `accumulate_miner_stats`. -/
def Mining.accumulateOne (ctx : TxContext) (accId : ID) (m : Mining)
    (statsId : ID) : Except Abort Mining := do
  let acc ← load m.accumulators accId
  let mrs ← load m.roundStats statsId
  let (acc, record) ← accumulateStats acc mrs ctx.sender
  return { m with
    accumulators := m.accumulators.put accId acc
    roundStats := m.roundStats.erase statsId
    workRecords := match record with
      | none => m.workRecords
      | some r => m.workRecords.alloc r
    issued := match record with
      | none => m.issued
      | some r => m.issued.alloc r }

-- ================================================================ calls

/-- The calls that touch the mining side only. -/
inductive MiningCall
  | registerTemplatePublic (fee : U64) (args : TemplateArgs)
  | registerDerivedTemplatePublic (parent : ID) (fee : U64)
      (coinbase1 coinbase2 : Bytes) (ntime : U32)
  | registerMiner (btcPayoutAddress : Bytes)
  | setBtcPayoutAddress (stats : ID) (newAddress : Bytes)
  | createRoundStats (roundId minHeight : U64)
  | closeMinerRoundStats (mrs : ID)
  | createShareDedup (roundId : U64)
  | closeShareDedup (dedup : ID) (hashesToRemove : List Bytes)
  | deleteShareDedup (dedup : ID)
  | submitShare (template : ID) (ids : ShareIds) (sub : Submission)
  | openRoundAccumulatorFromClaim (claim : ID)
  | accumulateMinerStats (acc : ID) (mrsVec : List ID)
  | finalizeRound (acc : ID)

/-- The calls that take the `PoolAdminCap` and touch the mining side. -/
inductive AdminCall
  | registerTemplate (args : TemplateArgs)
  | resetDifficulty
  | setDifficulty (diff : U64)

def Mining.submitShare (H : HashFn) (ctx : TxContext) (m : Mining)
    (template : ID) (ids : ShareIds) (sub : Submission) :
    Except Abort Mining := do
  let t ← load m.templates template
  let o ← m.minerObjects ids
  let (out, receipt) ← M1n3Protocol.submitShare H t.template o sub ctx
  let m' := m.recordShare ids (.direct template) t.template.height none out
  return { m' with receipts := m'.receipts.alloc ⟨receipt, m.shares.next⟩ }

/-- The vector is drained from its end. -/
def Mining.accumulateMinerStats (ctx : TxContext) (m : Mining) (acc : ID)
    (mrsVec : List ID) : Except Abort Mining :=
  mrsVec.reverse.foldlM (Mining.accumulateOne ctx acc) m

def Mining.exec (H : HashFn) (ctx : TxContext) (m : Mining) :
    MiningCall → Except Abort Mining
  | .registerTemplatePublic fee args => do
      let (pool, t) ← M1n3Protocol.registerTemplatePublic m.pool fee args ctx
      return { m with
        pool, templates := m.templates.alloc ⟨t, .permissionless⟩ }
  | .registerDerivedTemplatePublic parent fee coinbase1 coinbase2 ntime => do
      let t ← load m.templates parent
      let d ← M1n3Protocol.registerDerivedTemplatePublic parent t.template fee
        coinbase1 coinbase2 ntime ctx
      return { m with derived := m.derived.alloc d }
  | .registerMiner btcPayoutAddress =>
      pure { m with
        minerStats := m.minerStats.alloc (registerMiner btcPayoutAddress ctx) }
  | .setBtcPayoutAddress stats newAddress => do
      let s ← load m.minerStats stats
      let s ← M1n3Protocol.setBtcPayoutAddress s newAddress ctx
      return { m with minerStats := m.minerStats.put stats s }
  | .createRoundStats roundId minHeight => do
      let (roundRegistry, mrs) ←
        M1n3Protocol.createRoundStats m.roundRegistry roundId minHeight ctx
      return { m with roundRegistry, roundStats := m.roundStats.alloc mrs }
  | .closeMinerRoundStats id => do
      let mrs ← load m.roundStats id
      M1n3Protocol.closeMinerRoundStats mrs ctx
      return { m with roundStats := m.roundStats.erase id }
  | .createShareDedup roundId => do
      let (dedupRegistry, d) ←
        M1n3Protocol.createShareDedup m.dedupRegistry roundId ctx
      return { m with dedupRegistry, dedups := m.dedups.alloc d }
  | .closeShareDedup id hashesToRemove => do
      let d ← load m.dedups id
      let d ← M1n3Protocol.closeShareDedup d hashesToRemove ctx
      return { m with dedups := m.dedups.put id d }
  | .deleteShareDedup id => do
      let d ← load m.dedups id
      M1n3Protocol.deleteShareDedup d ctx
      return { m with dedups := m.dedups.erase id }
  | .submitShare template ids sub => m.submitShare H ctx template ids sub
  | .openRoundAccumulatorFromClaim id => do
      let c ← load m.claims id
      let (pool, acc) ←
        M1n3Protocol.openRoundAccumulatorFromClaim m.pool c.claim ctx
      return match acc with
        | none => { m with pool }
        | some acc => { m with
            pool
            accumulators := m.accumulators.alloc acc
            openings := m.openings.alloc ⟨acc.roundId, id⟩ }
  | .accumulateMinerStats acc mrsVec => m.accumulateMinerStats ctx acc mrsVec
  | .finalizeRound id => do
      let acc ← load m.accumulators id
      let (pool, rh) ← M1n3Protocol.finalizeRound m.pool acc ctx
      return { m with
        pool
        accumulators := m.accumulators.erase id
        histories := m.histories.alloc rh }

/-- The caller has been checked to hold the cap. -/
def Mining.execAdmin (ctx : TxContext) (m : Mining) :
    AdminCall → Except Abort Mining
  | .registerTemplate args => do
      let (pool, t) ← M1n3Protocol.registerTemplate m.pool args ctx
      return { m with pool, templates := m.templates.alloc ⟨t, .operator⟩ }
  | .resetDifficulty =>
      pure { m with pool := M1n3Protocol.resetDifficulty m.pool }
  | .setDifficulty diff => do
      let pool ← M1n3Protocol.setDifficulty m.pool diff
      return { m with pool }

end M1n3Protocol
