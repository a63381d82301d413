/-
`pool.move`: the pool object, the two kinds of template, and their
registration.

Both operator and buyer templates are `Template` objects made by
`registerTemplateInner`; nothing in the object says which entry made it.
A `DerivedTemplate` copies its parent's header fields, round and
difficulties, and brings its own `coinbase2` and `ntime`.
-/
import M1n3Protocol.Contract.Difficulty

namespace M1n3Protocol

open Checked

def Const.maxNtimeOffsetSeconds : U32 := 7200
def Const.permissionlessTemplateFeeMist : U64 := 10_000_000
def Const.maxMerkleBranches : Nat := 64

structure Pool where
  admin : Address
  totalBlocks : U64
  totalShares : U64
  currentRound : U64
  roundStartMs : U64
  globalMinDifficulty : U64
  accumulatorOpen : Bool
  currentHeight : U64

/-- `init`: the pool as published by `admin`. -/
def Pool.init (admin : Address) : Pool where
  admin := admin
  totalBlocks := 0
  totalShares := 0
  currentRound := 0
  roundStartMs := 0
  globalMinDifficulty := Const.minDifficulty
  accumulatorOpen := false
  currentHeight := 0

/-- The arguments of a registration: a Bitcoin block template. -/
structure TemplateArgs where
  height : U64
  prevBlockHash : Bytes
  coinbase1 : Bytes
  coinbase2 : Bytes
  merkleBranches : List Bytes
  version : U32
  nbits : U32
  ntime : U32

structure Template extends TemplateArgs where
  owner : Address
  createdAtMs : U64
  roundId : U64
  minDifficulty : U64
  cachedNetworkDifficulty : U64

structure DerivedTemplate extends TemplateArgs where
  parentTemplateId : ID
  roundId : U64
  owner : Address
  createdAtMs : U64
  minDifficulty : U64
  cachedNetworkDifficulty : U64

-- ======================================================== registration

def registerTemplateInner (pool : Pool) (args : TemplateArgs)
    (ctx : TxContext) : Except Abort (Pool × Template) := do
  require (args.merkleBranches.length ≤ Const.maxMerkleBranches)
    (.pool .EInvalidMerkleTree)
  let height :=
    if pool.currentHeight < args.height then args.height
    else pool.currentHeight
  return ({ pool with currentHeight := height },
    { args with
      owner := ctx.sender
      createdAtMs := ctx.timestampMs
      roundId := pool.currentRound
      minDifficulty := pool.globalMinDifficulty
      cachedNetworkDifficulty := nbitsToDifficulty args.nbits })

/-- The `PoolAdminCap` is a reference argument: whoever passes it may
call. -/
def registerTemplate (pool : Pool) (args : TemplateArgs) (ctx : TxContext) :
    Except Abort (Pool × Template) :=
  registerTemplateInner pool args ctx

def registerTemplatePublic (pool : Pool) (fee : U64) (args : TemplateArgs)
    (ctx : TxContext) : Except Abort (Pool × Template) := do
  require (Const.permissionlessTemplateFeeMist ≤ fee)
    (.pool .EInsufficientTemplateFee)
  registerTemplateInner pool args ctx

/-- The window test on `ntime`: not evaluated past its lower half when
that fails, and aborting where the upper bound overflows. -/
def ntimeInWindow (base ntime : U32) : Except Abort Bool :=
  let minNtime :=
    if Const.maxNtimeOffsetSeconds < base
    then base - Const.maxNtimeOffsetSeconds else 0
  if minNtime ≤ ntime then do
    let maxNtime ← addU base Const.maxNtimeOffsetSeconds
    return decide (ntime ≤ maxNtime)
  else
    pure false

def registerDerivedTemplatePublic (parentId : ID) (parent : Template)
    (fee : U64) (coinbase1 coinbase2 : Bytes) (ntime : U32)
    (ctx : TxContext) : Except Abort DerivedTemplate := do
  require (Const.permissionlessTemplateFeeMist ≤ fee)
    (.pool .EInsufficientTemplateFee)
  let inWindow ← ntimeInWindow parent.ntime ntime
  require (inWindow = true) (.pool .EDerivedNtimeOutOfWindow)
  require (coinbase1 = parent.coinbase1) (.pool .EDerivedCoinbase1Mismatch)
  verifyDerivedCoinbase parent.coinbase2 coinbase2
  return {
    height := parent.height
    prevBlockHash := parent.prevBlockHash
    coinbase1, coinbase2
    merkleBranches := parent.merkleBranches
    version := parent.version
    nbits := parent.nbits
    ntime
    parentTemplateId := parentId
    roundId := parent.roundId
    owner := ctx.sender
    createdAtMs := ctx.timestampMs
    minDifficulty := parent.minDifficulty
    cachedNetworkDifficulty := parent.cachedNetworkDifficulty }

-- =============================================================== admin

def resetDifficulty (pool : Pool) : Pool :=
  { pool with globalMinDifficulty := Const.minDifficulty }

def setDifficulty (pool : Pool) (diff : U64) : Except Abort Pool := do
  require (Const.minDifficulty ≤ diff ∧ diff ≤ Const.maxDifficulty)
    (.pool .ENotAdmin)
  return { pool with globalMinDifficulty := diff }

-- ======================================================= what they do

/-- A registered template carries the pool's round and difficulty floor,
and the network difficulty of its own `nbits`; the pool moves in its
height only. -/
theorem registerTemplateInner_ok {pool pool' : Pool} {args : TemplateArgs}
    {ctx : TxContext} {t : Template}
    (hok : registerTemplateInner pool args ctx = .ok (pool', t)) :
    (∃ h, pool' = { pool with currentHeight := h })
      ∧ t.toTemplateArgs = args ∧ t.owner = ctx.sender
      ∧ t.roundId = pool.currentRound
      ∧ t.minDifficulty = pool.globalMinDifficulty
      ∧ t.cachedNetworkDifficulty = nbitsToDifficulty args.nbits := by
  simp only [registerTemplateInner, bind_eq_ok, require_eq_ok,
    pure_eq_ok] at hok
  obtain ⟨-, -, heq⟩ := hok
  injection heq with hpool ht
  subst hpool ht
  exact ⟨⟨_, rfl⟩, rfl, rfl, rfl, rfl, rfl⟩

/-- The pool's height is the greater of what it was and the new
template's. -/
theorem registerTemplateInner_height {pool pool' : Pool}
    {args : TemplateArgs} {ctx : TxContext} {t : Template}
    (hok : registerTemplateInner pool args ctx = .ok (pool', t)) :
    pool.currentHeight ≤ pool'.currentHeight
      ∧ t.height ≤ pool'.currentHeight
      ∧ (pool'.currentHeight = pool.currentHeight
        ∨ pool'.currentHeight = t.height) := by
  simp only [registerTemplateInner, bind_eq_ok, require_eq_ok,
    pure_eq_ok] at hok
  obtain ⟨-, -, heq⟩ := hok
  injection heq with hpool ht
  subst hpool ht
  dsimp only
  split
  case isTrue hlt =>
    exact ⟨BitVec.le_of_lt hlt, BitVec.le_refl _, .inr rfl⟩
  case isFalse hle =>
    exact ⟨BitVec.le_refl _, BitVec.not_lt.mp hle, .inl rfl⟩

theorem registerTemplatePublic_ok {pool : Pool} {fee : U64}
    {args : TemplateArgs} {ctx : TxContext} {r : Pool × Template}
    (hok : registerTemplatePublic pool fee args ctx = .ok r) :
    registerTemplateInner pool args ctx = .ok r := by
  simp only [registerTemplatePublic, bind_eq_ok, require_eq_ok] at hok
  obtain ⟨-, -, h⟩ := hok
  exact h

/-- A derived template has its parent's first half, round and
difficulties, and a tail that passed the structural check. -/
theorem registerDerivedTemplatePublic_ok {pid : ID} {parent : Template}
    {fee : U64} {c1 c2 : Bytes} {ntime : U32} {ctx : TxContext}
    {d : DerivedTemplate}
    (hok : registerDerivedTemplatePublic pid parent fee c1 c2 ntime ctx
      = .ok d) :
    d.parentTemplateId = pid ∧ d.coinbase1 = parent.coinbase1
      ∧ d.roundId = parent.roundId
      ∧ d.minDifficulty = parent.minDifficulty
      ∧ d.cachedNetworkDifficulty = parent.cachedNetworkDifficulty
      ∧ d.nbits = parent.nbits
      ∧ verifyDerivedCoinbase parent.coinbase2 d.coinbase2 = .ok () := by
  simp only [registerDerivedTemplatePublic, bind_eq_ok, require_eq_ok,
    pure_eq_ok] at hok
  obtain ⟨-, -, w, -, -, -, -, hc1, u, hverify, heq⟩ := hok
  subst heq
  exact ⟨rfl, hc1, rfl, rfl, rfl, rfl, hverify⟩

theorem setDifficulty_ok {pool pool' : Pool} {diff : U64}
    (hok : setDifficulty pool diff = .ok pool') :
    Const.minDifficulty ≤ diff ∧ diff ≤ Const.maxDifficulty
      ∧ pool' = { pool with globalMinDifficulty := diff } := by
  simp only [setDifficulty, bind_eq_ok, require_eq_ok, pure_eq_ok] at hok
  obtain ⟨-, ⟨hlo, hhi⟩, heq⟩ := hok
  exact ⟨hlo, hhi, heq.symm⟩

end M1n3Protocol
