/-
`pool.move`, share submission: the header a submission hashes to, the
validation the five submit functions share, and the operator lane's
`submit_share`.

# One validation, three callers

The source writes the same checks out three times, in `submit_share`,
`validate_share_against_template` and `validate_share_against_derived`.
Here they are `validateShare` on a `Job`, the fields the three read from
either kind of template. The callers differ in the round the work is
recorded under: the template's own, or, on a derived template, whatever
round the `MinerRoundStats` passed in belongs to.
-/
import M1n3Protocol.Contract.Pool
import M1n3Protocol.Contract.ShareDedup

namespace M1n3Protocol

open Checked

def Const.versionRollingMask : U32 := 0x1fffe000

/-- What share validation reads from a template of either kind. -/
structure Job extends TemplateArgs where
  roundId : U64
  minDifficulty : U64
  cachedNetworkDifficulty : U64

def Template.job (t : Template) : Job :=
  { toTemplateArgs := t.toTemplateArgs, roundId := t.roundId,
    minDifficulty := t.minDifficulty,
    cachedNetworkDifficulty := t.cachedNetworkDifficulty }

def DerivedTemplate.job (d : DerivedTemplate) : Job :=
  { toTemplateArgs := d.toTemplateArgs, roundId := d.roundId,
    minDifficulty := d.minDifficulty,
    cachedNetworkDifficulty := d.cachedNetworkDifficulty }

/-- The caller-chosen part of a share. -/
structure Submission where
  extranonce1 : Bytes
  extranonce2 : Bytes
  ntime : U32
  nonce : U32
  version : U32

/-- The three objects a submission updates. -/
structure MinerObjects where
  stats : MinerStats
  round : MinerRoundStats
  dedup : ShareDedup

/-- What a validation returns. -/
structure Validated where
  sender : Address
  shareHash : Bytes
  difficulty : U64
  isBlock : Bool
  now : U64

-- ============================================================ the header

def Job.coinbase (job : Job) (sub : Submission) : Bytes :=
  job.coinbase1 ++ sub.extranonce1 ++ sub.extranonce2 ++ job.coinbase2

/-- The loop over the branches: hash the running root with each. -/
def merkleRoot (H : HashFn) (coinbaseHash : Bytes) (branches : List Bytes) :
    Bytes :=
  branches.foldl (fun current branch => sha256d H (current ++ branch))
    coinbaseHash

def Job.header (H : HashFn) (job : Job) (sub : Submission) : Bytes :=
  u32Le sub.version ++ job.prevBlockHash
    ++ merkleRoot H (sha256d H (job.coinbase sub)) job.merkleBranches
    ++ u32Le sub.ntime ++ u32Le job.nbits ++ u32Le sub.nonce

def Job.shareHash (H : HashFn) (job : Job) (sub : Submission) : Bytes :=
  sha256d H (job.header H sub)

-- ======================================================== the validation

def validateShare (H : HashFn) (job : Job) (recordRound : U64)
    (o : MinerObjects) (sub : Submission) (ctx : TxContext) :
    Except Abort (MinerObjects × Validated) := do
  require (o.stats.miner = ctx.sender) (.pool .EWrongMiner)
  require (o.dedup.miner = ctx.sender) (.pool .EWrongMiner)
  require (o.dedup.roundId = job.roundId) (.pool .EWrongTemplate)
  require ((sub.version ^^^ job.version)
      &&& (0xFFFFFFFF ^^^ Const.versionRollingMask) = 0)
    (.pool .EInvalidVersionRolling)
  let inWindow ← ntimeInWindow job.ntime sub.ntime
  require (inWindow = true) (.pool .EInvalidNtime)
  let shareHash := job.shareHash H sub
  let difficulty ← difficultyFromHash shareHash
  require (job.minDifficulty ≤ difficulty)
    (.pool .EShareDoesNotMeetDifficulty)
  let dedup ← checkAndRecord o.dedup shareHash
  let isBlock := decide (job.cachedNetworkDifficulty ≤ difficulty)
  let (stats, round) ←
    recordShare o.stats o.round difficulty isBlock recordRound job.height
  return (⟨stats, round, dedup⟩,
    ⟨ctx.sender, shareHash, difficulty, isBlock, ctx.timestampMs⟩)

def validateShareAgainstTemplate (H : HashFn) (template : Template)
    (o : MinerObjects) (sub : Submission) (ctx : TxContext) :
    Except Abort (MinerObjects × Validated) :=
  validateShare H template.job template.roundId o sub ctx

/-- The derived path records under the round of the stats object it was
handed (`mrs_round_id`). -/
def validateShareAgainstDerived (H : HashFn) (derived : DerivedTemplate)
    (o : MinerObjects) (sub : Submission) (ctx : TxContext) :
    Except Abort (MinerObjects × Validated) :=
  validateShare H derived.job o.round.roundId o sub ctx

-- ================================================================ claims

structure BlockFoundClaim where
  roundId : U64
  height : U64
  blockFinder : Address
  shareHash : Bytes
  foundAtMs : U64

def maybeFreezeBlockClaim (isBlock : Bool) (roundId height : U64)
    (blockFinder : Address) (shareHash : Bytes) (now : U64) :
    Option BlockFoundClaim :=
  if isBlock then some ⟨roundId, height, blockFinder, shareHash, now⟩
  else none

-- ========================================================== submit_share

structure ShareReceipt where
  miner : Address
  templateOwner : Address
  difficulty : U64
  roundId : U64

/-- What a submission leaves behind: the updated objects, the validated
share, and the claim frozen for it. -/
structure ShareOutcome where
  objects : MinerObjects
  share : Validated
  claim : Option BlockFoundClaim

def submitShare (H : HashFn) (template : Template) (o : MinerObjects)
    (sub : Submission) (ctx : TxContext) :
    Except Abort (ShareOutcome × ShareReceipt) := do
  let (objects, share) ← validateShareAgainstTemplate H template o sub ctx
  let claim := maybeFreezeBlockClaim share.isBlock template.roundId
    template.height share.sender share.shareHash share.now
  return (⟨objects, share, claim⟩,
    { miner := share.sender, templateOwner := template.owner,
      difficulty := share.difficulty, roundId := template.roundId })

-- ======================================================= what they do

/-- Everything an accepted share has passed, and what it changed. -/
structure Accepted (H : HashFn) (job : Job) (recordRound : U64)
    (o : MinerObjects) (sub : Submission) (ctx : TxContext)
    (o' : MinerObjects) (v : Validated) : Prop where
  stats_miner : o.stats.miner = ctx.sender
  dedup_miner : o.dedup.miner = ctx.sender
  dedup_round : o.dedup.roundId = job.roundId
  ntime_ok : ntimeInWindow job.ntime sub.ntime = .ok true
  sender_eq : v.sender = ctx.sender
  hash_eq : v.shareHash = job.shareHash H sub
  now_eq : v.now = ctx.timestampMs
  difficulty_eq : difficultyFromHash v.shareHash = .ok v.difficulty
  min_le : job.minDifficulty ≤ v.difficulty
  isBlock_eq : v.isBlock = decide (job.cachedNetworkDifficulty ≤ v.difficulty)
  dedup_ok : checkAndRecord o.dedup v.shareHash = .ok o'.dedup
  record_ok : recordShare o.stats o.round v.difficulty v.isBlock recordRound
    job.height = .ok (o'.stats, o'.round)

theorem validateShare_ok {H : HashFn} {job : Job} {recordRound : U64}
    {o o' : MinerObjects} {sub : Submission} {ctx : TxContext}
    {v : Validated}
    (hok : validateShare H job recordRound o sub ctx = .ok (o', v)) :
    Accepted H job recordRound o sub ctx o' v := by
  simp only [validateShare, bind_eq_ok, require_eq_ok, pure_eq_ok] at hok
  obtain ⟨-, hsm, -, hdm, -, hdr, -, -, w, hw, -, htrue, d, hd, -, hmin,
    dd, hdd, ⟨st, rd⟩, hrec, heq⟩ := hok
  injection heq with ho hv
  subst ho hv htrue
  exact ⟨hsm, hdm, hdr, hw, rfl, rfl, rfl, hd, hmin, rfl, hdd, hrec⟩

theorem submitShare_ok {H : HashFn} {t : Template} {o : MinerObjects}
    {sub : Submission} {ctx : TxContext} {out : ShareOutcome}
    {receipt : ShareReceipt}
    (hok : submitShare H t o sub ctx = .ok (out, receipt)) :
    Accepted H t.job t.roundId o sub ctx out.objects out.share
      ∧ out.claim = maybeFreezeBlockClaim out.share.isBlock t.roundId
          t.height out.share.sender out.share.shareHash out.share.now
      ∧ receipt = { miner := ctx.sender, templateOwner := t.owner,
                    difficulty := out.share.difficulty,
                    roundId := t.roundId } := by
  simp only [submitShare, bind_eq_ok, pure_eq_ok] at hok
  obtain ⟨⟨objects, share⟩, hval, heq⟩ := hok
  injection heq with hout hrec
  subst hout hrec
  have hacc := validateShare_ok hval
  exact ⟨hacc, rfl, by simp only [hacc.sender_eq]⟩

end M1n3Protocol
