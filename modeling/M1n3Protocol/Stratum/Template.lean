/-
The stratum server's jobs: the block template `getblocktemplate` returns,
the coinbase and the merkle branches made from it, and the `MiningJob`
that holds them until a share for it comes back.

# The coinbase in two halves

The input script is cut before the extranonce: `coinbase1` ends in the
height push and has already declared the length of the whole script, with
the twelve bytes of an extranonce to come.

# What a job keeps

A job keeps what a share needs for its header, and, for the block a share
may turn out to be, the witness flag and the raw transactions.
-/
import M1n3Protocol.Contract.Share
import M1n3Protocol.Lib.Hex
import M1n3Protocol.Lib.Merkle

namespace M1n3Protocol

-- ========================================================== the template

structure TemplateTransaction where
  data : Text
  txid : Text
deriving DecidableEq

/-- What of `getblocktemplate` the server reads. -/
structure BlockTemplate where
  version : BitVec 64
  previousblockhash : Text
  transactions : List TemplateTransaction
  coinbasevalue : U64
  mintime : U64
  curtime : U64
  bits : Text
  height : U64
  defaultWitnessCommitment : Option Text
deriving DecidableEq

def BlockTemplate.hasWitnessCommitment (template : BlockTemplate) : Bool :=
  template.defaultWitnessCommitment.any fun s => !s.isEmpty

/-- The previous block hash, in hash order. -/
def BlockTemplate.prevBlockHash (template : BlockTemplate) : Option Bytes :=
  (Hex.decodeFixed 32 template.previousblockhash).map List.reverse

/-- The transaction ids in hash order; one that does not decode is
skipped. -/
def BlockTemplate.txids (template : BlockTemplate) : List Bytes :=
  template.transactions.filterMap fun tx =>
    (Hex.decodeFixed 32 tx.txid).map List.reverse

-- ========================================================== the coinbase

/-- The loop that drops the high zero bytes and keeps one byte. -/
def heightLen (raw : Bytes) : Nat → Nat
  | n + 2 => if raw.getD (n + 1) 0 = 0 then heightLen raw (n + 1) else n + 2
  | n => n

/-- The height as a minimal script number. -/
def heightBytes (height : U64) : Bytes :=
  let raw := leBytes 8 height.toNat
  let bytes := raw.take (heightLen raw 8)
  if bytes.getLast?.any fun b => b &&& 0x80 ≠ 0 then bytes ++ [0] else bytes

/-- A script length; above 32 bits only the low four bytes are written. -/
def encodeScriptLen (len : Nat) : Bytes :=
  if len < 0xfd then leBytes 1 len
  else if len ≤ 0xffff then 0xfd :: leBytes 2 len
  else 0xfe :: leBytes 4 len

/-- The configured script, or an all-zero key hash without one. -/
def payoutScript (poolAddressScript : Bytes) : Bytes :=
  if poolAddressScript.isEmpty then
    [0x76, 0xa9, 0x14] ++ List.replicate 20 0 ++ [0x88, 0xac]
  else poolAddressScript

/-- The bytes of the commitment output, none where there is none. -/
def commitmentOutput (template : BlockTemplate) : Option Bytes :=
  match template.defaultWitnessCommitment with
  | none => some []
  | some commitmentHex =>
      if commitmentHex.isEmpty then some []
      else (Hex.decode commitmentHex).map fun commitment =>
        leBytes 8 0 ++ encodeScriptLen commitment.length ++ commitment

def coinbase1 (template : BlockTemplate) : Bytes :=
  let height := heightBytes template.height
  leBytes 4 1 ++ [1] ++ List.replicate 32 0 ++ List.replicate 4 0xff
    ++ [BitVec.ofNat 8 (1 + height.length + 12)]
    ++ [BitVec.ofNat 8 height.length] ++ height

/-- It fails on a commitment that is not hex. -/
def createCoinbase (template : BlockTemplate) (poolAddressScript : Bytes) :
    Option (Bytes × Bytes) := do
  let payout := payoutScript poolAddressScript
  let outputCount : BitVec 8 :=
    if template.hasWitnessCommitment then 2 else 1
  let commitment ← commitmentOutput template
  return (coinbase1 template,
    List.replicate 4 0xff ++ [outputCount]
      ++ leBytes 8 template.coinbasevalue.toNat
      ++ encodeScriptLen payout.length ++ payout
      ++ commitment ++ List.replicate 4 0)

-- ========================================================== the branches

def hashPair (H : HashFn) (left right : Bytes) : Bytes :=
  sha256d H (left ++ right)

def calculateMerkleBranches (H : HashFn) (template : BlockTemplate) :
    List Bytes :=
  Merkle.branches (hashPair H) template.txids

def calculateMerkleRoot (H : HashFn)
    (coinbase1 coinbase2 extranonce : Bytes) (branches : List Bytes) :
    Bytes :=
  branches.foldl (hashPair H)
    (sha256d H (coinbase1 ++ extranonce ++ coinbase2))

theorem length_foldl_hashPair (H : HashFn) (branches : List Bytes)
    (data : Bytes) :
    (branches.foldl (hashPair H) (sha256d H data)).length = 32 := by
  induction branches generalizing data with
  | nil => exact length_sha256d H data
  | cons branch branches ih => exact ih (sha256d H data ++ branch)

-- =============================================================== the job

structure MiningJob where
  jobId : Text
  height : U64
  prevBlockHash : Bytes
  coinbase1 : Bytes
  coinbase2 : Bytes
  merkleBranches : List Bytes
  version : U32
  nbits : U32
  ntime : U32
  cleanJobs : Bool
  merkleRootBase : Bytes
  suiTemplateId : Option Text
  mintime : U64
  curtime : U64
  hasWitnessCommitment : Bool
  transactionData : List Text
  templateSeq : U64
deriving DecidableEq

/-- The id of the `n`-th job. -/
def jobIdOf (n : Nat) : Text := Hex.padded 8 n

def createNewJobFromTemplate (H : HashFn) (poolAddressScript : Bytes)
    (jobCounter : Nat) (template : BlockTemplate) : Option MiningJob := do
  let prevBlockHash ← template.prevBlockHash
  let (coinbase1, coinbase2) ← createCoinbase template poolAddressScript
  let merkleBranches := calculateMerkleBranches H template
  let nbits ← Hex.ofRadix 32 template.bits
  return {
    jobId := jobIdOf jobCounter
    height := template.height
    prevBlockHash := prevBlockHash
    coinbase1 := coinbase1
    coinbase2 := coinbase2
    merkleBranches := merkleBranches
    version := template.version.setWidth 32
    nbits := nbits
    ntime := template.curtime.setWidth 32
    cleanJobs := true
    merkleRootBase := calculateMerkleRoot H coinbase1 coinbase2
      (List.replicate 12 0) merkleBranches
    suiTemplateId := none
    mintime := template.mintime
    curtime := template.curtime
    hasWitnessCommitment := template.hasWitnessCommitment
    transactionData := template.transactions.map TemplateTransaction.data
    templateSeq := 0 }

/-- The job of a mempool refresh: a clone of the current one, with new
coinbase and branches. -/
def MiningJob.refreshed (H : HashFn) (job : MiningJob) (jobId : Text)
    (coinbase1 coinbase2 : Bytes) (template : BlockTemplate) : MiningJob :=
  let newBranches := calculateMerkleBranches H template
  { job with
    jobId := jobId
    templateSeq := job.templateSeq + 1
    merkleBranches := newBranches
    coinbase1 := coinbase1
    coinbase2 := coinbase2
    merkleRootBase := calculateMerkleRoot H coinbase1 coinbase2
      (List.replicate 12 0) newBranches
    ntime := template.curtime.setWidth 32
    cleanJobs := false
    suiTemplateId := none }

end M1n3Protocol
