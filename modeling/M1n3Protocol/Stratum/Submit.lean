/-
The stratum server's share path: what a `mining.submit` says, what it is
checked for, the header it stands for, and the block assembled from one
that meets the network's target.

# From text to a header

A submission is text. `look` is everything checked before the duplicate
table, and `build` the decoding after it, in the source's order: a text
that decodes to nothing has by then left its key behind. What comes out is
a `Mined` share, a job and the numbers its header is made of.
-/
import M1n3Protocol.Stratum.Target
import M1n3Protocol.Stratum.Template

namespace M1n3Protocol

open Checked

-- ============================================================ parameters

/-- A JSON value, as far as the handlers look at one. -/
inductive Value
  | string (s : Text)
  | other
deriving DecidableEq

def Value.asStr : Value → Option Text
  | .string s => some s
  | .other => none

/-- The text at `i`. -/
def paramText (params : List Value) (i : Nat) : Option Text :=
  params[i]?.bind Value.asStr

structure ShareSubmission where
  worker : Text
  jobId : Text
  extranonce2 : Text
  ntime : Text
  nonce : Text
  versionBits : Option U32
deriving DecidableEq

def parseSubmitParams (params : List Value) : ShareSubmission :=
  { worker := (paramText params 0).getD []
    jobId := (paramText params 1).getD []
    extranonce2 := (paramText params 2).getD []
    ntime := (paramText params 3).getD []
    nonce := (paramText params 4).getD []
    versionBits := (paramText params 5).bind (Hex.ofRadix 32) }

inductive SubmitError
  | emptyJobId
  | emptyExtranonce2
  | emptyNtime
  | emptyNonce
  | invalidExtranonce2
  | extranonce2Length (len : Nat)
  | invalidNtime
  | invalidNonce
  | unknownJob (jobId : Text)
  | unknownMiner
  | timeTooOld (ntime : U32) (mintime : U64)
  | timeTooNew (ntime : U32) (limit : U64)
  | badVersion (vbits : U32)
  | duplicate
  | extranonce1
deriving DecidableEq

open SubmitError in
/-- The message the miner is sent. -/
def SubmitError.message : SubmitError → String
  | emptyJobId => "Empty job_id"
  | emptyExtranonce2 => "Empty extranonce2"
  | emptyNtime => "Empty ntime"
  | emptyNonce => "Empty nonce"
  | invalidExtranonce2 => "Invalid extranonce2 hex"
  | extranonce2Length len =>
      "extranonce2 must be 8 bytes, got " ++ toString len
  | invalidNtime => "Invalid ntime hex"
  | invalidNonce => "Invalid nonce hex"
  | unknownJob jobId => "Unknown job ID: " ++ String.ofList jobId
  | unknownMiner => "Unknown miner"
  | timeTooOld ntime mintime => "time-too-old: ntime "
      ++ toString ntime.toNat ++ " < mintime " ++ toString mintime.toNat
  | timeTooNew ntime limit => "time-too-new: ntime "
      ++ toString ntime.toNat ++ " > curtime+7200 " ++ toString limit.toNat
  | badVersion vbits => "bad-version: version bits "
      ++ String.ofList (Hex.padded 8 vbits.toNat)
      ++ " outside allowed mask "
      ++ String.ofList (Hex.padded 8 Const.versionRollingMask.toNat)
  | duplicate => "duplicate: share already submitted"
  | extranonce1 => "extranonce1 is not hex"

def validateShareParams (share : ShareSubmission) :
    Except SubmitError Unit := do
  require (share.jobId ≠ []) .emptyJobId
  require (share.extranonce2 ≠ []) .emptyExtranonce2
  require (share.ntime ≠ []) .emptyNtime
  require (share.nonce ≠ []) .emptyNonce
  let en2 ← fetch (Hex.decode share.extranonce2) .invalidExtranonce2
  require (en2.length = 8) (.extranonce2Length en2.length)
  let _ ← fetch (Hex.ofRadix 32 share.ntime) .invalidNtime
  let _ ← fetch (Hex.ofRadix 32 share.nonce) .invalidNonce

-- ======================================================= a mined header

/-- A share with its texts read: the job, and what the miner chose. -/
structure Mined where
  job : MiningJob
  extranonce1 : Bytes
  extranonce2 : Bytes
  ntime : U32
  nonce : U32
  version : U32
deriving DecidableEq

def Mined.extranonce (m : Mined) : Bytes := m.extranonce1 ++ m.extranonce2

def Mined.header (H : HashFn) (m : Mined) : Bytes :=
  leBytes 4 m.version.toNat ++ m.job.prevBlockHash
    ++ calculateMerkleRoot H m.job.coinbase1 m.job.coinbase2 m.extranonce
        m.job.merkleBranches
    ++ leBytes 4 m.ntime.toNat ++ leBytes 4 m.job.nbits.toNat
    ++ leBytes 4 m.nonce.toNat

/-- A digest as the array the server keeps it in. -/
def digest32 (H : HashFn) (data : Bytes) : Bytes32 :=
  Vector.mk (sha256d H data).toArray (length_sha256d H data)

def Mined.shareHash (H : HashFn) (m : Mined) : Bytes32 :=
  digest32 H (m.header H)

/-- A hash within the network's target. -/
def Mined.isBlock (H : HashFn) (m : Mined) : Bool :=
  hashLeTarget (m.shareHash H) (targetFromNbits m.job.nbits)

-- ============================================================ difficulty

/-- The scan for the top byte: how many bytes there are up to it. -/
def significantBytes (hash : Bytes32) : (n : Nat) → n ≤ 32 → Nat
  | 0, _ => 0
  | i + 1, hi =>
      if hash[i] = 0 then significantBytes hash i (by omega) else i + 1

/-- The server's difficulty of a hash: the difficulty-1 target over the
window of at most eight bytes from the top one down. -/
def calculateDifficultyFromHash (hash : Bytes32) : U64 :=
  let n := significantBytes hash 32 Bytes32.width_le
  if n = 0 then BitVec.allOnes 64
  else
    let bytesToRead := min 8 n
    let hashVal : U64 := ((hash.toList.take n).reverse.take bytesToRead).foldl
      (fun v b => (v <<< 8) ||| b.setWidth 64) 0
    if hashVal = 0 then BitVec.allOnes 64
    else
      let exp : Int := 208 - 8 * (n - bytesToRead : Nat)
      if 112 ≤ exp then BitVec.allOnes 64
      else if 0 ≤ exp then
        let result := 0xFFFF * 2 ^ exp.toNat / hashVal.toNat
        if 2 ^ 64 ≤ result then BitVec.allOnes 64
        else BitVec.ofNat 64 result
      else BitVec.ofNat 64 (0xFFFF / (hashVal.toNat * 2 ^ (-exp).toNat))

-- ============================================================= the block

/-- The transaction count of a block. -/
def encodeVarint (val : U64) : Bytes :=
  if val < 0xfd then leBytes 1 val.toNat
  else if val ≤ 0xffff then 0xfd :: leBytes 2 val.toNat
  else if val ≤ 0xffffffff then 0xfe :: leBytes 4 val.toNat
  else 0xff :: leBytes 8 val.toNat

/-- The coinbase: with its witness spliced in before the locktime, or as
it was hashed. -/
def coinbaseBytes (coinbaseRaw : Bytes) (hasWitness : Bool) : Bytes :=
  if hasWitness then
    coinbaseRaw.take 4 ++ [0x00, 0x01]
      ++ (coinbaseRaw.take (coinbaseRaw.length - 4)).drop 4
      ++ [0x01, 0x20] ++ List.replicate 32 0
      ++ coinbaseRaw.drop (coinbaseRaw.length - 4)
  else coinbaseRaw

/-- It fails on transaction data that is not hex. -/
def assembleBlock (header coinbase1 extranonce coinbase2 : Bytes)
    (hasWitness : Bool) (transactionData : List Text) : Option Text := do
  let txs ← transactionData.mapM Hex.decode
  return Hex.encode (header
    ++ encodeVarint (BitVec.ofNat 64 (1 + transactionData.length))
    ++ coinbaseBytes (coinbase1 ++ extranonce ++ coinbase2) hasWitness
    ++ txs.flatten)

/-- The block of a share. -/
def Mined.block (H : HashFn) (m : Mined) : Option Text :=
  assembleBlock (m.header H) m.job.coinbase1 m.extranonce m.job.coinbase2
    m.job.hasWitnessCommitment m.job.transactionData

end M1n3Protocol
