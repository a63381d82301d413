/-
Jobs from templates on chain: what the pooled server reads of a template,
the job it makes of it, and the submission a share on that job becomes.

# What is kept and what is not

A previous block hash of another length becomes zeros, and a branch of
another length is dropped, since a job holds arrays of 32 bytes. The
lower bound of a share's time is zero: the server leaves that one to the
contract.
-/
import M1n3Protocol.Stratum.Submit

namespace M1n3Protocol

-- ============================================================ the template

/-- What of a template object goes into its job. -/
structure TemplateObjectData where
  templateId : Text
  height : U64
  prevBlockHash : Bytes
  coinbase1 : Bytes
  coinbase2 : Bytes
  merkleBranches : List Bytes
  version : U32
  nbits : U32
  ntime : U32

/-- The fields of an object on chain, as they are read from it. -/
def Template.objectData (t : Template) (templateId : Text) :
    TemplateObjectData :=
  { templateId := templateId
    height := t.height
    prevBlockHash := t.prevBlockHash
    coinbase1 := t.coinbase1
    coinbase2 := t.coinbase2
    merkleBranches := t.merkleBranches
    version := t.version
    nbits := t.nbits
    ntime := t.ntime }

-- ================================================================= the job

def createMiningJobFromTemplateObject (H : HashFn) (jobId : Text)
    (template : TemplateObjectData) : MiningJob :=
  let prevBlockHash :=
    if template.prevBlockHash.length = 32 then template.prevBlockHash
    else List.replicate 32 0
  let merkleBranches := template.merkleBranches.filter fun b => b.length = 32
  { jobId := jobId
    height := template.height
    prevBlockHash := prevBlockHash
    coinbase1 := template.coinbase1
    coinbase2 := template.coinbase2
    merkleBranches := merkleBranches
    version := template.version
    nbits := template.nbits
    ntime := template.ntime
    cleanJobs := true
    merkleRootBase := calculateMerkleRoot H template.coinbase1
      template.coinbase2 (List.replicate 12 0) merkleBranches
    suiTemplateId := some template.templateId
    mintime := 0
    curtime := template.ntime.setWidth 64
    hasWitnessCommitment := false
    transactionData := []
    templateSeq := 0 }

/-- The arguments of `submit_share` for a share as it was mined. -/
def Mined.submission (m : Mined) : Submission :=
  { extranonce1 := m.extranonce1
    extranonce2 := m.extranonce2
    ntime := m.ntime
    nonce := m.nonce
    version := m.version }

end M1n3Protocol
