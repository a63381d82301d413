/-
The stratum server in solo mode: the loop that turns block templates into
jobs, the miners' connections, and the queue and batches on which accepted
shares go to the chain.

# Where the loop waits

`job_updater` awaits three things: the next template, the answer of the
flusher before a mempool refresh, and the registration of the template on
chain. It is cut there (`Updater`), so that connections and flusher can
run in between. An `Event` is what the outside does: an answer to one of
these calls, a line from a miner, the end of a timer. Metrics, timestamps
and what is written to the sockets are left out.

# Difficulty

The two loops that set difficulties are here as what they write, with any
value: the server's own difficulty, and a floor pushed to all miners.

# Text

Beyond ASCII a username is not lowered; neither such a character nor its
lower case is a hex digit, so the extranonce it stands for decodes
neither way.
-/
import M1n3Protocol.Lib.Machine
import M1n3Protocol.Stratum.Submit

namespace M1n3Protocol

open Checked

-- ============================================================= the flusher

structure MinerShare where
  extranonce2 : Bytes
  ntime : U32
  nonce : U32
  version : U32
deriving DecidableEq

/-- What goes to the flusher: a share and its template, or a request to
flush, with an answer to wait for or without. -/
inductive BatchMsg
  | share (templatePda : Text) (share : MinerShare)
  | flush
  | flushAndWait
deriving DecidableEq

/-- The arguments of one `submit_share` call. -/
structure PendingShare where
  extranonce1 : Bytes
  extranonce2 : Bytes
  ntime : U32
  nonce : U32
  version : U32
deriving DecidableEq

/-- The arguments `submit_batch` passes on. -/
def PendingShare.submission (share : PendingShare) : Submission :=
  { extranonce1 := share.extranonce1
    extranonce2 := share.extranonce2
    ntime := share.ntime
    nonce := share.nonce
    version := share.version }

def MinerShare.pending (share : MinerShare) : PendingShare :=
  { extranonce1 := []
    extranonce2 := share.extranonce2
    ntime := share.ntime
    nonce := share.nonce
    version := share.version }

-- =============================================================== the state

abbrev SocketAddr := Nat

structure Config where
  /-- The payout script, empty without one. -/
  poolAddressScript : Bytes
  /-- Whether there is a miner keypair, and so a queue to the flusher. -/
  solo : Bool
  minerBatchSize : Nat
  initialDifficulty : U64

structure MinerState where
  workerName : Text
  suiAddress : Option Text
  sharesSubmitted : U64
  extranonce1 : Text
  difficulty : U64
deriving DecidableEq

/-- Where the job updater waits. -/
inductive Updater
  | polling
  /-- For the flusher; then a refreshed job is registered. -/
  | flushing (job : MiningJob) (oldTpda : Option Text)
  | registeringRefresh (job : MiningJob) (oldTpda : Option Text)
  | registeringBlock (job : MiningJob)
deriving DecidableEq

structure ServerState where
  currentJob : Option MiningJob
  jobs : List (Text × MiningJob)
  jobCounter : Nat
  currentPrevHash : Option Bytes
  previousTemplatePda : Option Text
  updater : Updater
  globalDifficulty : U64
  miners : SocketAddr → Option MinerState
  submittedShares : Fin 16 → List Text
  /-- Handed to `submitblock`. -/
  blocks : List Text
  /-- The queue to the flusher. -/
  minerTx : List BatchMsg
  batch : List (Text × PendingShare)
  /-- The batches handed to `submit_batch`. -/
  submitted : List (List (Text × PendingShare))

def ServerState.init (cfg : Config) : ServerState :=
  { currentJob := none, jobs := [], jobCounter := 0, currentPrevHash := none,
    previousTemplatePda := none, updater := .polling,
    globalDifficulty := cfg.initialDifficulty, miners := fun _ => none,
    submittedShares := fun _ => [], blocks := [], minerTx := [], batch := [],
    submitted := [] }

def ServerState.setMiner (s : ServerState) (addr : SocketAddr)
    (m : Option MinerState) : ServerState :=
  { s with miners := fun a => if a = addr then m else s.miners a }

/-- On the queue, where there is one. -/
def ServerState.send (cfg : Config) (s : ServerState) (msg : BatchMsg) :
    ServerState :=
  if cfg.solo then { s with minerTx := s.minerTx ++ [msg] } else s

-- ========================================================= the job updater

/-- The smallest key; `key` so far. -/
def minKey : Text → List (Text × MiningJob) → Text
  | key, [] => key
  | key, p :: jobs => minKey (if p.1 < key then p.1 else key) jobs

def removeJob (jobs : List (Text × MiningJob)) (key : Text) :
    List (Text × MiningJob) :=
  jobs.filter fun p => p.1 ≠ key

/-- The loop that drops the smallest key while more than ten are left. -/
def trimJobs : Nat → List (Text × MiningJob) → List (Text × MiningJob)
  | n + 1, p :: jobs =>
      if 10 < (p :: jobs).length then
        trimJobs n (removeJob (p :: jobs) (minKey p.1 jobs))
      else p :: jobs
  | _, jobs => jobs

def insertJob (jobs : List (Text × MiningJob)) (job : MiningJob) :
    List (Text × MiningJob) :=
  let jobs := removeJob jobs job.jobId ++ [(job.jobId, job)]
  trimJobs jobs.length jobs

/-- Under the id of its template, a job becomes current. -/
def ServerState.publish (s : ServerState) (job : MiningJob) (tpda : Text) :
    ServerState :=
  let job := { job with suiTemplateId := some tpda }
  { s with jobs := insertJob s.jobs job, currentJob := some job,
           updater := .polling }

def ServerState.merkleChanged (s : ServerState) (newBranches : List Bytes) :
    Bool :=
  match s.currentJob with
  | some job => job.merkleBranches != newBranches
  | none => true

/-- The merkle update path: the tip is the one known. -/
def ServerState.refresh (H : HashFn) (cfg : Config) (s : ServerState)
    (template : BlockTemplate) (due : Bool) : ServerState :=
  if !(due && s.merkleChanged (calculateMerkleBranches H template)) then s
  else match createCoinbase template cfg.poolAddressScript with
    | none => s
    | some (coinbase1, coinbase2) =>
        let s := { s with jobCounter := s.jobCounter + 1 }
        match s.currentJob with
        | none => s
        | some job =>
            let updated := job.refreshed H (jobIdOf s.jobCounter) coinbase1
              coinbase2 template
            if cfg.solo then
              { s.send cfg .flushAndWait with
                updater := .flushing updated job.suiTemplateId }
            else
              { s with updater := .registeringRefresh updated
                         job.suiTemplateId }

/-- The new block path. The tip is noted, and the duplicate table and the
previous template are dropped, before the job is registered. -/
def ServerState.newBlock (H : HashFn) (cfg : Config) (s : ServerState)
    (template : BlockTemplate) : ServerState :=
  let s := { s with jobCounter := s.jobCounter + 1 }
  match createNewJobFromTemplate H cfg.poolAddressScript s.jobCounter
      template with
  | none => s
  | some job =>
      { s.send cfg .flush with
        currentPrevHash := some job.prevBlockHash
        submittedShares := fun _ => []
        previousTemplatePda := none
        updater := .registeringBlock job }

/-- One turn of the loop, up to where it waits. -/
def ServerState.poll (H : HashFn) (cfg : Config) (s : ServerState)
    (template : BlockTemplate) (due : Bool) : ServerState :=
  match template.prevBlockHash with
  | none => s
  | some prevBlockHash =>
      if s.currentPrevHash = some prevBlockHash then
        s.refresh H cfg template due
      else s.newBlock H cfg template

/-- What a registration comes to: the template's id, or nothing after the
last retry. -/
def ServerState.registered (s : ServerState) (tpda : Option Text) :
    Except Unit ServerState :=
  match s.updater, tpda with
  | .registeringRefresh job oldTpda, some tpda =>
      .ok ({ s with previousTemplatePda := oldTpda }.publish job tpda)
  | .registeringBlock job, some tpda => .ok (s.publish job tpda)
  | .registeringRefresh .., none => .ok { s with updater := .polling }
  | .registeringBlock _, none => .ok { s with updater := .polling }
  | _, _ => .error ()

-- ========================================================= the connections

def connected (s : ServerState) (random : U32) : MinerState :=
  { workerName := [], suiAddress := none, sharesSubmitted := 0,
    extranonce1 := Hex.padded 8 random.toNat,
    difficulty := s.globalDifficulty }

/-- The address a username begins with, in the form the server takes. -/
def suiAddressOf (username : Text) : Option Text :=
  let addrPart := username.takeWhile (· ≠ '.')
  if addrPart.take 2 = ['0', 'x'] ∧ Hex.utf8Length addrPart = 66 then
    some addrPart
  else none

/-- Bytes 2 to 10 in lower case; there is nothing to slice where a
character is cut in two. -/
def deriveExtranonce1FromSuiAddress (suiAddress : Text) : Option Text :=
  (Hex.utf8Take 8 (suiAddress.drop 2)).map fun s => s.map Char.toLower

/-- Where the slice panics, the connection's task ends and nothing is
written. -/
def MinerState.authorized (m : MinerState) (params : List Value) :
    MinerState :=
  let username := (paramText params 0).getD "unknown".toList
  match suiAddressOf username with
  | none => { m with workerName := username, suiAddress := none }
  | some suiAddress =>
      match deriveExtranonce1FromSuiAddress suiAddress with
      | none => m
      | some extranonce1 =>
          { m with workerName := username, extranonce1 := extranonce1,
                   suiAddress := some suiAddress }

/-- A floor below one is one; miners above it keep what they have. -/
def raiseDifficulty (newFloor : U64) (m : MinerState) : MinerState :=
  let safeFloor := if newFloor < 1 then 1 else newFloor
  if m.difficulty < safeFloor then { m with difficulty := safeFloor } else m

-- ============================================================== the shares

/-- A looked-up share: its job, its miner, and its time. -/
structure Candidate where
  job : MiningJob
  miner : MinerState
  ntime : U32

/-- The checks before the duplicate table. The limit wraps at 64 bits. -/
def ServerState.look (s : ServerState) (addr : SocketAddr)
    (share : ShareSubmission) : Except SubmitError Candidate := do
  validateShareParams share
  let job ← fetch (s.jobs.lookup share.jobId) (.unknownJob share.jobId)
  let miner ← fetch (s.miners addr) .unknownMiner
  let ntime ← fetch (Hex.ofRadix 32 share.ntime) .invalidNtime
  require (job.mintime ≤ ntime.setWidth 64) (.timeTooOld ntime job.mintime)
  require (ntime.setWidth 64 ≤ job.curtime + 7200)
    (.timeTooNew ntime (job.curtime + 7200))
  let vbits := share.versionBits.getD 0
  require (vbits &&& ~~~Const.versionRollingMask = 0) (.badVersion vbits)
  return ⟨job, miner, ntime⟩

/-- `{:?}` of the version bits. -/
def showVersionBits : Option U32 → Text
  | none => "None".toList
  | some vbits => "Some(".toList ++ Nat.toDigits 10 vbits.toNat ++ [')']

/-- The key of a share in the duplicate table. -/
def ShareSubmission.key (share : ShareSubmission) (extranonce1 : Text) :
    Text :=
  share.jobId ++ ':' :: extranonce1 ++ ':' :: share.extranonce2
    ++ ':' :: share.ntime ++ ':' :: showVersionBits share.versionBits
    ++ ':' :: share.nonce

/-- The bytes of a character in UTF-8. -/
def utf8Bytes (c : Char) : List Nat :=
  (String.utf8EncodeChar c).map UInt8.toNat

def shardIndex (key : Text) : Fin 16 :=
  Fin.ofNat 16 (key.flatMap utf8Bytes).sum

/-- What is decoded after the duplicate table. -/
def Candidate.build (c : Candidate) (share : ShareSubmission) :
    Except SubmitError Mined := do
  let extranonce1 ← fetch (Hex.decode c.miner.extranonce1) .extranonce1
  let extranonce2 ← fetch (Hex.decode share.extranonce2)
    .invalidExtranonce2
  let nonce ← fetch (Hex.ofRadix 32 share.nonce) .invalidNonce
  let version := match share.versionBits with
    | some vbits => (c.job.version &&& ~~~Const.versionRollingMask)
        ||| (vbits &&& Const.versionRollingMask)
    | none => c.job.version
  return { job := c.job, extranonce1 := extranonce1,
           extranonce2 := extranonce2, ntime := c.ntime, nonce := nonce,
           version := version }

/-- What becomes of a share. From the duplicate table on its key is kept,
whatever comes after. -/
inductive Verdict
  | refused (e : SubmitError)
  | undecoded (key : Text) (e : SubmitError)
  | low (key : Text) (m : Mined)
  | accepted (key : Text) (m : Mined)

def ServerState.judge (H : HashFn) (s : ServerState) (addr : SocketAddr)
    (share : ShareSubmission) : Verdict :=
  match s.look addr share with
  | .error e => .refused e
  | .ok c =>
      let key := share.key c.miner.extranonce1
      if key ∈ s.submittedShares (shardIndex key) then .refused .duplicate
      else
        match c.build share with
        | .error e => .undecoded key e
        | .ok m =>
            let difficulty := calculateDifficultyFromHash (m.shareHash H)
            if difficulty < c.miner.difficulty then .low key m
            else .accepted key m

def ServerState.mark (s : ServerState) (key : Text) : ServerState :=
  { s with submittedShares := fun i =>
      if i = shardIndex key then key :: s.submittedShares i
      else s.submittedShares i }

/-- A block goes to the Bitcoin node at once, before its difficulty is
looked at. -/
def ServerState.noteBlock (H : HashFn) (s : ServerState) (m : Mined) :
    ServerState :=
  if m.isBlock H then { s with blocks := s.blocks ++ (m.block H).toList }
  else s

/-- What the server tells the flusher of a share. -/
def Mined.minerShare (m : Mined) : MinerShare :=
  { extranonce2 := m.extranonce2
    ntime := m.ntime
    nonce := m.nonce
    version := m.version }

/-- An accepted share on the queue, where its template has an id. -/
def ServerState.queueShare (cfg : Config) (s : ServerState) (m : Mined) :
    ServerState :=
  match m.job.suiTemplateId with
  | some tpda => s.send cfg (.share tpda m.minerShare)
  | none => s

/-- The miner's count and difficulty; what is returned is the difficulty
where it changes. -/
def ServerState.credit (s : ServerState) (addr : SocketAddr) :
    ServerState × Option U64 :=
  match s.miners addr with
  | none => (s, none)
  | some m =>
      let m' := { m with sharesSubmitted := m.sharesSubmitted + 1,
                         difficulty := s.globalDifficulty }
      (s.setMiner addr (some m'),
        if m.difficulty = s.globalDifficulty then none
        else some s.globalDifficulty)

def validateAndSubmitShare (H : HashFn) (cfg : Config) (s : ServerState)
    (addr : SocketAddr) (share : ShareSubmission) :
    ServerState × Except SubmitError (Bool × Option U64) :=
  match s.judge H addr share with
  | .refused e => (s, .error e)
  | .undecoded key e => (s.mark key, .error e)
  | .low key m => ((s.mark key).noteBlock H m, .ok (false, none))
  | .accepted key m =>
      let (s, newDiff) :=
        (((s.mark key).noteBlock H m).queueShare cfg m).credit addr
      (s, .ok (true, newDiff))

-- ============================================================= the flusher

/-- The batch goes to the chain as one transaction; it is not kept,
whatever comes of that. -/
def ServerState.flush (s : ServerState) : ServerState :=
  if s.batch = [] then s
  else { s with batch := [], submitted := s.submitted ++ [s.batch] }

/-- The flusher's answer lets the updater go on. -/
def ServerState.answer (s : ServerState) : ServerState :=
  match s.updater with
  | .flushing job oldTpda =>
      { s with updater := .registeringRefresh job oldTpda }
  | _ => s

/-- The flusher takes a message. -/
def ServerState.recv (cfg : Config) (s : ServerState) :
    Except Unit ServerState :=
  match s.minerTx with
  | [] => .error ()
  | .flush :: rest => .ok { s with minerTx := rest }.flush
  | .flushAndWait :: rest => .ok { s with minerTx := rest }.flush.answer
  | .share templatePda share :: rest =>
      let s := { s with minerTx := rest,
                        batch := s.batch ++ [(templatePda, share.pending)] }
      .ok (if cfg.minerBatchSize ≤ s.batch.length then s.flush else s)

-- =============================================================== the machine

inductive Event
  /-- `getblocktemplate` answered, or failed, and whether a refresh is
  due. -/
  | poll (template : Option BlockTemplate) (due : Bool)
  | registered (tpda : Option Text)
  | connect (addr : SocketAddr) (random : U32)
  | disconnect (addr : SocketAddr)
  | authorize (addr : SocketAddr) (params : List Value)
  | submit (addr : SocketAddr) (params : List Value)
  | globalDifficulty (difficulty : U64)
  | difficultyFloor (newFloor : U64)
  /-- The flusher takes a message, or its timer ends. -/
  | recv
  | tick

def ServerState.step (H : HashFn) (cfg : Config) (s : ServerState) :
    Event → Except Unit ServerState
  | .poll template due =>
      match s.updater with
      | .polling => .ok (template.elim s fun t => s.poll H cfg t due)
      | _ => .error ()
  | .registered tpda => s.registered tpda
  | .connect addr random =>
      .ok (s.setMiner addr (some (connected s random)))
  | .disconnect addr => .ok (s.setMiner addr none)
  | .authorize addr params =>
      .ok (s.setMiner addr ((s.miners addr).map fun m =>
        m.authorized params))
  | .submit addr params =>
      .ok (validateAndSubmitShare H cfg s addr (parseSubmitParams params)).1
  | .globalDifficulty difficulty =>
      .ok { s with globalDifficulty := difficulty }
  | .difficultyFloor newFloor =>
      .ok { s with miners := fun a =>
        (s.miners a).map (raiseDifficulty newFloor) }
  | .recv => s.recv cfg
  | .tick => .ok s.flush

def stratum (H : HashFn) (cfg : Config) : Machine Unit ServerState Event :=
  { init := .init cfg, step := ServerState.step H cfg }

end M1n3Protocol
