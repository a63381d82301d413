/-
Whether a published job is about one block.

# Two notions of the tip

The updater notes a new tip before the job for it is registered. Where the
registration fails, the tip is known and the current job is still that of
the block before; the next mempool refresh then clones that job and gives
it the coinbase and the branches of the new block.

# What is shown

Where every refreshed job that is registered has the previous block hash
and the height of the template polled last, every published job has all
its fields from results for one tip. The run at the end is the other case:
a registration fails once.
-/
import M1n3Protocol.Stratum.JobStep

namespace M1n3Protocol

variable {H : HashFn} {cfg : Config}

def ServerState.Published (s : ServerState) (job : MiningJob) : Prop :=
  s.currentJob = some job ∨ ∃ jobId, (jobId, job) ∈ s.jobs

/-- A result for a tip. -/
structure AtTip (seen : List BlockTemplate) (prevBlockHash : Bytes)
    (height : U64) (t : BlockTemplate) : Prop where
  seen : t ∈ seen
  prevBlockHash : t.prevBlockHash = some prevBlockHash
  height : t.height = height

/-- Every field from a result for the tip of the job. -/
structure OneTip (H : HashFn) (cfg : Config) (seen : List BlockTemplate)
    (job : MiningJob) : Prop where
  nbits : ∃ t, AtTip seen job.prevBlockHash job.height t
    ∧ Hex.ofRadix 32 t.bits = some job.nbits
  coinbase : ∃ t, AtTip seen job.prevBlockHash job.height t
    ∧ createCoinbase t cfg.poolAddressScript
      = some (job.coinbase1, job.coinbase2)
  merkleBranches : ∃ t, AtTip seen job.prevBlockHash job.height t
    ∧ job.merkleBranches = calculateMerkleBranches H t

def SameTip (t₀ t : BlockTemplate) : Prop :=
  t.prevBlockHash = t₀.prevBlockHash ∧ t.height = t₀.height

theorem FromSeen.oneTip {seen : List BlockTemplate} {job : MiningJob}
    (h : FromSeen H cfg SameTip seen job) : OneTip H cfg seen job := by
  obtain ⟨t₀, ht₀, t, ht, ⟨hprev, hheight⟩, hbuilt⟩ := h
  have hat₀ : AtTip seen job.prevBlockHash job.height t₀ :=
    ⟨ht₀, hbuilt.prevBlockHash, hbuilt.height.symm⟩
  have hat : AtTip seen job.prevBlockHash job.height t :=
    ⟨ht, hprev.trans hbuilt.prevBlockHash,
      hheight.trans hbuilt.height.symm⟩
  exact ⟨⟨t₀, hat₀, hbuilt.nbits⟩, ⟨t, hat, hbuilt.coinbase⟩,
    ⟨t, hat, hbuilt.merkleBranches⟩⟩

/-- A refreshed job that is registered has the tip of the template polled
last. -/
def refreshesOwnTip (p : ServerState × List BlockTemplate) (c : Event) :
    Bool :=
  match c, p.1.updater, p.2.getLast? with
  | .registered (some _), .registeringRefresh job _, some t =>
      decide (t.prevBlockHash = some job.prevBlockHash
        ∧ t.height = job.height)
  | _, _, _ => true

theorem refreshShows_of_ownTip {p : ServerState × List BlockTemplate}
    {c : Event} (h : refreshesOwnTip p c = true) :
    RefreshShows H cfg SameTip p c := by
  rintro job old tpda hwait rfl t₀ t hlast hbuilt
  unfold refreshesOwnTip at h
  rw [hwait, hlast] at h
  obtain ⟨hprev, hheight⟩ := of_decide_eq_true h
  exact ⟨hprev.trans hbuilt.prevBlockHash.symm,
    hheight.trans hbuilt.height⟩

/-- A result of a regression-test node, with transactions. -/
def regtestTemplate (prev : Nat) (height : U64)
    (transactions : List TemplateTransaction) : BlockTemplate :=
  { version := 0x20000000
    previousblockhash := Hex.encode (leBytes 32 prev)
    transactions := transactions
    coinbasevalue := 5_000_000_000
    mintime := 1_700_000_000
    curtime := 1_700_000_000
    bits := "207fffff".toList
    height := height
    defaultWitnessCommitment := none }

/-- A transaction with one input and one output, of version 1. -/
def mempoolTx : TemplateTransaction :=
  { data := ("01000000" ++ "01"
      ++ "1111111111111111111111111111111111111111111111111111111111111111"
      ++ "00000000" ++ "0151" ++ "ffffffff"
      ++ "01" ++ "00f2052a01000000" ++ "0151" ++ "00000000").toList
    txid :=
      "9554e5fc579cb0ed875f533af7686545704e3c66df89a76251a352af8ef2e280".toList }

def regtestConfig : Config :=
  { poolAddressScript := [0x51], solo := true, minerBatchSize := 16,
    initialDifficulty := 1 }

/-- A block, and a mempool refresh on it. -/
def refreshedBlock : List Event :=
  [.poll (some (regtestTemplate 1 101 [])) false,
   .registered (some "0xa1".toList), .recv,
   .poll (some (regtestTemplate 1 101 [mempoolTx])) true, .recv,
   .registered (some "0xa2".toList)]

/-- A block, another whose registration fails, and a mempool refresh on
that. -/
def refreshedAfterFailure : List Event :=
  [.poll (some (regtestTemplate 1 101 [])) false,
   .registered (some "0xa1".toList), .recv,
   .poll (some (regtestTemplate 2 102 [])) false, .registered none, .recv,
   .poll (some (regtestTemplate 2 102 [mempoolTx])) true, .recv,
   .registered (some "0xa2".toList)]

end M1n3Protocol
