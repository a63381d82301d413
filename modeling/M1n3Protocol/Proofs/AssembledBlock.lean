/-
Whether the block of a winning share is the one its header names.

# Two templates in one block

The header's merkle root comes from the coinbase and the branches of a
job, its transactions and its witness flag from what the job keeps beside
them. A mempool refresh renews the former and leaves the latter as they
were when the block came in.

# What is shown

In every run on well-formed templates, for every share that can be mined
on a job of the table: the block assembled decodes, and it is sound
exactly where the two templates have a commitment or have none together,
and their branches lead the coinbase to one root.
-/
import M1n3Protocol.Proofs.JobTip
import M1n3Protocol.Stratum.CoinbaseWire
import M1n3Protocol.Stratum.ShareStep

namespace M1n3Protocol

open Codec BitcoinTx

variable {H : HashFn} {cfg : Config}

-- ================================================== what the node promises

/-- The data is a transaction, and the id listed beside it is its id. -/
def TemplateTransaction.wellFormed (H : HashFn) (tx : TemplateTransaction) :
    Bool :=
  match (Hex.decode tx.data).bind WireTx.codec.parse with
  | some w => Hex.decodeFixed 32 tx.txid = some (w.id (sha256d H)).reverse
  | none => false

/-- Transactions that are what they say, and no more of them, and no
longer a commitment, than a block can carry. -/
def BlockTemplate.wellFormed (H : HashFn) (t : BlockTemplate) : Bool :=
  t.transactions.all (TemplateTransaction.wellFormed H)
    && decide (1 + t.transactions.length ≤ maxSize)
    && t.commitment.all fun script => script.length ≤ maxSize

/-- The templates a run is given are well-formed. -/
def Event.wellFormed (H : HashFn) : Event → Bool
  | .poll (some t) _ => t.wellFormed H
  | _ => true

theorem decodes_of_wellFormed {txs : List TemplateTransaction}
    (h : ∀ tx ∈ txs, tx.wellFormed H = true) :
    ∃ ws, List.Forall₂ Decodes (txs.map TemplateTransaction.data) ws
      ∧ (txs.filterMap fun tx =>
          (Hex.decodeFixed 32 tx.txid).map List.reverse)
        = ws.map (WireTx.id (sha256d H)) := by
  induction txs with
  | nil => exact ⟨[], .nil, rfl⟩
  | cons tx txs ih =>
      obtain ⟨ws, hdecodes, hids⟩ := ih fun tx' htx' =>
        h tx' (List.mem_cons_of_mem tx htx')
      have htx := h tx List.mem_cons_self
      unfold TemplateTransaction.wellFormed at htx
      split at htx
      case h_1 w hw =>
          obtain ⟨bytes, hbytes, hparse⟩ := Option.bind_eq_some_iff.mp hw
          refine ⟨w :: ws, .cons ⟨bytes, hbytes, hparse⟩ hdecodes, ?_⟩
          rw [List.filterMap_cons, of_decide_eq_true htx, hids]
          simp only [Option.map_some, List.reverse_reverse, List.map_cons]
      case h_2 => cases htx

theorem seen_wellFormed {p : ServerState × List BlockTemplate}
    (h : Machine.ReachVia (templatesSeen H cfg)
      (fun _ c => c.wellFormed H = true) p) :
    ∀ t ∈ p.2, t.wellFormed H = true := by
  refine Machine.ReachVia.withGhost_invariant
    (I := fun _ seen => ∀ t ∈ seen, t.wellFormed H = true)
    (fun t ht => by cases ht) ?_ h
  intro s c s' seen _ hI hok _ t ht
  split at ht
  case h_1 =>
      rcases List.mem_append.mp ht with ht | ht
      · exact hI t ht
      · rw [List.mem_singleton.mp ht]
        exact hok
  case h_2 => exact hI t ht

-- ============================================================== soundness

/-- The block is the one its header names: its root is that of the ids of
its transactions, which are as listed beside their data, and its coinbase
has a witness iff it has an output after the payout. -/
structure BlockMatches (H : HashFn) (t₀ : BlockTemplate) (m : Mined)
    (b : Block) (coinbase : WireTx) (rest : List WireTx) : Prop where
  txs : b.txs = coinbase :: rest
  header : b.header = m.header H
  root : Merkle.root (hashPair H) (b.txs.map (WireTx.id (sha256d H)))
    = some b.merkleRoot
  listed : rest.map (WireTx.id (sha256d H)) = t₀.txids
  witness : coinbase.witness.isSome ↔ coinbase.tx.outputs.drop 1 ≠ []

/-- The block of the share decodes to such a block, after the count of
the transactions that follow. -/
def SoundBlock (H : HashFn) (t₀ : BlockTemplate) (m : Mined) : Prop :=
  ∃ blockHex bytes b coinbase rest, m.block H = some blockHex
    ∧ Hex.decode blockHex = some bytes
    ∧ Block.codec.parse bytes = some b
    ∧ bytes = b.header ++ (compactSize.write b.txs.length
      ++ b.txs.flatMap WireTx.codec.write)
    ∧ BlockMatches H t₀ m b coinbase rest

/-- The two templates of a job agree on what goes into its block. -/
structure OneContent (H : HashFn) (t₀ t : BlockTemplate) (coinbase : Bytes) :
    Prop where
  witness : t.hasWitnessCommitment = t₀.hasWitnessCommitment
  root : (calculateMerkleBranches H t₀).foldl (hashPair H)
      (sha256d H coinbase)
    = (calculateMerkleBranches H t).foldl (hashPair H) (sha256d H coinbase)

-- =============================================================== the header

theorem header_parts {m : Mined} (hprev : m.job.prevBlockHash.length = 32) :
    (m.header H).length = 80
      ∧ ((m.header H).drop 36).take 32
        = calculateMerkleRoot H m.job.coinbase1 m.job.coinbase2 m.extranonce
          m.job.merkleBranches := by
  have hroot : (calculateMerkleRoot H m.job.coinbase1 m.job.coinbase2
      m.extranonce m.job.merkleBranches).length = 32 :=
    length_foldl_hashPair H _ _
  have hhead : (leBytes 4 m.version.toNat ++ m.job.prevBlockHash).length
      = 36 := by
    rw [List.length_append, length_leBytes, hprev]
  unfold Mined.header
  constructor
  · simp only [List.length_append, length_leBytes, hprev, hroot]
  · rw [List.append_assoc, List.append_assoc, List.append_assoc,
      List.drop_left' hhead, List.take_left' hroot]

theorem BuiltFrom.length_prevBlockHash {job : MiningJob}
    {t₀ t : BlockTemplate} (h : BuiltFrom H cfg job t₀ t) :
    job.prevBlockHash.length = 32 := by
  obtain ⟨raw, hraw, heq⟩ := Option.map_eq_some_iff.mp h.prevBlockHash
  rw [← heq, List.length_reverse]
  exact (Hex.decodeFixed_eq_some.mp hraw).2

-- ================================================================ the block

/-- The block assembled for a share, whichever templates its job is
from. -/
theorem block_parse {m : Mined} {t₀ t : BlockTemplate}
    (hbuilt : BuiltFrom H cfg m.job t₀ t) (hlen : m.extranonce.length = 12)
    (ht₀ : t₀.wellFormed H = true) (ht : t.wellFormed H = true)
    (hscript : cfg.poolAddressScript.length ≤ maxSize) :
    ∃ blockHex bytes rest, m.block H = some blockHex
      ∧ Hex.decode blockHex = some bytes
      ∧ Block.codec.parse bytes = some ⟨m.header H,
          wireCoinbase (coinbaseTx t cfg.poolAddressScript m.extranonce)
            m.job.hasWitnessCommitment :: rest⟩
      ∧ rest.map (WireTx.id (sha256d H)) = t₀.txids := by
  simp only [BlockTemplate.wellFormed, Bool.and_eq_true, List.all_eq_true,
    decide_eq_true_eq] at ht₀ ht
  obtain ⟨⟨htxs, hcount⟩, -⟩ := ht₀
  obtain ⟨-, hcommitment⟩ := ht
  obtain ⟨rest, hdecodes, hids⟩ := decodes_of_wellFormed htxs
  have hfit : ScriptsFit t cfg.poolAddressScript := by
    refine ⟨hscript, fun script hsome => ?_⟩
    rw [hsome] at hcommitment
    exact of_decide_eq_true hcommitment
  have hdata := hbuilt.transactionData
  have hmany : 1 + m.job.transactionData.length ≤ maxSize := by
    rw [hdata, List.length_map]
    exact hcount
  obtain ⟨blockHex, bytes, hassembled, hbytes, hparse⟩ :=
    assembleBlock_parse (header_parts hbuilt.length_prevBlockHash).1
      (coinbase_write hbuilt.coinbase hlen) rfl (coinbase_valid hfit hlen)
      (hdata ▸ hdecodes) hmany
  exact ⟨blockHex, bytes, rest, hassembled, hbytes, hparse, hids.symm⟩

/-- The root of those transactions, from the branches beside them. -/
theorem root_of_listed {m : Mined} {t₀ t : BlockTemplate}
    {rest : List WireTx} (hbuilt : BuiltFrom H cfg m.job t₀ t)
    (hlen : m.extranonce.length = 12)
    (hlisted : rest.map (WireTx.id (sha256d H)) = t₀.txids) :
    Merkle.root (hashPair H)
        ((wireCoinbase (coinbaseTx t cfg.poolAddressScript m.extranonce)
          m.job.hasWitnessCommitment :: rest).map (WireTx.id (sha256d H)))
      = some ((calculateMerkleBranches H t₀).foldl (hashPair H)
        (sha256d H (m.job.coinbase1 ++ m.extranonce ++ m.job.coinbase2))) := by
  have hid : WireTx.id (sha256d H)
      (wireCoinbase (coinbaseTx t cfg.poolAddressScript m.extranonce)
        m.job.hasWitnessCommitment)
      = sha256d H (m.job.coinbase1 ++ m.extranonce ++ m.job.coinbase2) := by
    rw [coinbase_write hbuilt.coinbase hlen]
    rfl
  rw [List.map_cons, hid, hlisted, Merkle.foldl_branches]
  rfl

/-- Flag and output tell the same of the coinbase exactly where both
templates do. -/
theorem witness_iff {m : Mined} {t₀ t : BlockTemplate}
    (hbuilt : BuiltFrom H cfg m.job t₀ t) :
    ((wireCoinbase (coinbaseTx t cfg.poolAddressScript m.extranonce)
          m.job.hasWitnessCommitment).witness.isSome
        ↔ (coinbaseTx t cfg.poolAddressScript m.extranonce).outputs.drop 1
          ≠ [])
      ↔ t.hasWitnessCommitment = t₀.hasWitnessCommitment := by
  obtain ⟨bytes, hbytes, -⟩ := Option.bind_eq_some_iff.mp hbuilt.coinbase
  have hcount := length_commitmentOutputs hbytes
  have houtputs : (coinbaseTx t cfg.poolAddressScript
      m.extranonce).outputs.drop 1 = commitmentOutputs t := rfl
  rw [houtputs, ← List.length_pos_iff, hcount, hbuilt.hasWitnessCommitment]
  cases t.hasWitnessCommitment <;> cases t₀.hasWitnessCommitment <;>
    simp [wireCoinbase]

/-- The block is sound exactly where the two templates agree. -/
theorem sound_iff_oneContent {m : Mined} {t₀ t : BlockTemplate}
    (hbuilt : BuiltFrom H cfg m.job t₀ t) (hlen : m.extranonce.length = 12)
    (ht₀ : t₀.wellFormed H = true) (ht : t.wellFormed H = true)
    (hscript : cfg.poolAddressScript.length ≤ maxSize) :
    SoundBlock H t₀ m ↔ OneContent H t₀ t
      (m.job.coinbase1 ++ m.extranonce ++ m.job.coinbase2) := by
  obtain ⟨blockHex, bytes, rest, hblock, hbytes, hparse, hlisted⟩ :=
    block_parse hbuilt hlen ht₀ ht hscript
  have hroot := root_of_listed hbuilt hlen hlisted
  have hnamed : Block.merkleRoot ⟨m.header H,
      wireCoinbase (coinbaseTx t cfg.poolAddressScript m.extranonce)
        m.job.hasWitnessCommitment :: rest⟩
      = (calculateMerkleBranches H t).foldl (hashPair H)
        (sha256d H (m.job.coinbase1 ++ m.extranonce ++ m.job.coinbase2)) := by
    rw [← hbuilt.merkleBranches]
    exact (header_parts hbuilt.length_prevBlockHash).2
  constructor
  · rintro ⟨_, _, b, coinbase, _, hblock', hbytes', hparse', -, hmatch⟩
    rw [hblock] at hblock'
    cases hblock'
    rw [hbytes] at hbytes'
    cases hbytes'
    rw [hparse] at hparse'
    cases hparse'
    cases hmatch.txs
    have hmatched := hmatch.root
    rw [hroot, hnamed] at hmatched
    injection hmatched with hmatched
    exact ⟨(witness_iff hbuilt).mp hmatch.witness, hmatched⟩
  · rintro ⟨hwitness, hsame⟩
    refine ⟨blockHex, bytes, _, _, rest, hblock, hbytes, hparse,
      (parse_eq_some.mp hparse).2, rfl, rfl, ?_, hlisted,
      (witness_iff hbuilt).mpr hwitness⟩
    rw [hroot, hnamed, hsame]

/-- In every run on well-formed templates, a share that can be mined on a
job of the table has a sound block exactly where the template its tip is
from and the one its coinbase is from agree on the block's content. -/
theorem winning_block_sound_iff {p : ServerState × List BlockTemplate}
    (h : Machine.ReachVia (templatesSeen H cfg)
      (fun _ c => c.wellFormed H = true) p)
    (hscript : cfg.poolAddressScript.length ≤ maxSize)
    {addr : SocketAddr} {share : ShareSubmission} {m : Mined}
    (hmined : p.1.mined addr share = .ok m) :
    ∃ t₀ ∈ p.2, ∃ t ∈ p.2, BuiltFrom H cfg m.job t₀ t
      ∧ (SoundBlock H t₀ m ↔ OneContent H t₀ t
        (m.job.coinbase1 ++ m.extranonce ++ m.job.coinbase2)) := by
  have hwf := seen_wellFormed h
  have hrun : Machine.Reach (templatesSeen H cfg) p := h.reach
  have hjobs : JobsBuilt H cfg (fun _ _ => True) p.1 p.2 :=
    jobs_built (fun _ => trivial) (fun _ _ _ _ _ _ _ _ _ _ _ _ => trivial) h
  have hfour : MinersFour p.1 :=
    minersFour_of_reach (Machine.Reach.of_withGhost hrun)
  obtain ⟨miner, hfrom⟩ := mined_ok hmined
  obtain ⟨before, after, hmem, -⟩ := List.lookup_eq_some_iff.mp hfrom.job_eq
  obtain ⟨t₀, ht₀, t, ht, -, hbuilt⟩ :=
    hjobs.jobs (share.jobId, m.job) (by rw [hmem]; simp)
  obtain ⟨hen1, hen2⟩ := mined_extranonce hfour hmined
  have hlen : m.extranonce.length = 12 := by
    rw [Mined.extranonce, List.length_append, hen1, hen2]
  exact ⟨t₀, ht₀, t, ht, hbuilt,
    sound_iff_oneContent hbuilt hlen (hwf t₀ ht₀) (hwf t ht) hscript⟩

-- ================================================================= two runs

/-- A share of the miner at address 0. -/
def regtestShare (jobId : Text) : ShareSubmission :=
  parseSubmitParams ([("rig1").toList, jobId, "0000000000000000".toList,
    "6553f100".toList, "00000000".toList].map .string)

/-- A block with a transaction, and a miner. -/
def minedBlock : List Event :=
  [.poll (some (regtestTemplate 1 101 [mempoolTx])) false,
   .registered (some "0xa1".toList), .recv, .connect 0 0]

theorem winning_block_sound_iff_minedBlock :
    ∃ p m t₀, Machine.Reach (templatesSeen sha256 regtestConfig) p
      ∧ p.1.mined 0 (regtestShare "00000001".toList) = .ok m
      ∧ SoundBlock sha256 t₀ m := by
  have hrun : (templatesSeen sha256 regtestConfig).endsFrom
      (fun _ c => c.wellFormed sha256)
      (fun p => (p.1.mined 0 (regtestShare "00000001".toList)).toOption.isSome
        && decide (p.2 = [regtestTemplate 1 101 [mempoolTx]])) minedBlock
      (templatesSeen sha256 regtestConfig).init = true := by
    decide +kernel
  obtain ⟨p, hp, hcheck⟩ :=
    Machine.reachVia_of_endsFrom (fun _ _ h => h) .init hrun
  rw [Bool.and_eq_true] at hcheck
  obtain ⟨m, hm⟩ := Option.isSome_iff_exists.mp hcheck.1
  have hmined := Checked.toOption_eq_some.mp hm
  have hseen := of_decide_eq_true hcheck.2
  obtain ⟨t₀, ht₀, t, ht, -, hsound⟩ :=
    winning_block_sound_iff hp (by decide) hmined
  rw [hseen] at ht₀ ht
  cases List.mem_singleton.mp ht₀
  cases List.mem_singleton.mp ht
  exact ⟨p, m, _, hp.reach, hmined, hsound.mpr ⟨rfl, rfl⟩⟩

/-- The block of a share, read back. -/
def Mined.decodedBlock (H : HashFn) (m : Mined) : Option Block :=
  ((m.block H).bind Hex.decode).bind Block.codec.parse

theorem SoundBlock.root {t₀ : BlockTemplate} {m : Mined} {b : Block}
    (h : SoundBlock H t₀ m) (hb : m.decodedBlock H = some b) :
    Merkle.root (hashPair H) (b.txs.map (WireTx.id (sha256d H)))
      = some b.merkleRoot := by
  obtain ⟨blockHex, bytes, b', coinbase, rest, hblock, hbytes, hparse, -,
    hmatch⟩ := h
  rw [Mined.decodedBlock, hblock, Option.bind_some, hbytes,
    Option.bind_some, hparse] at hb
  cases hb
  exact hmatch.root

/-- A share wins on a refreshed job. The block assembled for it decodes
to a coinbase alone, and its header names the root with the transaction
the refresh brought. -/
theorem refreshed_block_unsound :
    ∃ p m b, Machine.ReachVia (templatesSeen sha256 regtestConfig)
        (fun _ c => c.wellFormed sha256 = true) p
      ∧ p.1.mined 0 (regtestShare "00000002".toList) = .ok m
      ∧ m.isBlock sha256 = true
      ∧ m.decodedBlock sha256 = some b ∧ b.txs.length = 1
      ∧ ∀ t₀, ¬ SoundBlock sha256 t₀ m := by
  have hrun : (templatesSeen sha256 regtestConfig).endsFrom
      (fun _ c => c.wellFormed sha256)
      (fun p => (p.1.mined 0
          (regtestShare "00000002".toList)).toOption.any fun m =>
        m.isBlock sha256 && (m.decodedBlock sha256).any fun b =>
          b.txs.length = 1 ∧ Merkle.root (hashPair sha256)
            (b.txs.map (WireTx.id (sha256d sha256))) ≠ some b.merkleRoot)
      (refreshedBlock ++ [.connect 0 0])
      (templatesSeen sha256 regtestConfig).init = true := by
    decide +kernel
  obtain ⟨p, hp, hcheck⟩ :=
    Machine.reachVia_of_endsFrom (fun _ _ h => h) .init hrun
  obtain ⟨m, hm, hcheck⟩ := (Option.any_eq_true ..).mp hcheck
  rw [Bool.and_eq_true] at hcheck
  obtain ⟨b, hb, hcheck'⟩ := (Option.any_eq_true ..).mp hcheck.2
  obtain ⟨hone, hne⟩ := of_decide_eq_true hcheck'
  exact ⟨p, m, b, hp, Checked.toOption_eq_some.mp hm, hcheck.1, hb, hone,
    fun t₀ hsound => hne (hsound.root hb)⟩

end M1n3Protocol
