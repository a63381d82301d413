/-
Whether the contract computes the hash the stratum server has checked.

# The missing four bytes

The server hashes a share with the extranonce of its miner's connection,
four bytes, before the eight the miner chose. The flusher's call has none
in their place. The rest of the header survives: branch order, byte order
and the rolled version are the same on both sides.

# What it comes to

Both sides hash a coinbase, wrap the digest and hash again, with the same
wraps. Their coinbases differ in length, so the two hashes agree exactly
where, at one of these steps, two different strings have one digest.
-/
import M1n3Protocol.Lib.HashChain
import M1n3Protocol.Proofs.JobTip
import M1n3Protocol.Stratum.ShareStep

namespace M1n3Protocol

variable {H : HashFn} {cfg : Config}

-- ========================================================== the two hashes

/-- The on-chain template holds the job's fields. -/
structure HoldsJob (job : MiningJob) (onChain : Job) : Prop where
  prevBlockHash : onChain.prevBlockHash = job.prevBlockHash
  coinbase1 : onChain.coinbase1 = job.coinbase1
  coinbase2 : onChain.coinbase2 = job.coinbase2
  merkleBranches : onChain.merkleBranches = job.merkleBranches
  nbits : onChain.nbits = job.nbits

def Mined.coinbase (m : Mined) (extranonce : Bytes) : Bytes :=
  m.job.coinbase1 ++ extranonce ++ m.job.coinbase2

/-- What is put around a digest before the next is taken: a branch after
it, at the end the rest of the header. -/
def Mined.wraps (m : Mined) : List (Bytes → Bytes) :=
  m.job.merkleBranches.map (fun branch root => root ++ branch)
    ++ [fun root => leBytes 4 m.version.toNat ++ m.job.prevBlockHash ++ root
      ++ leBytes 4 m.ntime.toNat ++ leBytes 4 m.job.nbits.toNat
      ++ leBytes 4 m.nonce.toNat]

theorem wraps_injective (m : Mined) :
    ∀ wrap ∈ m.wraps, Function.Injective wrap := by
  intro wrap hwrap x y hxy
  rcases List.mem_append.mp hwrap with hbranch | hheader
  · obtain ⟨branch, -, rfl⟩ := List.mem_map.mp hbranch
    exact List.append_cancel_right hxy
  · rw [List.mem_singleton.mp hheader] at hxy
    exact List.append_cancel_left (List.append_cancel_right
      (List.append_cancel_right (List.append_cancel_right hxy)))

/-- A root is the digest of what the branches leave. -/
theorem digest_branches (branches : List Bytes) (coinbase : Bytes) :
    sha256d H (HashChain.last (sha256d H)
        (branches.map fun branch root => root ++ branch) coinbase)
      = branches.foldl (fun root branch => sha256d H (root ++ branch))
        (sha256d H coinbase) := by
  rw [HashChain.digest_last (sha256d H), List.foldl_map]

theorem Mined.header_eq (m : Mined) :
    m.header H = HashChain.last (sha256d H) m.wraps
      (m.coinbase m.extranonce) := by
  rw [wraps, HashChain.last_concat, digest_branches]
  rfl

theorem toList_digest32 (data : Bytes) :
    (digest32 H data).toList = sha256d H data := rfl

/-- The bytes the contract pushes are those of the server. -/
theorem u32Le_eq_leBytes (val : U32) : u32Le val = leBytes 4 val.toNat := by
  have hbyte : ∀ shift, (((val >>> shift) &&& 0xff).setWidth 8 : BitVec 8)
      = BitVec.ofNat 8 (val.toNat / 2 ^ shift) := by
    intro shift
    apply BitVec.eq_of_toNat_eq
    rw [toNat_byteAt, BitVec.toNat_ofNat]
  have hlow : ((val &&& 0xff).setWidth 8 : BitVec 8)
      = BitVec.ofNat 8 val.toNat := by
    have h := hbyte 0
    rw [BitVec.ushiftRight_zero, Nat.pow_zero, Nat.div_one] at h
    exact h
  simp only [u32Le, leBytes, hbyte, hlow, Nat.div_div_eq_div_mul]
  rfl

/-- The contract's header, from the arguments of the call. -/
theorem header_of_holds {m : Mined} {onChain : Job} {tpda : Text}
    (h : HoldsJob m.job onChain) :
    onChain.header H (handOff (tpda, m)).2.submission
      = HashChain.last (sha256d H) m.wraps (m.coinbase m.extranonce2) := by
  have hcoinbase : onChain.coinbase (handOff (tpda, m)).2.submission
      = m.coinbase m.extranonce2 := by
    rw [Job.coinbase, Mined.coinbase, h.coinbase1, h.coinbase2]
    show m.job.coinbase1 ++ [] ++ m.extranonce2 ++ m.job.coinbase2 = _
    rw [List.append_nil]
  rw [Mined.wraps, HashChain.last_concat, digest_branches, Job.header,
    merkleRoot, hcoinbase, h.prevBlockHash, h.merkleBranches, h.nbits]
  simp only [u32Le_eq_leBytes]
  rfl

/-- At one of the steps the server and the contract hash different strings
to one digest. -/
def Mined.Collides (H : HashFn) (m : Mined) : Prop :=
  HashChain.Collide (sha256d H) m.wraps (m.coinbase m.extranonce)
    (m.coinbase m.extranonce2)

/-- Bytes between the halves of a coinbase can be told apart. -/
theorem coinbase_injective {m : Mined} {x y : Bytes}
    (h : m.coinbase x = m.coinbase y) : x = y :=
  List.append_cancel_left (List.append_cancel_right h)

theorem hash_agrees_iff {m : Mined} {onChain : Job} {tpda : Text}
    (hfour : m.extranonce1.length = 4) (h : HoldsJob m.job onChain) :
    onChain.shareHash H (handOff (tpda, m)).2.submission
        = (m.shareHash H).toList
      ↔ m.Collides H := by
  have happart : m.coinbase m.extranonce ≠ m.coinbase m.extranonce2 := by
    intro heq
    have hlen := congrArg List.length (coinbase_injective heq)
    rw [Mined.extranonce, List.length_append, hfour] at hlen
    omega
  rw [Job.shareHash, Mined.shareHash, toList_digest32, header_of_holds h,
    Mined.header_eq, eq_comm]
  exact HashChain.digest_eq_iff _ (wraps_injective m) happart

-- ================================================================ all runs

/-- Every share handed over was hashed with four bytes of extranonce1. -/
theorem handed_four {p : ServerState × List (Text × Mined)}
    (h : Machine.Reach (sharesHanded H cfg) p) :
    ∀ q ∈ p.2, q.2.extranonce1.length = 4 := by
  refine Machine.ReachVia.withGhost_invariant
    (I := fun _ log => ∀ q ∈ log, q.2.extranonce1.length = 4)
    (fun q hq => by cases hq) ?_ h
  intro s c s' log hrun hI _ _ q hq
  have hfour := minersFour_of_reach hrun
  rcases List.mem_append.mp hq with hq | hq
  · exact hI q hq
  · unfold ServerState.handed at hq
    split at hq
    case h_1 =>
        split at hq
        case h_1 key m hjudge =>
            obtain ⟨tpda, -, rfl⟩ :=
              Option.map_eq_some_iff.mp (Option.mem_toList.mp hq)
            exact (mined_extranonce hfour (judge_accepted hjudge)).1
        case h_2 => cases hq
    case h_2 => cases hq

/-- Every share handed to the flusher becomes one call, in order, and the
contract computes from it the hash that was checked exactly where the two
computations collide. -/
theorem submitted_share_agrees_iff (hsolo : cfg.solo = true)
    {p : ServerState × List (Text × Mined)}
    (h : Machine.Reach (sharesHanded H cfg) p) :
    p.1.line = p.2.map handOff
      ∧ ∀ q ∈ p.2, ∀ onChain, HoldsJob q.2.job onChain →
        (onChain.shareHash H (handOff q).2.submission
            = (q.2.shareHash H).toList
          ↔ q.2.Collides H) :=
  ⟨line_eq hsolo h, fun q hq _ hholds =>
    hash_agrees_iff (handed_four h q hq) hholds⟩

-- ================================================================== a run

/-- The on-chain template of a job. -/
def MiningJob.onChain (job : MiningJob) : Job :=
  { height := job.height
    prevBlockHash := job.prevBlockHash
    coinbase1 := job.coinbase1
    coinbase2 := job.coinbase2
    merkleBranches := job.merkleBranches
    version := job.version
    nbits := job.nbits
    ntime := job.ntime
    roundId := 0
    minDifficulty := Const.minDifficulty
    cachedNetworkDifficulty := 1 }

theorem MiningJob.holds_onChain (job : MiningJob) :
    HoldsJob job job.onChain :=
  ⟨rfl, rfl, rfl, rfl, rfl⟩

/-- A miner connects and submits a share of difficulty 3. -/
def sharedBlock : List Event :=
  [.poll (some (regtestTemplate 1 101 [])) false,
   .registered (some "0xa1".toList), .recv,
   .connect 0 0,
   .submit 0 (["rig1", "00000001", "0100000000000000", "6553f100",
     "ae1de83e"].map fun s => .string s.toList),
   .recv, .tick]

theorem submitted_share_agrees_iff_sharedBlock :
    ∃ p q, Machine.Reach (sharesHanded sha256 regtestConfig) p ∧ q ∈ p.2
      ∧ p.1.line = p.2.map handOff
      ∧ (q.2.job.onChain.shareHash sha256 (handOff q).2.submission
          = (q.2.shareHash sha256).toList ↔ q.2.Collides sha256) := by
  have hrun : (sharesHanded sha256 regtestConfig).endsIn sharedBlock
      (fun p => !p.2.isEmpty) = true := by
    decide +kernel
  obtain ⟨p, hp, hcheck⟩ := Machine.reach_of_endsIn hrun
  obtain ⟨q, hq⟩ := List.exists_mem_of_ne_nil p.2 (by
    rintro hnil
    rw [hnil] at hcheck
    cases hcheck)
  obtain ⟨hline, hagrees⟩ := submitted_share_agrees_iff rfl hp
  exact ⟨p, q, hp, hq, hline, hagrees q hq _ q.2.job.holds_onChain⟩

/-- It is submitted, and the contract computes another hash. -/
theorem submitted_share_rehashed :
    ∃ p q, Machine.Reach (sharesHanded sha256 regtestConfig) p ∧ q ∈ p.2
      ∧ p.1.submitted = [[handOff q]]
      ∧ HoldsJob q.2.job q.2.job.onChain
      ∧ q.2.job.onChain.shareHash sha256 (handOff q).2.submission
        ≠ (q.2.shareHash sha256).toList := by
  have hrun : (sharesHanded sha256 regtestConfig).endsIn sharedBlock
      (fun p => p.2.any fun q => p.1.submitted = [[handOff q]]
        ∧ q.2.job.onChain.shareHash sha256 (handOff q).2.submission
          ≠ (q.2.shareHash sha256).toList) = true := by
    decide +kernel
  obtain ⟨p, hp, hcheck⟩ := Machine.reach_of_endsIn hrun
  obtain ⟨q, hq, hcheck⟩ := List.any_eq_true.mp hcheck
  obtain ⟨hsubmitted, hne⟩ := of_decide_eq_true hcheck
  exact ⟨p, q, hp, hq, hsubmitted, q.2.job.holds_onChain, hne⟩

end M1n3Protocol
