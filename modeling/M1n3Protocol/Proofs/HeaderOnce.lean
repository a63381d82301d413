/-
Whether the stratum server takes a header twice.

# What a header tells

A header is made of numbers and strings of fixed places, a root among
them. From the root backwards, two shares with one header are made of the
same parts, or somewhere on the way two different strings they hash have
one digest. The parts include both halves of the coinbase: the first says
how long it is.

# What the table tells

The duplicate table holds texts, and is emptied on every new block while
the jobs before it are still taken. So a share is taken again in another
spelling of its numbers, after a new block, or under the id of another job
of the same parts. Where an accepted share comes again in its own words
while they are in the table, no header is taken twice.
-/
import M1n3Protocol.Proofs.AssembledBlock
import M1n3Protocol.Proofs.ShareHandOff

namespace M1n3Protocol

open Checked

variable {H : HashFn} {cfg : Config}

-- ======================================================= parts of a header

structure HeaderParts where
  version : U32
  prevBlockHash : Bytes
  coinbase1 : Bytes
  extranonce1 : Bytes
  extranonce2 : Bytes
  coinbase2 : Bytes
  merkleBranches : List Bytes
  ntime : U32
  nbits : U32
  nonce : U32
deriving DecidableEq

def Mined.parts (m : Mined) : HeaderParts :=
  { version := m.version
    prevBlockHash := m.job.prevBlockHash
    coinbase1 := m.job.coinbase1
    extranonce1 := m.extranonce1
    extranonce2 := m.extranonce2
    coinbase2 := m.job.coinbase2
    merkleBranches := m.job.merkleBranches
    ntime := m.ntime
    nbits := m.job.nbits
    nonce := m.nonce }

def branchWraps (branches : List Bytes) : List (Bytes → Bytes) :=
  branches.map fun branch root => root ++ branch

/-- On the way to their roots two shares hash different strings to one
digest. -/
def Mined.Clashes (H : HashFn) (m m' : Mined) : Prop :=
  HashChain.Clash (sha256d H) (branchWraps m.job.merkleBranches)
    (branchWraps m'.job.merkleBranches) (m.coinbase m.extranonce)
    (m'.coinbase m'.extranonce)

theorem leBytes_cancel {x y : U32}
    (h : leBytes 4 x.toNat = leBytes 4 y.toNat) : x = y := by
  have hle := congrArg leNat h
  rw [leNat_leBytes (by exact x.isLt), leNat_leBytes (by exact y.isLt)] at hle
  exact BitVec.eq_of_toNat_eq hle

/-- The first half of a coinbase tells where it ends. -/
theorem coinbase1_cancel {t t' : BlockTemplate} {x y : Bytes}
    (h : coinbase1 t ++ x = coinbase1 t' ++ y) :
    coinbase1 t = coinbase1 t' ∧ x = y := by
  refine List.append_inj h ?_
  have hle := length_heightBytes_le t.height
  have hle' := length_heightBytes_le t'.height
  have hbyte : (BitVec.ofNat 8 (heightBytes t.height).length)
      = BitVec.ofNat 8 (heightBytes t'.height).length := by
    simp only [coinbase1, List.append_assoc] at h
    have h := List.append_cancel_left (List.append_cancel_left
      (List.append_cancel_left (List.append_cancel_left h)))
    injection h with _ h
    injection h
  have hlen := congrArg BitVec.toNat hbyte
  rw [BitVec.toNat_ofNat, BitVec.toNat_ofNat, Nat.mod_eq_of_lt (by omega),
    Nat.mod_eq_of_lt (by omega)] at hlen
  simp only [coinbase1, List.length_append, hlen]

/-- A share of the server: its job is from two templates, its extranonces
are of four and eight bytes. -/
structure Mined.Built (H : HashFn) (cfg : Config) (m : Mined) : Prop where
  job : ∃ t₀ t, BuiltFrom H cfg m.job t₀ t
  four : m.extranonce1.length = 4
  eight : m.extranonce2.length = 8

namespace Mined.Built

variable {m m' : Mined}

theorem length_prevBlockHash (h : m.Built H cfg) :
    m.job.prevBlockHash.length = 32 := by
  obtain ⟨t₀, t, hbuilt⟩ := h.job
  exact hbuilt.length_prevBlockHash

theorem length_extranonce (h : m.Built H cfg) : m.extranonce.length = 12 := by
  rw [Mined.extranonce, List.length_append, h.four, h.eight]

theorem length_branch (h : m.Built H cfg) :
    ∀ branch ∈ m.job.merkleBranches, branch.length = 32 := by
  obtain ⟨t₀, t, hbuilt⟩ := h.job
  rw [hbuilt.merkleBranches]
  refine Merkle.branches_all (hashPair H)
    (fun left right => length_sha256d H (left ++ right)) ?_
  intro txid htxid
  obtain ⟨tx, -, htx⟩ := List.mem_filterMap.mp htxid
  obtain ⟨raw, hraw, rfl⟩ := Option.map_eq_some_iff.mp htx
  rw [List.length_reverse]
  exact (Hex.decodeFixed_eq_some.mp hraw).2

/-- A coinbase is longer than two digests. -/
theorem length_coinbase (h : m.Built H cfg) :
    64 < (m.coinbase m.extranonce).length := by
  obtain ⟨t₀, t, hbuilt⟩ := h.job
  obtain ⟨commitment, -, heq⟩ := Option.bind_eq_some_iff.mp hbuilt.coinbase
  injection heq with heq
  injection heq with hfirst hsecond
  have hscript : 1 ≤ (encodeScriptLen
      (payoutScript cfg.poolAddressScript).length).length := by
    unfold encodeScriptLen
    split
    · simp
    · split <;> simp
  simp only [Mined.coinbase, List.length_append, h.length_extranonce,
    ← hfirst, ← hsecond, coinbase1, length_leBytes, List.length_replicate,
    List.length_singleton]
  omega

/-- The same coinbase is the same halves around the same extranonces. -/
theorem coinbase_parts (h : m.Built H cfg) (h' : m'.Built H cfg)
    (heq : m.coinbase m.extranonce = m'.coinbase m'.extranonce) :
    m.job.coinbase1 = m'.job.coinbase1 ∧ m.extranonce1 = m'.extranonce1
      ∧ m.extranonce2 = m'.extranonce2
      ∧ m.job.coinbase2 = m'.job.coinbase2 := by
  obtain ⟨t₀, t, hbuilt⟩ := h.job
  obtain ⟨t₀', t', hbuilt'⟩ := h'.job
  obtain ⟨_, -, hcb⟩ := Option.bind_eq_some_iff.mp hbuilt.coinbase
  obtain ⟨_, -, hcb'⟩ := Option.bind_eq_some_iff.mp hbuilt'.coinbase
  injection hcb with hcb
  injection hcb' with hcb'
  have hfirst : coinbase1 t = m.job.coinbase1 := congrArg Prod.fst hcb
  have hfirst' : coinbase1 t' = m'.job.coinbase1 := congrArg Prod.fst hcb'
  rw [Mined.coinbase, Mined.coinbase, List.append_assoc, List.append_assoc,
    ← hfirst, ← hfirst'] at heq
  obtain ⟨hsame, hrest⟩ := coinbase1_cancel heq
  obtain ⟨hextranonce, hsecond⟩ := List.append_inj hrest (by
    rw [h.length_extranonce, h'.length_extranonce])
  obtain ⟨hone, htwo⟩ := List.append_inj hextranonce (by
    rw [h.four, h'.four])
  exact ⟨hfirst.symm.trans (hsame.trans hfirst'), hone, htwo, hsecond⟩

/-- One root comes from one coinbase and the same branches, or the two
shares clash on the way. -/
theorem root_parts (h : m.Built H cfg) (h' : m'.Built H cfg)
    (heq : calculateMerkleRoot H m.job.coinbase1 m.job.coinbase2
        m.extranonce m.job.merkleBranches
      = calculateMerkleRoot H m'.job.coinbase1 m'.job.coinbase2
        m'.extranonce m'.job.merkleBranches) :
    (m.job.merkleBranches = m'.job.merkleBranches
        ∧ m.coinbase m.extranonce = m'.coinbase m'.extranonce)
      ∨ m.Clashes H m' := by
  refine HashChain.same_or_collide (sha256d H)
    (fun branch root => root ++ branch) ?_ ?_ ?_ ?_
  · intro branch _ branch' _ a b hab
    have hlen : (sha256d H a).length = (sha256d H b).length := by
      rw [length_sha256d, length_sha256d]
    obtain ⟨hdigest, hbranch⟩ := List.append_inj hab hlen
    exact ⟨hbranch, hdigest⟩
  · intro branch hbranch a hroot
    have hlong := h.length_coinbase
    rw [← hroot, List.length_append, length_sha256d,
      h'.length_branch branch hbranch] at hlong
    omega
  · intro branch hbranch a hroot
    have hlong := h'.length_coinbase
    rw [← hroot, List.length_append, length_sha256d,
      h.length_branch branch hbranch] at hlong
    omega
  · rw [digest_branches, digest_branches]
    exact heq

/-- One header is made of the same parts, or the two shares clash. -/
theorem header_parts (h : m.Built H cfg) (h' : m'.Built H cfg)
    (heq : m.header H = m'.header H) :
    m.parts = m'.parts ∨ m.Clashes H m' := by
  have hprev := h.length_prevBlockHash
  have hprev' := h'.length_prevBlockHash
  have hroot : ∀ k : Mined, (calculateMerkleRoot H k.job.coinbase1
      k.job.coinbase2 k.extranonce k.job.merkleBranches).length = 32 :=
    fun k => length_foldl_hashPair H _ _
  unfold Mined.header at heq
  obtain ⟨heq, hnonce⟩ := List.append_inj heq (by
    simp only [List.length_append, length_leBytes, hprev, hprev', hroot])
  obtain ⟨heq, hnbits⟩ := List.append_inj heq (by
    simp only [List.length_append, length_leBytes, hprev, hprev', hroot])
  obtain ⟨heq, hntime⟩ := List.append_inj heq (by
    simp only [List.length_append, length_leBytes, hprev, hprev', hroot])
  obtain ⟨heq, hroots⟩ := List.append_inj heq (by
    simp only [List.length_append, length_leBytes, hprev, hprev'])
  obtain ⟨hversion, hprevs⟩ := List.append_inj heq (by
    rw [length_leBytes, length_leBytes])
  rcases h.root_parts h' hroots with ⟨hbranches, hcoinbase⟩ | hclash
  · obtain ⟨hfirst, hone, htwo, hsecond⟩ := h.coinbase_parts h' hcoinbase
    left
    rw [Mined.parts, Mined.parts, leBytes_cancel hversion, hprevs, hfirst,
      hone, htwo, hsecond, hbranches, leBytes_cancel hntime,
      leBytes_cancel hnbits, leBytes_cancel hnonce]
  · exact .inr hclash

end Mined.Built

-- ====================================================== what was accepted

/-- A share the server took, and the key it left behind. -/
structure TakenShare where
  key : Text
  share : ShareSubmission
  mined : Mined

def ServerState.taken (H : HashFn) (s : ServerState) :
    Event → List TakenShare
  | .submit addr params =>
      match s.judge H addr (parseSubmitParams params) with
      | .accepted key m =>
          [{ key := key, share := parseSubmitParams params, mined := m }]
      | _ => []
  | _ => []

/-- The server beside the shares it has taken. -/
def sharesTaken (H : HashFn) (cfg : Config) :
    Machine Unit (ServerState × List TakenShare) Event :=
  (stratum H cfg).withGhost [] fun s c _ log => log ++ s.taken H c

/-- The texts of a submission that its key is made of. -/
def ShareSubmission.words (share : ShareSubmission) :
    Text × Text × Text × Option U32 × Text :=
  (share.jobId, share.extranonce2, share.ntime, share.versionBits,
    share.nonce)

theorem key_of_words {share share' : ShareSubmission} {extranonce1 : Text}
    (h : share.words = share'.words) :
    share.key extranonce1 = share'.key extranonce1 := by
  obtain ⟨_, _, _, _, _, _⟩ := share
  obtain ⟨_, _, _, _, _, _⟩ := share'
  cases h
  rfl

/-- A submission made of the same parts as an accepted share says so in
the same words, while the key of that share is in the table. -/
def repeatsItself (p : ServerState × List TakenShare) : Event → Bool
  | .submit addr params =>
      match p.1.mined addr (parseSubmitParams params) with
      | .ok m => p.2.all fun a =>
          a.mined.parts ≠ m.parts
            || (a.share.words = (parseSubmitParams params).words
              && a.key ∈ p.1.submittedShares (shardIndex a.key))
      | .error _ => true
  | _ => true

/-- What is known of an accepted share. -/
structure TakenShare.Sound (H : HashFn) (cfg : Config) (a : TakenShare) :
    Prop where
  built : a.mined.Built H cfg
  key : a.key = a.share.key (Hex.encode a.mined.extranonce1)

theorem sound_of_judge {s : ServerState}
    (hs : Machine.Reach (stratum H cfg) s) {addr : SocketAddr}
    {share : ShareSubmission} {key : Text} {m : Mined}
    (hjudge : s.judge H addr share = .accepted key m) :
    TakenShare.Sound H cfg ⟨key, share, m⟩ := by
  obtain ⟨c, hlook, hbuild, hkey, -⟩ := judge_accepted_ok hjudge
  have hmined := judge_accepted hjudge
  obtain ⟨hfour, height⟩ := mined_extranonce (minersFour_of_reach hs) hmined
  obtain ⟨miner, hfrom⟩ := mined_ok hmined
  obtain ⟨seen, hseen⟩ :
      ∃ seen, Machine.Reach (templatesSeen H cfg) (s, seen) :=
    Machine.Reach.withGhost _ _ hs
  have hjobs : JobsBuilt H cfg (fun _ _ => True) s seen :=
    jobs_built (fun _ => trivial) (fun _ _ _ _ _ _ _ _ _ _ _ _ => trivial)
      hseen
  obtain ⟨before, after, hmem, -⟩ := List.lookup_eq_some_iff.mp hfrom.job_eq
  obtain ⟨t₀, -, t, -, -, hbuilt⟩ :=
    hjobs.jobs (share.jobId, m.job) (by rw [hmem]; simp)
  have hminer : s.miners addr = some c.miner := (look_ok hlook).2
  have hlower := minersLower_of_reach hs addr miner hfrom.miner_eq
  rw [hfrom.miner_eq] at hminer
  injection hminer with hminer
  refine ⟨⟨⟨t₀, t, hbuilt⟩, hfour, height⟩, ?_⟩
  show key = share.key (Hex.encode m.extranonce1)
  rw [Hex.encode_of_decode hlower hfrom.extranonce1_eq, hminer]
  exact hkey

/-- The table refuses an accepted share that comes again in its words. -/
theorem clash_of_taken {s : ServerState} {log : List TakenShare}
    (hs : Machine.Reach (stratum H cfg) s)
    (hlog : ∀ a ∈ log, a.Sound H cfg) {addr : SocketAddr}
    {params : List Value} {key : Text} {m : Mined}
    (hok : repeatsItself (s, log) (.submit addr params) = true)
    (hjudge : s.judge H addr (parseSubmitParams params) = .accepted key m)
    {a : TakenShare} (ha : a ∈ log) (heq : a.mined.header H = m.header H) :
    a.mined.Clashes H m := by
  have hsound := sound_of_judge hs hjudge
  rcases (hlog a ha).built.header_parts hsound.built heq with hparts | hclash
  case inr => exact hclash
  simp only [repeatsItself, judge_accepted hjudge] at hok
  have hrepeat := List.all_eq_true.mp hok a ha
  simp only [hparts, ne_eq, not_true_eq_false, decide_false, Bool.false_or,
    Bool.and_eq_true, decide_eq_true_eq] at hrepeat
  obtain ⟨hwords, hkept⟩ := hrepeat
  have hone : a.mined.extranonce1 = m.extranonce1 :=
    congrArg HeaderParts.extranonce1 hparts
  have hkey : a.key = key := by
    rw [(hlog a ha).key, key_of_words hwords, hone]
    exact hsound.key.symm
  obtain ⟨c, -, -, -, hnew, -⟩ := judge_accepted_ok hjudge
  rw [hkey] at hkept
  exact absurd hkept hnew

/-- What holds of the shares taken so far. -/
structure TakenOnce (H : HashFn) (cfg : Config) (log : List TakenShare) :
    Prop where
  sound : ∀ a ∈ log, a.Sound H cfg
  once : log.Pairwise fun a b =>
    a.mined.header H = b.mined.header H → a.mined.Clashes H b.mined

theorem TakenOnce.step {s : ServerState} {log : List TakenShare}
    {c : Event} (h : TakenOnce H cfg log)
    (hs : Machine.Reach (stratum H cfg) s)
    (hok : repeatsItself (s, log) c = true) :
    TakenOnce H cfg (log ++ s.taken H c) := by
  have hquiet : TakenOnce H cfg (log ++ []) := by
    rw [List.append_nil]
    exact h
  unfold ServerState.taken
  split
  case h_2 => exact hquiet
  case h_1 addr params =>
      split
      case h_2 => exact hquiet
      case h_1 key m hjudge =>
          refine ⟨fun a ha => ?_, List.pairwise_append.mpr
            ⟨h.once, List.pairwise_singleton _ _, fun a ha b hb heq => ?_⟩⟩
          · rcases List.mem_append.mp ha with ha | ha
            · exact h.sound a ha
            · rw [List.mem_singleton.mp ha]
              exact sound_of_judge hs hjudge
          · cases List.mem_singleton.mp hb
            exact clash_of_taken hs h.sound hok hjudge ha heq

/-- In the runs in which an accepted share comes again only in its own
words and before the table is emptied, two accepted shares have one header
only where they show a collision of the hash. -/
theorem header_taken_once {p : ServerState × List TakenShare}
    (h : Machine.ReachVia (sharesTaken H cfg)
      (fun p c => repeatsItself p c = true) p) :
    p.2.Pairwise fun a b =>
      a.mined.header H = b.mined.header H → a.mined.Clashes H b.mined := by
  have hinv : TakenOnce H cfg p.2 := by
    refine Machine.ReachVia.withGhost_invariant
      (I := fun _ log => TakenOnce H cfg log) ?_ ?_ h
    · refine ⟨fun a ha => ?_, List.Pairwise.nil⟩
      cases ha
    · intro s c s' log hs hI hok _
      exact hI.step hs hok
  exact hinv.once

-- ================================================================== runs

/-- A share of difficulty 3 on the first job, with its nonce written so. -/
def submitWith (nonce : String) : Event :=
  .submit 0 (["rig1", "00000001", "0100000000000000", "6553f100",
    nonce].map fun s => .string s.toList)

/-- A block and a miner, and the share, then `more`. -/
def takenShare (more : List Event) : List Event :=
  [.poll (some (regtestTemplate 1 101 [])) false,
   .registered (some "0xa1".toList), .recv, .connect 0 0,
   submitWith "ae1de83e"] ++ more

/-- Submitted again in its own words, the share is refused. -/
theorem header_taken_once_sameWords :
    ∃ p : ServerState × List TakenShare, p.2.length = 1
      ∧ p.2.Pairwise fun a b => a.mined.header sha256
        = b.mined.header sha256 → a.mined.Clashes sha256 b.mined := by
  have hrun : (sharesTaken sha256 regtestConfig).endsFrom repeatsItself
      (fun p => p.2.length = 1) (takenShare [submitWith "ae1de83e"])
      (sharesTaken sha256 regtestConfig).init = true := by
    decide +kernel
  obtain ⟨p, hp, hcheck⟩ :=
    Machine.reachVia_of_endsFrom (fun _ _ h => h) .init hrun
  exact ⟨p, of_decide_eq_true hcheck, header_taken_once hp⟩

/-- Two shares were taken with one header, in the same words or not. -/
def TakesTwice (sameWords : Bool) : Prop :=
  ∃ p a b, Machine.Reach (sharesTaken sha256 regtestConfig) p
    ∧ p.2 = [a, b] ∧ a.mined.header sha256 = b.mined.header sha256
    ∧ decide (a.share.words = b.share.words) = sameWords

def takesTwice (sameWords : Bool) : List TakenShare → Bool
  | [a, b] => a.mined = b.mined
      ∧ decide (a.share.words = b.share.words) = sameWords
  | _ => false

theorem takesTwice_of_run (more : List Event) {sameWords : Bool}
    (hrun : (sharesTaken sha256 regtestConfig).endsIn (takenShare more)
      (fun p => takesTwice sameWords p.2) = true) :
    TakesTwice sameWords := by
  obtain ⟨p, hp, hcheck⟩ := Machine.reach_of_endsIn hrun
  unfold takesTwice at hcheck
  split at hcheck
  case h_1 a b hlog =>
      obtain ⟨hmined, hwords⟩ := of_decide_eq_true hcheck
      exact ⟨p, a, b, hp, hlog, by rw [hmined], hwords⟩
  case h_2 => cases hcheck

/-- In capitals it is taken again, and so it is in its own words after the
next block, with its job still in the map. -/
theorem header_taken_twice : TakesTwice false ∧ TakesTwice true := by
  constructor
  · apply takesTwice_of_run [submitWith "AE1DE83E"]
    decide +kernel
  · apply takesTwice_of_run
      [.poll (some (regtestTemplate 2 102 [])) false, submitWith "ae1de83e"]
    decide +kernel

end M1n3Protocol
