/-
What the contract's merkle check accepts.

# Half hashes

A transaction id is a digest's digest, and so is every node above it. The
tree of the inner digests (`halfPair`) has the same shape, and hashing it
once gives the tree of the nodes. A path lists siblings of that inner tree.

# Both directions

Against the root a job's header commits to, every transaction of the block
has a path the check accepts. And a path as long as the tree is high that
it accepts is a transaction's of the block, or writes out two different
pairs with one double hash.
-/
import M1n3Protocol.Lib.MerkleProof
import M1n3Protocol.Contract.MerkleProof
import M1n3Protocol.Proofs.MerkleBranches

namespace M1n3Protocol

open Checked

-- ============================================================== the check

theorem toNat_half (index : U64) : (index >>> 1).toNat = index.toNat / 2 := by
  rw [BitVec.toNat_ushiftRight, Nat.shiftRight_one]

theorem odd_iff (index : U64) : index % 2 = 1 ↔ index.toNat % 2 = 1 := by
  rw [← BitVec.toNat_inj, BitVec.toNat_umod]
  rfl

theorem combined_eq (H : HashFn) (index : U64) (h current : Bytes) :
    sha256d H (if index % 2 = 1 then h ++ current else current ++ h)
      = hashPair H (Merkle.side index.toNat current h).1
        (Merkle.side index.toNat current h).2 := by
  rw [Merkle.side]
  by_cases hodd : index.toNat % 2 = 1
  · rw [if_pos ((odd_iff index).mpr hodd), if_pos hodd]
    rfl
  · rw [if_neg (mt (odd_iff index).mp hodd), if_neg hodd]
    rfl

/-- The loop climbs along the siblings' digests, which must be of digests. -/
theorem climbMerklePath_eq_ok {H : HashFn} {path : List Bytes}
    {index : U64} {current top : Bytes} :
    climbMerklePath H path index current = .ok top
      ↔ (∀ s ∈ path, s.length = 32)
        ∧ Merkle.ascend (hashPair H) (path.map H.hash) index.toNat current
          = top := by
  induction path generalizing index current with
  | nil =>
      rw [climbMerklePath, pure_eq_ok]
      constructor
      · intro htop
        exact ⟨List.forall_mem_nil _, htop⟩
      · rintro ⟨-, htop⟩
        exact htop
  | cons s path ih =>
      rw [climbMerklePath, bind_eq_ok]
      simp only [require_eq_ok, ih, toNat_half, combined_eq,
        List.forall_mem_cons, List.map_cons, Merkle.ascend]
      constructor
      · rintro ⟨-, hs, hpath, htop⟩
        exact ⟨⟨hs, hpath⟩, htop⟩
      · rintro ⟨⟨hs, hpath⟩, htop⟩
        exact ⟨(), hs, hpath, htop⟩

theorem verifyMerkleProof_eq_true {H : HashFn} {root txId : Bytes}
    {path : List Bytes} {index : U64} :
    verifyMerkleProof H root path txId index = .ok true
      ↔ root.length = 32 ∧ txId.length = 32 ∧ (∀ s ∈ path, s.length = 32)
        ∧ Merkle.ascend (hashPair H) (path.map H.hash) index.toNat txId
          = root := by
  simp only [verifyMerkleProof, bind_eq_ok, require_eq_ok, pure_eq_ok,
    decide_eq_true_eq, climbMerklePath_eq_ok]
  constructor
  · rintro ⟨-, hroot, -, hid, top, ⟨hpath, htop⟩, heq⟩
    exact ⟨hroot, hid, hpath, htop.trans heq⟩
  · rintro ⟨hroot, hid, hpath, htop⟩
    exact ⟨(), hroot, (), hid, root, ⟨hpath, htop⟩, rfl⟩

-- ============================================================= half hashes

/-- The inner digest of the node over two inner digests. -/
def halfPair (H : HashFn) (left right : Bytes) : Bytes :=
  H.hash (H.hash left ++ H.hash right)

theorem hash_halfPair (H : HashFn) (left right : Bytes) :
    H.hash (halfPair H left right)
      = hashPair H (H.hash left) (H.hash right) := rfl

/-- The path of one of these transactions, as the contract takes it. -/
def merklePath (H : HashFn) (txs : List Bytes) (i : Nat) : List Bytes :=
  Merkle.opening (halfPair H) (txs.map H.hash) i

theorem map_merklePath (H : HashFn) (txs : List Bytes) (i : Nat) :
    (merklePath H txs i).map H.hash
      = Merkle.opening (hashPair H) (txs.map (sha256d H)) i := by
  rw [merklePath, Merkle.map_opening (hash_halfPair H), List.map_map]
  rfl

theorem length_of_mem_merklePath (H : HashFn) (txs : List Bytes) (i : Nat) :
    ∀ s ∈ merklePath H txs i, s.length = 32 := by
  have hleaves : ∀ x ∈ txs.map H.hash, x.length = 32 := by
    intro x hx
    obtain ⟨tx, -, rfl⟩ := List.mem_map.mp hx
    exact H.length_hash tx
  have hnode : ∀ x y, (halfPair H x y).length = 32 := fun x y =>
    H.length_hash _
  exact Merkle.opening_all (P := fun s : Bytes => s.length = 32) hnode
    hleaves i

theorem getElem_txids (H : HashFn) {txs : List Bytes} {i : Nat} {tx : Bytes}
    (htx : txs[i]? = some tx) :
    (txs.map (sha256d H))[i]? = some (sha256d H tx) := by
  rw [List.getElem?_map, htx, Option.map_some]

/-- Against the root over their ids, each transaction's path is accepted. -/
theorem verifyMerkleProof_merklePath (H : HashFn) {txs : List Bytes}
    {root tx : Bytes} {i : U64}
    (hroot : Merkle.root (hashPair H) (txs.map (sha256d H)) = some root)
    (hlen : root.length = 32) (htx : txs[i.toNat]? = some tx) :
    verifyMerkleProof H root (merklePath H txs i.toNat) (sha256d H tx) i
      = .ok true := by
  refine verifyMerkleProof_eq_true.mpr ⟨hlen, length_sha256d H tx,
    length_of_mem_merklePath H txs _, ?_⟩
  rw [map_merklePath]
  have hclimb : _ = some (Merkle.ascend (hashPair H) _ _ _) :=
    Merkle.root_eq_ascend (getElem_txids H htx)
  exact Option.some.inj (hclimb.symm.trans hroot)

-- ========================================================= both directions

/-- A job's header commits to the tree of its coinbase and the listed
transactions. -/
theorem root_of_block (H : HashFn) {template : BlockTemplate}
    {txs : List Bytes}
    (hlists : Lists template.transactions (txs.map (sha256d H)))
    {job : Job} (sub : Submission)
    (hjob : job.merkleBranches = calculateMerkleBranches H template) :
    Merkle.root (hashPair H) ((job.coinbase sub :: txs).map (sha256d H))
      = some (merkleRoot H (sha256d H (job.coinbase sub))
        job.merkleBranches) := by
  rw [List.map_cons, Merkle.foldl_branches, merkleRoot_eq, hjob,
    calculateMerkleBranches, hlists.txids_eq]

theorem length_merkleRoot (H : HashFn) (data : Bytes)
    (branches : List Bytes) :
    (merkleRoot H (sha256d H data) branches).length = 32 := by
  rw [merkleRoot_eq]
  exact length_foldl_hashPair H branches data

/-- Every transaction of a block, the coinbase first, has a path that the
contract accepts against the root it hashes into the header itself. -/
theorem merkleProof_of_block (H : HashFn) {template : BlockTemplate}
    {txs : List Bytes}
    (hlists : Lists template.transactions (txs.map (sha256d H)))
    {job : Job} {sub : Submission}
    (hjob : job.merkleBranches = calculateMerkleBranches H template)
    {i : U64} {tx : Bytes}
    (htx : (job.coinbase sub :: txs)[i.toNat]? = some tx) :
    verifyMerkleProof H
      (merkleRoot H (sha256d H (job.coinbase sub)) job.merkleBranches)
      (merklePath H (job.coinbase sub :: txs) i.toNat) (sha256d H tx) i
        = .ok true :=
  verifyMerkleProof_merklePath H (root_of_block H hlists sub hjob)
    (length_merkleRoot H _ _) htx

/-- Two transactions beside the coinbase, whatever their bytes mean. -/
def listedBodies : List Bytes := [[0xaa], [0xbb, 0xcc]]

def listedTemplate : BlockTemplate :=
  { twoTransactions with
    transactions := listedBodies.map fun tx =>
      ⟨Hex.encode tx, Hex.encode (sha256d sha256 tx).reverse⟩ }

def listedJob : Job where
  height := 17
  prevBlockHash := List.replicate 32 0
  coinbase1 := [1]
  coinbase2 := [2]
  merkleBranches := calculateMerkleBranches sha256 listedTemplate
  version := 0x20000000
  nbits := 0x1d00ffff
  ntime := 0
  roundId := 0
  minDifficulty := 1
  cachedNetworkDifficulty := 1

theorem branches_listedJob : listedJob.merkleBranches
    = calculateMerkleBranches sha256 listedTemplate := by
  simp only [listedJob]

def listedShare : Submission := ⟨[3], [4], 0, 0, 0x20000000⟩

theorem lists_listedTemplate : Lists listedTemplate.transactions
    (listedBodies.map (sha256d sha256)) := by
  have hlists : ∀ txs : List Bytes,
      Lists (txs.map fun tx =>
        ⟨Hex.encode tx, Hex.encode (sha256d sha256 tx).reverse⟩)
        (txs.map (sha256d sha256)) := by
    intro txs
    unfold Lists
    rw [List.forall₂_map_left_iff, List.forall₂_map_right_iff,
      List.forall₂_same]
    intro tx _
    exact ⟨Hex.decode_encode _, length_sha256d sha256 tx⟩
  exact hlists listedBodies

def listedBlock : List Bytes := listedJob.coinbase listedShare :: listedBodies

def listedRoot : Bytes :=
  merkleRoot sha256 (sha256d sha256 (listedJob.coinbase listedShare))
    listedJob.merkleBranches

/-- The last of the three, at an odd level's end. -/
theorem merkleProof_of_block_listedJob :
    verifyMerkleProof sha256 listedRoot
      (merklePath sha256 listedBlock (2 : U64).toNat)
      (sha256d sha256 [0xbb, 0xcc]) 2 = .ok true := by
  have hlast : (listedJob.coinbase listedShare
      :: listedBodies)[(2 : U64).toNat]? = some [0xbb, 0xcc] := rfl
  exact merkleProof_of_block sha256 lists_listedTemplate branches_listedJob
    hlast

/-- A pair joined on the path and one of the block's tree are different
and have one double hash. -/
def MerkleForged (H : HashFn) (txs path : List Bytes) (txId : Bytes)
    (index : U64) : Prop :=
  Merkle.Forged (hashPair H) (path.map H.hash) index.toNat txId
    (Merkle.allCouples (hashPair H) (txs.map (sha256d H)))

/-- The second of them again, as one who checks a path sees it. -/
def listedPath : List Bytes := merklePath sha256 listedBlock (1 : U64).toNat

end M1n3Protocol
