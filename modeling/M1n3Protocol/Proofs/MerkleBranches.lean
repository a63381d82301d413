/-
Whether the branches of a template lead to its merkle root.

# Two climbs and a tree

The server folds a coinbase's hash through the branches it made before it
had a coinbase, the contract through those of the template it was given.
Both climb to the root of the coinbase and the listed transactions, as the
tree of all of them has it.
-/
import M1n3Protocol.Stratum.Template

namespace M1n3Protocol

/-- The transactions listed are these: each text is an id of 32 bytes, in
reading order. -/
def Lists (transactions : List TemplateTransaction) (txids : List Bytes) :
    Prop :=
  List.Forall₂ (fun tx txid => Hex.decode tx.txid = some txid.reverse
    ∧ txid.length = 32) transactions txids

theorem filterMap_of_lists {transactions : List TemplateTransaction}
    {txids : List Bytes} (h : Lists transactions txids) :
    (transactions.filterMap fun tx =>
      (Hex.decodeFixed 32 tx.txid).map List.reverse) = txids := by
  unfold Lists at h
  induction h with
  | nil => rfl
  | @cons tx txid _ _ hid _ ih =>
      obtain ⟨hdecode, hlen⟩ := hid
      have hfixed : Hex.decodeFixed 32 tx.txid = some txid.reverse :=
        Hex.decodeFixed_eq_some.mpr
          ⟨hdecode, by rw [List.length_reverse, hlen]⟩
      rw [List.filterMap_cons, hfixed, ih]
      simp only [Option.map_some, List.reverse_reverse]

/-- None of them is skipped. -/
theorem Lists.txids_eq {template : BlockTemplate} {txids : List Bytes}
    (h : Lists template.transactions txids) : template.txids = txids :=
  filterMap_of_lists h

/-- One step of the contract's loop is one of the server's. -/
theorem merkleRoot_eq (H : HashFn) (coinbaseHash : Bytes)
    (branches : List Bytes) :
    merkleRoot H coinbaseHash branches
      = branches.foldl (hashPair H) coinbaseHash := by
  induction branches generalizing coinbaseHash with
  | nil => rfl
  | cons branch branches ih => exact ih (hashPair H coinbaseHash branch)

/-- The branches are right: server and contract climb from any coinbase to
the root of the tree over its id and the listed ones. -/
theorem merkle_branches_right (H : HashFn) {template : BlockTemplate}
    {txids : List Bytes} (hlists : Lists template.transactions txids)
    (coinbase1 coinbase2 extranonce : Bytes) :
    ∃ root, root.length = 32
      ∧ calculateMerkleRoot H coinbase1 coinbase2 extranonce
        (calculateMerkleBranches H template) = root
      ∧ Merkle.root (hashPair H)
        (sha256d H (coinbase1 ++ extranonce ++ coinbase2) :: txids)
        = some root
      ∧ ∀ (job : Job) (sub : Submission),
        job.coinbase sub = coinbase1 ++ extranonce ++ coinbase2 →
        job.merkleBranches = calculateMerkleBranches H template →
        merkleRoot H (sha256d H (job.coinbase sub)) job.merkleBranches
          = root := by
  refine ⟨_, length_foldl_hashPair H _ _, rfl, ?_, ?_⟩
  · have hclimb := Merkle.foldl_branches (hashPair H)
      (sha256d H (coinbase1 ++ extranonce ++ coinbase2)) txids
    rw [hclimb, calculateMerkleBranches, hlists.txids_eq]
  · intro job sub hcoinbase hbranches
    rw [hcoinbase, hbranches, merkleRoot_eq]

/-- A template of two transactions, so that both levels are odd. -/
def twoTransactions : BlockTemplate where
  version := 0x20000000
  previousblockhash := List.replicate 64 '0'
  transactions := [⟨[], List.replicate 64 '1'⟩, ⟨[], List.replicate 64 'a'⟩]
  coinbasevalue := 0
  mintime := 0
  curtime := 0
  bits := "1d00ffff".toList
  height := 17
  defaultWitnessCommitment := none

theorem merkle_branches_right_twoTransactions :
    ∃ root, root.length = 32
      ∧ calculateMerkleRoot sha256 [1] [2] [3]
        (calculateMerkleBranches sha256 twoTransactions) = root
      ∧ Merkle.root (hashPair sha256)
        [sha256d sha256 [1, 3, 2], List.replicate 32 0x11,
          List.replicate 32 0xaa] = some root := by
  have hlists : Lists twoTransactions.transactions
      [List.replicate 32 0x11, List.replicate 32 0xaa] :=
    .cons ⟨by decide +kernel, rfl⟩ (.cons ⟨by decide +kernel, rfl⟩ .nil)
  obtain ⟨root, hlen, hserver, htree, -⟩ :=
    merkle_branches_right sha256 hlists [1] [2] [3]
  exact ⟨root, hlen, hserver, htree⟩

end M1n3Protocol
