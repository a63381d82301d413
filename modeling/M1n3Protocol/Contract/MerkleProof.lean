/-
`btc_math.move`: the check of a transaction's path to a merkle root.

A sibling on the path is hashed once before it is joined, so the path
lists what the tree's nodes are the digests of. The index is used one bit
a level; its bits above the path are not looked at.
-/
import M1n3Protocol.Contract.BtcMath

namespace M1n3Protocol

open Checked

/-- The loop over `merkle_path`. -/
def climbMerklePath (H : HashFn) :
    List Bytes → U64 → Bytes → Except Abort Bytes
  | [], _, current => pure current
  | sibling :: path, index, current => do
      require (sibling.length = 32) (.btcMath .EInvalidMerkleHashLength)
      let h := H.hash sibling
      let combined := if index % 2 = 1 then h ++ current else current ++ h
      climbMerklePath H path (index >>> 1) (sha256d H combined)

def verifyMerkleProof (H : HashFn) (root : Bytes) (merklePath : List Bytes)
    (txId : Bytes) (txIndex : U64) : Except Abort Bool := do
  require (root.length = 32) (.btcMath .EInvalidMerkleHashLength)
  require (txId.length = 32) (.btcMath .EInvalidMerkleHashLength)
  let current ← climbMerklePath H merklePath txIndex txId
  return current = root

end M1n3Protocol
