/-
`bitcoin-template.ts`: the coinbase and the merkle branches as the web app
builds them from a template.

The arrays of numbers the coinbase is collected in become bytes at the
end; the branches are arrays of bytes throughout.
-/
import M1n3Protocol.Contract.BtcMath
import M1n3Protocol.Lib.Js

namespace M1n3Protocol.Web

open Js

-- ==================================================================== bytes

/-- Half as many bytes as there are characters, rounded down: a pair that
is no number is stored as 0, and a last single character is not stored. -/
def hexToBytes : Text → Bytes
  | c :: d :: rest => (parseInt16 [c, d]).elim 0 uint8 :: hexToBytes rest
  | _ => []

def encodeVarInt (buf : List Int) (value : Int) : List Int :=
  if value < 0xfd then buf ++ [value]
  else if value ≤ 0xffff then
    buf ++ [0xfd, bitAnd value 0xff, bitAnd (shiftRight value 8) 0xff]
  else
    buf ++ [0xfe, bitAnd value 0xff, bitAnd (shiftRight value 8) 0xff,
      bitAnd (shiftRight value 16) 0xff, bitAnd (shiftRight value 24) 0xff]

-- ============================================================= the coinbase

/-- The loop over the height. -/
def heightLoop (h : Int) : List Int :=
  if 0 < h then bitAnd h 0xff :: heightLoop (shiftRightZero h 8) else []
termination_by h.toNat
decreasing_by exact shiftRightZero_lt ‹_›

def heightBytes (height : Int) : List Int :=
  let bytes := heightLoop height
  let bytes := if bytes.length = 0 then [0] else bytes
  if bitAnd (bytes.getLastD 0) 0x80 ≠ 0 then bytes ++ [0] else bytes

structure Coinbase where
  cb1 : Bytes
  cb2 : Bytes
deriving DecidableEq

def buildCoinbase (height coinbaseValue : Int) (payoutScript : Bytes)
    (witnessCommitmentHex : Option Text) : Coinbase :=
  let heightBytes := heightBytes height
  let heightLen : Int := heightBytes.length
  let scriptLen := 1 + heightLen + 12
  let cb1 := [0x01, 0x00, 0x00, 0x00] ++ [0x01] ++ List.replicate 32 0
    ++ [0xff, 0xff, 0xff, 0xff] ++ [scriptLen, heightLen] ++ heightBytes
  let hasWitness := witnessCommitmentHex.any fun s => decide (0 < s.length)
  let cb2 := [0xff, 0xff, 0xff, 0xff] ++ [if hasWitness then 0x02 else 0x01]
    ++ (List.range 8).map fun i => bigByte coinbaseValue (i * 8)
  let cb2 := encodeVarInt cb2 payoutScript.length ++ spread payoutScript
  let cb2 :=
    if hasWitness then
      let commitment := hexToBytes (witnessCommitmentHex.getD [])
      encodeVarInt (cb2 ++ List.replicate 8 0) commitment.length
        ++ spread commitment
    else cb2
  let cb2 := cb2 ++ [0x00, 0x00, 0x00, 0x00]
  ⟨uint8Array cb1, uint8Array cb2⟩

-- ============================================================= the branches

variable (H : HashFn)

/-- The hash of two nodes, set side by side into 64 bytes. -/
def combine (a b : Bytes) : Option Bytes := do
  let combined ← setAt (List.replicate 64 0) a 0
  let combined ← setAt combined b 32
  return sha256d H combined

/-- The level above; a last single node is combined with itself. -/
def nextLevel : List Bytes → Option (List Bytes)
  | [] => some []
  | [a] => do
      let node ← combine H a a
      return [node]
  | a :: b :: rest => do
      let node ← combine H a b
      let nodes ← nextLevel rest
      return node :: nodes

theorem length_nextLevel {hashes nodes : List Bytes}
    (h : nextLevel H hashes = some nodes) : nodes.length ≤ hashes.length := by
  induction hashes using nextLevel.induct generalizing nodes with
  | case1 =>
      cases h
      exact Nat.le_refl 0
  | case2 a =>
      obtain ⟨node, -, h⟩ := Option.bind_eq_some_iff.mp h
      cases h
      exact Nat.le_refl 1
  | case3 a b rest ih =>
      obtain ⟨node, -, h⟩ := Option.bind_eq_some_iff.mp h
      obtain ⟨more, hmore, h⟩ := Option.bind_eq_some_iff.mp h
      cases h
      have hle := ih hmore
      simp only [List.length_cons]
      omega

/-- The loop over the levels. -/
def branchLoop (hashes : List Bytes) : Option (List Bytes) :=
  match hashes with
  | [] => some []
  | first :: rest =>
      if rest = [] then some [first]
      else
        match _hnext : nextLevel H rest with
        | none => none
        | some next => (branchLoop next).map fun more => first :: more
termination_by hashes.length
decreasing_by exact Nat.lt_succ_of_le (length_nextLevel H ‹_›)

def computeMerkleBranches (txids : List Text) : Option (List Bytes) :=
  branchLoop H (txids.map fun txid => (hexToBytes txid).reverse)

end M1n3Protocol.Web
