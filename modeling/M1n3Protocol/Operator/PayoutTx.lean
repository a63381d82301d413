/-
The operator bot's payout transaction: the coinbase value of a round
divided over its miners by net work.

# Arithmetic

Sums and products are those of the source's widths, and one that does not
fit is the error `overflow`: the source has no check there, and a build
with overflow checks stops.

# Scripts

A miner is paid to a P2WSH output of its Sui address, a placeholder the
source announces as such.
-/
import M1n3Protocol.Contract.Base
import M1n3Protocol.Lib.BitcoinTx
import M1n3Protocol.Lib.Hex

namespace M1n3Protocol.Operator

open Checked
open BitcoinTx (Tx TxIn TxOut)

/-- Of a miner's contribution to a closed round, what a payout reads. -/
structure MinerRoundEntry where
  miner : Text
  netWork : U128
deriving DecidableEq

inductive PayoutError
  | noMiners
  | inputsBelow (totalInput totalSats : U64)
  | zeroNetWork
  | overflow
deriving DecidableEq

/-- What the caller is told; a panic tells it nothing. -/
def PayoutError.message : PayoutError → Option Text
  | .noMiners => some "No miners to pay".toList
  | .inputsBelow totalInput totalSats =>
      some ("Inputs (".toList ++ Nat.toDigits 10 totalInput.toNat
        ++ " sats) less than payout amount (".toList
        ++ Nat.toDigits 10 totalSats.toNat ++ " sats)".toList)
  | .zeroNetWork =>
      some "Total net work is zero — cannot compute proportions".toList
  | .overflow => none

-- ================================================================ scripts

def stripPrefix0x (addr : Text) : Text :=
  match addr with
  | '0' :: 'x' :: hex => hex
  | _ => addr

/-- The first 32 bytes, filled up with zeros; all zeros where the text is
no hex. -/
def hexTo32Bytes (addr : Text) : Bytes :=
  let bytes := ((Hex.decode (stripPrefix0x addr)).getD []).take 32
  bytes ++ List.replicate (32 - bytes.length) 0

def p2wshFromAddressBytes (H : HashFn) (keyBytes : Bytes) : Bytes :=
  0x00 :: 0x20 :: H.hash keyBytes

-- ============================================================ the outputs

def Const.dustSats : U64 := 546

/-- The sum of an iterator. -/
def checkedSum {w : Nat} : List (BitVec w) → Except PayoutError (BitVec w) :=
  fun xs => xs.foldlM (add .overflow) 0

/-- The outputs so far, and what they come to. -/
abbrev Paid := List TxOut × U64

/-- One turn of the loop over the miners. -/
def payMiner (H : HashFn) (totalSats : U64) (totalNetWork : U128)
    (paid : Paid) (miner : MinerRoundEntry) : Except PayoutError Paid :=
  let effective := miner.netWork
  if effective = 0 then pure paid
  else do
    let product ← mul .overflow effective (totalSats.setWidth 128)
    let payout : U64 := (product / totalNetWork).setWidth 64
    if payout < Const.dustSats then pure paid
    else do
      let minerBytes := hexTo32Bytes miner.miner
      let distributed ← add .overflow paid.2 payout
      return (paid.1 ++ [{
        value := payout.toNat
        scriptPubKey := p2wshFromAddressBytes H minerBytes }], distributed)

/-- What is left over goes back where it is more than dust. -/
def changeOutput (totalSats distributed : U64) (changeScript : Bytes) :
    List TxOut :=
  let change := if distributed ≤ totalSats then totalSats - distributed else 0
  if Const.dustSats < change then
    [{ value := change.toNat, scriptPubKey := changeScript }]
  else []

/-- `Sequence::ENABLE_RBF_NO_LOCKTIME`. -/
def enableRbfNoLocktime : Nat := 0xfffffffd

/-- An outpoint is given as the bytes that stand for it in a
transaction. -/
def buildPayoutTx (H : HashFn) (totalSats : U64)
    (utxos : List (Bytes × U64)) (miners : List MinerRoundEntry)
    (changeScript : Bytes) : Except PayoutError Tx := do
  require (miners ≠ []) .noMiners
  let totalInput ← checkedSum (utxos.map Prod.snd)
  require (totalSats ≤ totalInput) (.inputsBelow totalInput totalSats)
  let totalNetWork ← checkedSum (miners.map MinerRoundEntry.netWork)
  require (totalNetWork ≠ 0) .zeroNetWork
  let (outputs, distributed) ←
    miners.foldlM (payMiner H totalSats totalNetWork) ([], 0)
  return {
    version := 2
    inputs := utxos.map fun utxo => {
      prevout := utxo.1
      scriptSig := []
      sequence := enableRbfNoLocktime }
    outputs := outputs ++ changeOutput totalSats distributed changeScript
    lockTime := 0 }

end M1n3Protocol.Operator
