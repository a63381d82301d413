/-
One batch of shares as one transaction: the calls `submit_batch` and its
buyer-bound twin put into it, and what they answer.

# Before the transaction

Registration, the pool's round, the round's stats and its table of hashes
come first, and then the versions of all objects. Each may take requests
and transactions of its own, and each may fail; what they come to is the
miner's three objects and the round (`Prepared`), or an error. Template
ids are texts, and one that names no object is an error too.

# The transaction

All calls are in one transaction, so it takes effect as a whole or not at
all. The chain answers with a status; an abort is turned into an error
here, in words that say so. Any other error says nothing about whether
the transaction has taken effect, or will.
-/
import M1n3Protocol.Chain.World
import M1n3Protocol.Stratum.Server

namespace M1n3Protocol.Client

open Checked

/-- A share and the id of its template. -/
abbrev Item := Text × PendingShare

/-- What the calls of a batch take beside the shares: the objects of the
miner, and the round the pool is in. -/
structure Prepared where
  ids : ShareIds
  poolRound : U64

/-- Shares go to the pool, minted as coins of a cap or not, or are paid
from an order. -/
inductive BatchLane
  | pool (hashshare : Option ID)
  | buyerPay (order : ID)

/-- The calls' templates and arguments, where every id is one. -/
def resolve (objectId : Text → Option ID) (batch : List Item) :
    Option (List (ID × Submission)) :=
  batch.mapM fun item => do
    let templateId ← objectId item.1
    return (templateId, item.2.submission)

-- ======================================================== the transaction

/-- What is in the transaction for one share. The receipt is the one the
share leaves. -/
def submitOne (H : HashFn) (lane : BatchLane) (ids : ShareIds) (w : World)
    (call : ID × Submission) : Except Abort World :=
  match lane with
  | .pool none => w.exec H (.mining (.submitShare call.1 ids call.2))
  | .pool (some cap) => do
      let receipt := w.mining.receipts.next
      let w ← w.exec H (.mining (.submitShare call.1 ids call.2))
      w.exec H (.mintShare cap receipt ids.round)
  | .buyerPay order =>
      w.exec H (.pay (.submitShareForBuyerPay call.1 order ids call.2))

/-- Where shares are minted, the round is bound to a slot first. -/
def bindSlot (H : HashFn) (lane : BatchLane) (poolRound : U64) (w : World) :
    Except Abort World :=
  match lane with
  | .pool (some _) => w.exec H (.slot (.bindSlotToRound poolRound))
  | _ => .ok w

/-- All calls of a transaction that has begun. -/
def executePtb (H : HashFn) (lane : BatchLane) (prepared : Prepared)
    (calls : List (ID × Submission)) (w : World) : Except Abort World := do
  let w ← bindSlot H lane prepared.poolRound w
  calls.foldlM (submitOne H lane prepared.ids) w

-- ============================================================= the answers

/-- The entry function the shares go to. -/
def BatchLane.entry : BatchLane → String
  | .pool _ => "submit_share"
  | .buyerPay _ => "submit_share_for_buyer_pay"

/-- What an abort is turned into, from the status and the digest. -/
def BatchLane.aborted (lane : BatchLane) (status digest : Text) : Text :=
  lane.entry.toList ++ " aborted on chain: ".toList ++ status
    ++ " (digest: ".toList ++ digest ++ ")".toList

/-- What one call of `submit_batch` meets. It may fail before anything is
sent; it may send its transaction and get an error for an answer; or it
gets the response. -/
inductive Attempt
  | unsent (error : Text)
  | unanswered (prepared : Prepared) (error : Text)
  | answered (prepared : Prepared) (epoch timestampMs : U64)
      (status digest : Text)

end M1n3Protocol.Client
