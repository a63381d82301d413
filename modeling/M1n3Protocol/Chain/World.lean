/-
The whole chain: the mining side beside the orders, the coin slots and
the hBTC side, and every call on them as one machine.

# Runs

A step is one call. `beginTx` starts a transaction: the sender, the epoch
and the clock change, and the receipts of the last transaction are gone.
Every call of a transaction that commits succeeds, so the states between
committed transactions are among those the machine reaches.

# What others may do

Shared caps and coins are the framework's objects: anyone may create a
currency, mint or burn on a cap that is shared, split and join coins,
and send hBTC to the vault's address. Those calls are here too. The hBTC
Hashi credits is told apart from what anyone else sends.

# What the contract forgets

As on the mining side: `mints` and `burns` list what `mint_share` and
`redeem` did on each cap; `claimed` lists the reward claims; the tags of
`RecordObject` say which claim and config a record was made with; and
`hashiCredited`, `receivedOutside` and `paidOut` total the hBTC Hashi
credited, the hBTC that entered the vault from outside, and the hBTC
paid to miners and holders.
-/
import M1n3Protocol.Chain.Mining
import M1n3Protocol.Contract.HashShare
import M1n3Protocol.Lib.Machine

namespace M1n3Protocol

open Checked

-- =============================================================== orders

structure Orders where
  hashpower : ObjStore HashpowerBuyOrder
  buyer : ObjStore BuyerHashpowerOrder

def Orders.init : Orders where
  hashpower := .empty
  buyer := .empty

inductive OrderCall
  | placeHashpowerOrder (parent : ID) (payment price : U64)
      (expiresEpoch : Option U64) (isDynamic : Bool)
  | updateHashpowerOrderPrice (order : ID) (newPrice : U64)
  | topUpHashpowerOrder (order : ID) (payment : U64)
  | cancelHashpowerOrder (order : ID)
  | placeBuyerOrder (payment price : U64) (expiresEpoch : Option U64)
      (isDynamic : Bool)
  | updateBuyerOrderPrice (order : ID) (newPrice : U64)
  | topUpBuyerOrder (order : ID) (payment : U64)
  | cancelBuyerOrder (order : ID)

def Orders.exec (ctx : TxContext) (templates : ObjStore TemplateObject)
    (o : Orders) : OrderCall → Except Abort Orders
  | .placeHashpowerOrder parent payment price expiresEpoch isDynamic => do
      let t ← load templates parent
      let order ← placeHashpowerOrder parent t.template payment price
        expiresEpoch isDynamic ctx
      return { o with hashpower := o.hashpower.alloc order }
  | .updateHashpowerOrderPrice id newPrice => do
      let order ← load o.hashpower id
      let order ← updateHashpowerOrderPrice order newPrice ctx
      return { o with hashpower := o.hashpower.put id order }
  | .topUpHashpowerOrder id payment => do
      let order ← load o.hashpower id
      let order ← topUpHashpowerOrder order payment
      return { o with hashpower := o.hashpower.put id order }
  | .cancelHashpowerOrder id => do
      let order ← load o.hashpower id
      let _ ← cancelHashpowerOrder order ctx
      return { o with hashpower := o.hashpower.erase id }
  | .placeBuyerOrder payment price expiresEpoch isDynamic => do
      let order ← placeBuyerOrder payment price expiresEpoch isDynamic ctx
      return { o with buyer := o.buyer.alloc order }
  | .updateBuyerOrderPrice id newPrice => do
      let order ← load o.buyer id
      let order ← updateBuyerOrderPrice order newPrice ctx
      return { o with buyer := o.buyer.put id order }
  | .topUpBuyerOrder id payment => do
      let order ← load o.buyer id
      let order ← topUpBuyerOrder order payment
      return { o with buyer := o.buyer.put id order }
  | .cancelBuyerOrder id => do
      let order ← load o.buyer id
      let _ ← cancelBuyerOrder order ctx
      return { o with buyer := o.buyer.erase id }

-- ================================================================ slots

/-- A share minted as coins. -/
structure MintEntry where
  capId : ID
  roundId : U64
  difficulty : U64

structure BurnEntry where
  capId : ID
  units : U64

structure Slots where
  registry : HashShareRegistry
  caps : ObjStore TreasuryCap
  coins : ObjStore Coin
  mints : ObjStore MintEntry
  burns : ObjStore BurnEntry

def Slots.init (publisher : Address) : Slots where
  registry := HashShareRegistry.init publisher
  caps := .empty
  coins := .empty
  mints := .empty
  burns := .empty

/-- `createCurrency` is the `init` of an `hs_NNN` module, or of anyone's
own. The others before `registerSlot` are the framework's, callable by
whoever can pass a shared cap or owns the coins. -/
inductive SlotCall
  | createCurrency
  | coinMint (cap : ID) (value : U64)
  | coinBurn (cap coin : ID)
  | treasuryIntoSupply (cap : ID)
  | coinSplit (coin : ID) (amount : U64)
  | coinJoin (coin other : ID)
  | registerSlot (capId : ID) (label : Bytes)
  | bindSlotToRound (roundId : U64)

def Slots.exec (s : Slots) : SlotCall → Except Abort Slots
  | .createCurrency => pure { s with caps := s.caps.alloc ⟨0⟩ }
  | .coinMint id value => do
      let cap ← load s.caps id
      let cap ← M1n3Protocol.coinMint cap value
      return { s with caps := s.caps.put id cap
                      coins := s.coins.alloc ⟨id, value⟩ }
  | .coinBurn id coinId => do
      let cap ← load s.caps id
      let coin ← load s.coins coinId
      require (coin.capId = id) .noSuchObject
      let cap ← M1n3Protocol.coinBurn cap coin.value
      return { s with caps := s.caps.put id cap
                      coins := s.coins.erase coinId }
  | .treasuryIntoSupply id => do
      let _ ← load s.caps id
      return { s with caps := s.caps.erase id }
  | .coinSplit id amount => do
      let coin ← load s.coins id
      let rest ← balanceSplit coin.value amount
      return { s with
        coins := (s.coins.put id { coin with value := rest }).alloc
          ⟨coin.capId, amount⟩ }
  | .coinJoin id other => do
      require (id ≠ other) .noSuchObject
      let coin ← load s.coins id
      let c ← load s.coins other
      require (c.capId = coin.capId) .noSuchObject
      let value ← balanceJoin coin.value c.value
      return { s with
        coins := (s.coins.put id { coin with value }).erase other }
  | .registerSlot capId label => do
      let registry ← M1n3Protocol.registerSlot s.registry capId label
      return { s with registry }
  | .bindSlotToRound roundId => do
      let (registry, _) ← M1n3Protocol.bindSlotToRound s.registry roundId
      return { s with registry }

/-- The slot calls that take the `PoolAdminCap`. -/
inductive SlotAdminCall
  | setFeeBps (newBps : U64)
  | setFeeRecipient (newRecipient : Address)

def Slots.execAdmin (s : Slots) : SlotAdminCall → Except Abort Slots
  | .setFeeBps newBps => do
      let registry ← M1n3Protocol.setFeeBps s.registry newBps
      return { s with registry }
  | .setFeeRecipient newRecipient =>
      pure { s with
        registry := M1n3Protocol.setFeeRecipient s.registry newRecipient }

/-- The coins a mint leaves: the miner's, and the fee's unless there is
none. -/
def mintedCoins (coins : ObjStore Coin) (capId : ID)
    (minerUnits feeUnits : U64) : ObjStore Coin :=
  if 0 < feeUnits then
    (coins.alloc ⟨capId, minerUnits⟩).alloc ⟨capId, feeUnits⟩
  else coins.alloc ⟨capId, minerUnits⟩

-- ================================================================= hBTC

/-- A deposit record, the config whose index has it, and the claim it was
made with. -/
structure RecordObject where
  record : BlockDepositRecord
  config : ID
  claim : ID

/-- A reward claim: who claimed how much work on which batch, and what it
paid. -/
structure ClaimEntry where
  batch : ID
  record : MinerWorkRecord
  amount : U64

structure Hashi where
  configs : ObjStore HashiPoolConfig
  records : ObjStore RecordObject
  vault : HashiVault
  accumulated : U64
  inbox : ObjStore U64
  rewards : HashiRewardRegistry
  batches : ObjStore HashiRewardBatch
  redemptions : ObjStore Redemption
  claimed : ObjStore ClaimEntry
  hashiCredited : Nat
  receivedOutside : Nat
  paidOut : Nat

def Hashi.init : Hashi where
  configs := .empty
  records := .empty
  vault := .empty
  accumulated := 0
  inbox := .empty
  rewards := .init
  batches := .empty
  redemptions := .empty
  claimed := .empty
  hashiCredited := 0
  receivedOutside := 0
  paidOut := 0

/-- `hashiCredit` is Hashi minting to the vault's address, `sendFunds`
anyone crediting the same accumulator, `transferCoin` anyone sending a
coin there. -/
inductive HashiCall
  | hashiCredit (amount : U64)
  | sendFunds (amount : U64)
  | transferCoin (amount : U64)
  | receiveHbtc (coin : ID)
  | claimAccumulatedHbtc (amount : U64)
  | recycleExpiredToVault (batch : ID)
  | recycleExpiredRedemption (redemption : ID)

def Hashi.exec (ctx : TxContext) (h : Hashi) :
    HashiCall → Except Abort Hashi
  | .hashiCredit amount => do
      let accumulated ← balanceJoin h.accumulated amount
      return { h with accumulated
                      hashiCredited := h.hashiCredited + amount.toNat }
  | .sendFunds amount => do
      let accumulated ← balanceJoin h.accumulated amount
      return { h with accumulated }
  | .transferCoin amount => pure { h with inbox := h.inbox.alloc amount }
  | .receiveHbtc id => do
      let amount ← load h.inbox id
      let vault ← receiveHbtc h.vault amount
      return { h with vault, inbox := h.inbox.erase id
                      receivedOutside := h.receivedOutside + amount.toNat }
  | .claimAccumulatedHbtc amount => do
      let (vault, accumulated) ←
        claimAccumulatedHbtc h.vault h.accumulated amount
      return { h with vault, accumulated
                      receivedOutside := h.receivedOutside + amount.toNat }
  | .recycleExpiredToVault id => do
      let b ← load h.batches id
      let (rewards, b, vault) ←
        M1n3Protocol.recycleExpiredToVault h.rewards b h.vault ctx
      return { h with rewards, vault, batches := h.batches.put id b }
  | .recycleExpiredRedemption id => do
      let r ← load h.redemptions id
      let (r, vault) ←
        M1n3Protocol.recycleExpiredRedemption r h.vault ctx
      return { h with vault, redemptions := h.redemptions.put id r }

/-- The deposit calls that take the `PoolAdminCap`. -/
inductive HashiAdminCall
  | initializeConfig (btcDepositAddress : Bytes)
  | updateBtcAddress (config : ID) (newBtcDepositAddress : Bytes)
  | registerWithHashi (record : ID)
  | setHashiRequestId (record : ID) (hashiRequestId : Address)
  | markHashiApproved (record : ID)
  | markHashiConfirmed (config record : ID)
  | markHashiFailed (record : ID) (reason : Bytes)
  | clearPendingSats (config : ID) (amount : U64)

def Hashi.execAdmin (ctx : TxContext) (h : Hashi) :
    HashiAdminCall → Except Abort Hashi
  | .initializeConfig btcDepositAddress => do
      let config ← M1n3Protocol.initializeConfig btcDepositAddress
      return { h with configs := h.configs.alloc config }
  | .updateBtcAddress id newBtcDepositAddress => do
      let config ← load h.configs id
      let config ← M1n3Protocol.updateBtcAddress config newBtcDepositAddress
      return { h with configs := h.configs.put id config }
  | .registerWithHashi id => do
      let r ← load h.records id
      let record ← M1n3Protocol.registerWithHashi r.record
      return { h with records := h.records.put id { r with record } }
  | .setHashiRequestId id hashiRequestId => do
      let r ← load h.records id
      let record ← M1n3Protocol.setHashiRequestId r.record hashiRequestId
      return { h with records := h.records.put id { r with record } }
  | .markHashiApproved id => do
      let r ← load h.records id
      let record ← M1n3Protocol.markHashiApproved r.record
      return { h with records := h.records.put id { r with record } }
  | .markHashiConfirmed configId id => do
      let config ← load h.configs configId
      let r ← load h.records id
      let (config, record) ←
        M1n3Protocol.markHashiConfirmed config r.record ctx
      return { h with configs := h.configs.put configId config
                      records := h.records.put id { r with record } }
  | .markHashiFailed id reason => do
      let r ← load h.records id
      let record ← M1n3Protocol.markHashiFailed r.record reason
      return { h with records := h.records.put id { r with record } }
  | .clearPendingSats id amount => do
      let config ← load h.configs id
      return { h with
        configs := h.configs.put id
          (M1n3Protocol.clearPendingSats config amount) }

-- ================================================================ world

structure World where
  ctx : TxContext
  capHolder : Address
  mining : Mining
  orders : Orders
  slots : Slots
  hashi : Hashi

/-- The chain after `publisher` published the package and created the
vault. -/
def World.init (publisher : Address) : World where
  ctx := ⟨publisher, 0, 0⟩
  capHolder := publisher
  mining := Mining.init publisher
  orders := .init
  slots := Slots.init publisher
  hashi := .init

/-- The four lanes that pay a share from an order. -/
inductive PayCall
  | submitShareForPay (template order : ID) (ids : ShareIds)
      (sub : Submission)
  | submitShareForPayDerived (derived order : ID) (ids : ShareIds)
      (sub : Submission)
  | submitShareForBuyerPay (template order : ID) (ids : ShareIds)
      (sub : Submission)
  | submitShareForBuyerPayDerived (derived parent order : ID)
      (ids : ShareIds) (sub : Submission)

inductive Call
  | beginTx (sender : Address) (epoch timestampMs : U64)
  | transferAdminCap (recipient : Address)
  | admin (c : AdminCall)
  | mining (c : MiningCall)
  | order (c : OrderCall)
  | pay (c : PayCall)
  | slotAdmin (c : SlotAdminCall)
  | slot (c : SlotCall)
  | mintShare (cap receipt mrs : ID)
  | hashiAdmin (c : HashiAdminCall)
  | hashi (c : HashiCall)
  | recordBlockFound (config claim : ID) (txid : Bytes) (vout : U32)
      (amountSats : U64)
  | openAndFundRoundBatch (history record : ID)
  | claimReward (batch record history : ID)
  | openRedemption (cap history record : ID)
  | redeem (redemption cap coin : ID)

/-- The caller passes the `PoolAdminCap`, so it holds it. -/
def World.withCap (w : World) : Except Abort Unit :=
  require (w.ctx.sender = w.capHolder) .notOwner

def World.pay (H : HashFn) (w : World) : PayCall → Except Abort World
  | .submitShareForPay template order ids sub => do
      let t ← load w.mining.templates template
      let b ← load w.orders.hashpower order
      let o ← w.mining.minerObjects ids
      let paid ← submitShareForPay H template t.template b o sub w.ctx
      return { w with
        mining := w.mining.recordShare ids (.direct template)
          t.template.height (some ⟨.hashpower order, paid.payout⟩) paid.outcome
        orders := { w.orders with
          hashpower := w.orders.hashpower.put order
            { b with toOrderTerms := paid.terms } } }
  | .submitShareForPayDerived derived order ids sub => do
      let d ← load w.mining.derived derived
      let b ← load w.orders.hashpower order
      let o ← w.mining.minerObjects ids
      let paid ← submitShareForPayDerived H d b o sub w.ctx
      return { w with
        mining := w.mining.recordShare ids (.derived derived) d.height
          (some ⟨.hashpower order, paid.payout⟩) paid.outcome
        orders := { w.orders with
          hashpower := w.orders.hashpower.put order
            { b with toOrderTerms := paid.terms } } }
  | .submitShareForBuyerPay template order ids sub => do
      let t ← load w.mining.templates template
      let b ← load w.orders.buyer order
      let o ← w.mining.minerObjects ids
      let paid ← submitShareForBuyerPay H t.template b o sub w.ctx
      return { w with
        mining := w.mining.recordShare ids (.direct template)
          t.template.height (some ⟨.buyer order, paid.payout⟩) paid.outcome
        orders := { w.orders with
          buyer := w.orders.buyer.put order { toOrderTerms := paid.terms } } }
  | .submitShareForBuyerPayDerived derived parent order ids sub => do
      let d ← load w.mining.derived derived
      let p ← load w.mining.templates parent
      let b ← load w.orders.buyer order
      let o ← w.mining.minerObjects ids
      let paid ← submitShareForBuyerPayDerived H d parent p.template b o sub
        w.ctx
      return { w with
        mining := w.mining.recordShare ids (.derived derived) d.height
          (some ⟨.buyer order, paid.payout⟩) paid.outcome
        orders := { w.orders with
          buyer := w.orders.buyer.put order { toOrderTerms := paid.terms } } }

/-- The clock and the epoch never run back. -/
def World.beginTx (w : World) (sender : Address) (epoch timestampMs : U64) :
    Except Abort World := do
  require (w.ctx.epoch ≤ epoch ∧ w.ctx.timestampMs ≤ timestampMs)
    .clockBackwards
  return { w with
    ctx := ⟨sender, epoch, timestampMs⟩
    mining := { w.mining with receipts := .empty } }

def World.mintShare (w : World) (capId receiptId mrsId : ID) :
    Except Abort World := do
  let cap ← load w.slots.caps capId
  let r ← load w.mining.receipts receiptId
  let mrs ← load w.mining.roundStats mrsId
  let out ← M1n3Protocol.mintShare w.slots.registry capId cap r.receipt mrs
  return { w with
    mining := w.mining.recordMint receiptId mrsId r.share out.roundStats
    slots := { w.slots with
      caps := w.slots.caps.put capId out.cap
      coins := mintedCoins w.slots.coins capId out.minerUnits out.feeUnits
      mints := w.slots.mints.alloc
        ⟨capId, r.receipt.roundId, r.receipt.difficulty⟩ } }

def World.recordBlockFound (w : World) (configId claimId : ID) (txid : Bytes)
    (vout : U32) (amountSats : U64) : Except Abort World := do
  let config ← load w.hashi.configs configId
  let c ← load w.mining.claims claimId
  let (config, record) ← M1n3Protocol.recordBlockFound config c.claim txid
    vout amountSats w.hashi.records.next w.ctx
  return { w with hashi := { w.hashi with
    configs := w.hashi.configs.put configId config
    records := w.hashi.records.alloc ⟨record, configId, claimId⟩ } }

def World.openAndFundRoundBatch (w : World) (historyId recordId : ID) :
    Except Abort World := do
  let rh ← load w.mining.histories historyId
  let r ← load w.hashi.records recordId
  let out ← M1n3Protocol.openAndFundRoundBatch w.hashi.rewards w.hashi.vault
    rh r.record w.hashi.batches.next w.ctx
  return { w with hashi := { w.hashi with
    rewards := out.registry
    vault := out.vault
    records := w.hashi.records.put recordId { r with record := out.record }
    batches := w.hashi.batches.alloc out.batch } }

def World.claimReward (w : World) (batchId recordId historyId : ID) :
    Except Abort World := do
  let b ← load w.hashi.batches batchId
  let r ← load w.mining.workRecords recordId
  let rh ← load w.mining.histories historyId
  let (rewards, b, amount) ←
    M1n3Protocol.claimReward w.hashi.rewards b r rh w.ctx
  return { w with
    mining := { w.mining with
      workRecords := w.mining.workRecords.erase recordId }
    hashi := { w.hashi with
      rewards
      batches := w.hashi.batches.put batchId b
      claimed := w.hashi.claimed.alloc ⟨batchId, r, amount⟩
      paidOut := w.hashi.paidOut + amount.toNat } }

def World.openRedemption (w : World) (capId historyId recordId : ID) :
    Except Abort World := do
  let cap ← load w.slots.caps capId
  let rh ← load w.mining.histories historyId
  let r ← load w.hashi.records recordId
  let out ← M1n3Protocol.openRedemption w.slots.registry capId cap
    w.hashi.vault rh r.record w.hashi.redemptions.next w.ctx
  return { w with hashi := { w.hashi with
    vault := out.vault
    records := w.hashi.records.put recordId { r with record := out.record }
    redemptions := w.hashi.redemptions.alloc out.redemption } }

/-- The type system pairs the redemption, the cap and the coin. -/
def World.redeem (w : World) (redemptionId capId coinId : ID) :
    Except Abort World := do
  let r ← load w.hashi.redemptions redemptionId
  let cap ← load w.slots.caps capId
  let coin ← load w.slots.coins coinId
  require (r.capId = capId ∧ coin.capId = capId) .noSuchObject
  let out ← M1n3Protocol.redeem r cap coin.value w.ctx
  return { w with
    slots := { w.slots with
      caps := w.slots.caps.put capId out.cap
      coins := w.slots.coins.erase coinId
      burns := w.slots.burns.alloc ⟨capId, coin.value⟩ }
    hashi := { w.hashi with
      redemptions := w.hashi.redemptions.put redemptionId out.redemption
      paidOut := w.hashi.paidOut + out.payout.toNat } }

def World.exec (H : HashFn) (w : World) : Call → Except Abort World
  | .beginTx sender epoch timestampMs => w.beginTx sender epoch timestampMs
  | .transferAdminCap recipient => do
      w.withCap
      return { w with capHolder := recipient }
  | .admin c => do
      w.withCap
      let mining ← w.mining.execAdmin w.ctx c
      return { w with mining }
  | .mining c => do
      let mining ← w.mining.exec H w.ctx c
      return { w with mining }
  | .order c => do
      let orders ← w.orders.exec w.ctx w.mining.templates c
      return { w with orders }
  | .pay c => w.pay H c
  | .slotAdmin c => do
      w.withCap
      let slots ← w.slots.execAdmin c
      return { w with slots }
  | .slot c => do
      let slots ← w.slots.exec c
      return { w with slots }
  | .mintShare cap receipt mrs => w.mintShare cap receipt mrs
  | .hashiAdmin c => do
      w.withCap
      let hashi ← w.hashi.execAdmin w.ctx c
      return { w with hashi }
  | .hashi c => do
      let hashi ← w.hashi.exec w.ctx c
      return { w with hashi }
  | .recordBlockFound config claim txid vout amountSats =>
      w.recordBlockFound config claim txid vout amountSats
  | .openAndFundRoundBatch history record =>
      w.openAndFundRoundBatch history record
  | .claimReward batch record history => w.claimReward batch record history
  | .openRedemption cap history record => w.openRedemption cap history record
  | .redeem redemption cap coin => w.redeem redemption cap coin

/-- The contract as published by `publisher`. -/
def contract (H : HashFn) (publisher : Address) :
    Machine Abort World Call where
  init := World.init publisher
  step := World.exec H

end M1n3Protocol
