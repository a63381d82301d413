/-
The miner's client on the market: it sells to the best standing bid, or
keeps an ask of its own at a price pegged to the book.

# How it sees the book

From the page of the orders placed last, object by object. Which orders it
takes for live it decides from two fields, price and escrow.

# What a node says

`Rpc` is the node and the SDK. Of the objects only orders matter here, so
an object's id is the order it is of.
-/
import M1n3Protocol.Chain.Market
import M1n3Protocol.Keeper.Keeper
import M1n3Protocol.Lib.Best

namespace M1n3Protocol.Client

open Keeper (SuiEvent parseU64)

-- ============================================================= the objects

inductive SuiMoveValue
  | number (n : BitVec 32)
  | string (s : Text)
  | other

structure SuiObjectData where
  type : Option Text
  /-- Of a Move object; under their names. -/
  fields : Option (List (Text × SuiMoveValue))
  /-- Of a shared object. -/
  initialSharedVersion : Option U64

def parseU64Field : SuiMoveValue → Option U64
  | .number n => some (n.setWidth 64)
  | .string s => parseU64 s
  | .other => none

/-- Price and escrow. -/
def readOrderFields (escrow : String) (data : SuiObjectData) :
    Option (U64 × U64) := do
  let fields ← data.fields
  let price ← (fields.lookup "price_per_unit_mist".toList).bind parseU64Field
  let escrow ← (fields.lookup escrow.toList).bind parseU64Field
  return (price, escrow)

def readBuyOrderFields : SuiObjectData → Option (U64 × U64) :=
  readOrderFields "payment"

def readSellOrderFields : SuiObjectData → Option (U64 × U64) :=
  readOrderFields "inventory"

structure Rpc where
  /-- `ObjectID::from_str`. -/
  objectId : Text → Option MarketRef
  /-- `SuiAddress::from_str`. -/
  suiAddress : Text → Option Address
  /-- An error or no data is none. -/
  getObject : MarketRef → Option SuiObjectData
  /-- The last 100 events of a type, the newest first. -/
  queryEvents : Text → List SuiEvent

def normalized (hex : Text) : Text :=
  match hex with
  | '0' :: 'x' :: _ => hex
  | _ => '0' :: 'x' :: hex

/-- The order of an event, if the node has it under that type. -/
def Rpc.orderOf (rpc : Rpc) (wantType : Text) (ev : SuiEvent) :
    Option (MarketRef × SuiObjectData) := do
  let hex ← ev.text "order_id"
  let orderId ← rpc.objectId (normalized hex)
  let data ← rpc.getObject orderId
  if data.type = some wantType then some (orderId, data) else none

/-- A page as the client goes through it. -/
def Rpc.orders (rpc : Rpc) (wantType : Text) (page : List SuiEvent) :
    List (MarketRef × SuiObjectData) :=
  page.filterMap (rpc.orderOf wantType)

-- ============================================================== the client

structure AutoFillBidConfig where
  floorPriceMist : U64

inductive PegAnchor
  | mid
  | bestBid
  | bestAsk
deriving DecidableEq

structure AutoSellPegConfig where
  anchor : PegAnchor
  /-- An `i32`. -/
  offsetBps : BitVec 32
  fallbackFloorMist : U64
  expiresAtMs : U64

/-- Of `MinerClient`, what the market goes by. -/
structure MarketClient where
  address : Address
  packageId : Text
  quoteType : Text
  /-- The type of the coin it mints. -/
  hashshareType : Option Text
  marketFeePoolId : Option ID
  autoFillBid : Option AutoFillBidConfig
  autoSellPeg : Option AutoSellPegConfig
  dynamicFloorMist : Option U64

def MarketClient.orderType (c : MarketClient) (side : String)
    (hsType : Text) : Text :=
  c.packageId ++ "::hash_share_market::".toList ++ side.toList ++ ['<']
    ++ hsType ++ ", ".toList ++ c.quoteType ++ ['>']

def MarketClient.buyOrderType (c : MarketClient) : Text → Text :=
  c.orderType "BuyOrder"

def MarketClient.sellOrderType (c : MarketClient) : Text → Text :=
  c.orderType "SellOrder"

/-- The events of the orders of one side placed last. -/
def MarketClient.placed (c : MarketClient) (rpc : Rpc) (side : String) :
    List SuiEvent :=
  rpc.queryEvents
    (c.packageId ++ "::hash_share_market::".toList ++ side.toList
      ++ "Placed".toList)

def MarketClient.buyOrdersPlaced (c : MarketClient) (rpc : Rpc) :
    List SuiEvent :=
  c.placed rpc "BuyOrder"

def MarketClient.sellOrdersPlaced (c : MarketClient) (rpc : Rpc) :
    List SuiEvent :=
  c.placed rpc "SellOrder"

-- =========================================================== auto-fill-bid

structure Candidate where
  orderId : MarketRef
  initialSharedVersion : U64
  price : U64
  maxUnits : U64

/-- A price of zero would divide by it; the contract takes none. -/
def candidateOf (cfg : AutoFillBidConfig) (orderId : MarketRef)
    (data : SuiObjectData) : Option Candidate := do
  let (price, budget) ← readBuyOrderFields data
  if price < cfg.floorPriceMist ∨ budget = 0 then none
  else
    let maxUnits := budget / price
    if maxUnits = 0 then none
    else
      let initialSharedVersion ← data.initialSharedVersion
      return { orderId, initialSharedVersion, price, maxUnits }

/-- The highest priced, of two at a price the one placed last. -/
def MarketClient.findBuyOrders (c : MarketClient) (rpc : Rpc)
    (wantType : Text) (cfg : AutoFillBidConfig) : Option Candidate :=
  ((rpc.orders wantType (c.buyOrdersPlaced rpc)).filterMap
    fun order => candidateOf cfg order.1 order.2).argmax
      fun candidate => candidate.price.toNat

/-- The call of `fill_buy_order` and the coin split off for it. -/
structure BidFill where
  orderId : MarketRef
  initialSharedVersion : U64
  feePool : ID
  units : U64
deriving DecidableEq

/-- The HashShares in the wallet, by the amounts of its coins. -/
def walletUnits (coins : List U64) : U64 := coins.foldl (· + ·) 0

def MarketClient.autoFillBestBid (c : MarketClient) (rpc : Rpc)
    (coins : List U64) : Option BidFill := do
  let cfg ← c.autoFillBid
  let hsType ← c.hashshareType
  let feePool ← c.marketFeePoolId
  let myTotalUnits := walletUnits coins
  if myTotalUnits = 0 then none
  else
    let best ← c.findBuyOrders rpc (c.buyOrderType hsType) cfg
    let units := if myTotalUnits ≤ best.maxUnits then myTotalUnits
      else best.maxUnits
    if units = 0 then none
    else
      return { best with feePool, units }

-- ================================================================== prices

/-- An order as the scan of the book takes it. -/
structure OrderRead where
  orderId : MarketRef
  price : U64
  escrow : U64

def orderRead (fields : SuiObjectData → Option (U64 × U64))
    (orderId : MarketRef) (data : SuiObjectData) : Option OrderRead := do
  let (price, escrow) ← fields data
  if 0 < escrow then some { orderId, price, escrow } else none

/-- The bid whose price the scan ends with. -/
def MarketClient.topBid (c : MarketClient) (rpc : Rpc) (wantType : Text) :
    Option OrderRead :=
  ((rpc.orders wantType (c.buyOrdersPlaced rpc)).filterMap
    fun order => orderRead readBuyOrderFields order.1 order.2).argmax
      fun order => order.price.toNat

/-- The ask whose price the scan ends with. -/
def MarketClient.topAsk (c : MarketClient) (rpc : Rpc) (wantType : Text) :
    Option OrderRead :=
  ((rpc.orders wantType (c.sellOrdersPlaced rpc)).filterMap
    fun order => orderRead readSellOrderFields order.1 order.2).argmin
      fun order => order.price.toNat

def MarketClient.scanOrderbookTop (c : MarketClient) (rpc : Rpc)
    (wantBuyType wantSellType : Text) : Option U64 × Option U64 :=
  ((c.topBid rpc wantBuyType).map OrderRead.price,
    (c.topAsk rpc wantSellType).map OrderRead.price)

def saturatingSub (a b : U64) : U64 := if b ≤ a then a - b else 0

/-- The sum of two prices wraps, as it does in a release build. -/
def PegAnchor.price : PegAnchor → Option U64 → Option U64 → U64
  | .bestBid, some b, _ => b
  | .bestAsk, _, some a => saturatingSub a 1
  | .mid, some b, some a => (b + a) / 2
  | .mid, some b, none => b
  | .mid, none, some a => saturatingSub a 1
  | _, _, _ => 0

def applyBps (anchor : U64) (bps : BitVec 32) : U64 :=
  if anchor = 0 then 0
  else
    let num := 10_000 + bps.toInt
    if num ≤ 0 then 0
    else
      let scaled := min (anchor.toNat * num.toNat) (2 ^ 128 - 1) / 10_000
      if 2 ^ 64 - 1 < scaled then BitVec.ofNat 64 (2 ^ 64 - 1)
      else BitVec.ofNat 64 scaled

/-- The price pegged to the top of the book; 0 is none. -/
def AutoSellPegConfig.pegged (cfg : AutoSellPegConfig)
    (top : Option U64 × Option U64) : U64 :=
  applyBps (cfg.anchor.price top.1 top.2) cfg.offsetBps

/-- The pegged price or a floor in its place. -/
def AutoSellPegConfig.target (cfg : AutoSellPegConfig)
    (dynamicFloor pegged : U64) : Option U64 :=
  if 0 < pegged then some pegged
  else if 0 < dynamicFloor then some dynamicFloor
  else if 0 < cfg.fallbackFloorMist then some cfg.fallbackFloorMist
  else none

-- ========================================================== auto-sell-pegged

def Rpc.isMine (rpc : Rpc) (address : Address) (ev : SuiEvent) : Bool :=
  rpc.suiAddress (normalized ((ev.text "seller").getD [])) = some address

structure MySellOrder where
  orderId : MarketRef
  initialSharedVersion : U64
  price : U64

def mySellOrderOf (orderId : MarketRef) (data : SuiObjectData) :
    Option MySellOrder := do
  let initialSharedVersion ← data.initialSharedVersion
  let (price, inventory) ← readSellOrderFields data
  if inventory = 0 then none
  else return { orderId, initialSharedVersion, price }

/-- The one placed last. -/
def MarketClient.findMyActiveSellOrder (c : MarketClient) (rpc : Rpc)
    (wantType : Text) : Option MySellOrder :=
  let mine := (c.sellOrdersPlaced rpc).filter (rpc.isMine c.address)
  (rpc.orders wantType mine).findSome?
    fun order => mySellOrderOf order.1 order.2

/-- What is sent with all the coins of the wallet: they top up an order,
which then takes a new price if there is one, or make one. -/
inductive PeggedSell
  | topUp (orderId : MarketRef) (initialSharedVersion : U64)
      (newPrice : Option U64)
  | place (price expiresEpoch : U64)
deriving DecidableEq

def MarketClient.autoSellPegged (c : MarketClient) (rpc : Rpc)
    (coins : List U64) : Option PeggedSell := do
  let cfg ← c.autoSellPeg
  let hsType ← c.hashshareType
  let newUnits := walletUnits coins
  if newUnits = 0 then none
  else
    let top := c.scanOrderbookTop rpc (c.buyOrderType hsType)
      (c.sellOrderType hsType)
    let dynamicFloor := c.dynamicFloorMist.getD 0
    let target ← cfg.target dynamicFloor (cfg.pegged top)
    match c.findMyActiveSellOrder rpc (c.sellOrderType hsType) with
    | some mine =>
        let newPrice := if mine.price = target then none else some target
        return .topUp mine.orderId mine.initialSharedVersion newPrice
    | none => return .place target cfg.expiresAtMs

end M1n3Protocol.Client
